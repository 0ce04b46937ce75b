import QuorumStore.Crypto.Number
/-! # The hash functions of the SHA-2 family

The constants of the family are the first fraction bits of roots of the first primes, and are
computed from that rule.
-/

namespace QuorumStore.Crypto

/-- The first primes, found by trial division. -/
def primes (count : Nat) : List Nat :=
  search (count * count + 3) 2 []
where
  search : Nat → Nat → List Nat → List Nat
    | 0, _, found => found.reverse
    | fuel + 1, n, found =>
      if count ≤ found.length then found.reverse
      else if found.any fun p => n % p == 0 then search fuel (n + 1) found
      else search fuel (n + 1) (n :: found)

/-- The greatest number whose `k`-th power is at most `n`, bit by bit. -/
def root (k n : Nat) : Nat :=
  (List.range (bitLength n / k + 1)).foldr
    (fun i r => if Nat.pow (r + Nat.pow 2 i) k ≤ n then r + Nat.pow 2 i else r) 0

/-- The first bits after the point of the `k`-th root of a number. -/
def rootFraction (k bits n : Nat) : Nat := root k (n * Nat.pow 2 (k * bits)) % Nat.pow 2 bits

/-- A member of the family. -/
structure Hash where
  /-- The bits of a word. -/
  word : Nat
  /-- The rotations of the two sums over the schedule; the last of three is a shift. -/
  small : (Nat × Nat × Nat) × (Nat × Nat × Nat)
  /-- The rotations of the two sums over the state. -/
  big : (Nat × Nat × Nat) × (Nat × Nat × Nat)
  /-- One constant for each round. -/
  constants : List Nat
  initial : List Nat
  /-- How many bytes a digest has. -/
  size : Nat

def Hash.wordBytes (h : Hash) : Nat := h.word / 8

def Hash.blockBytes (h : Hash) : Nat := 16 * h.wordBytes

def sha256 : Hash where
  word := 32
  small := ((7, 18, 3), (17, 19, 10))
  big := ((2, 13, 22), (6, 11, 25))
  constants := (primes 64).map (rootFraction 3 32)
  initial := (primes 8).map (rootFraction 2 32)
  size := 32

def sha512 : Hash where
  word := 64
  small := ((1, 8, 7), (19, 61, 6))
  big := ((28, 34, 39), (14, 18, 41))
  constants := (primes 80).map (rootFraction 3 64)
  initial := (primes 8).map (rootFraction 2 64)
  size := 64

/-- The function with digests of 384 bits: the longer one, begun differently and cut off. -/
def sha384 : Hash :=
  { sha512 with initial := ((primes 16).drop 8).map (rootFraction 2 64), size := 48 }

namespace Hash

/-- One more than the largest word. -/
def limit (h : Hash) : Nat := Nat.pow 2 h.word

/-- Rotates a word to the right. -/
def rotate (h : Hash) (x n : Nat) : Nat :=
  (x >>> n) ||| ((x <<< (h.word - n)) % h.limit)

def complement (h : Hash) (x : Nat) : Nat := h.limit - 1 - x

/-- Three rotations in one. -/
def sum (h : Hash) (r : Nat × Nat × Nat) (x : Nat) : Nat :=
  h.rotate x r.1 ^^^ h.rotate x r.2.1 ^^^ h.rotate x r.2.2

/-- Two rotations and a shift in one. -/
def mix (h : Hash) (r : Nat × Nat × Nat) (x : Nat) : Nat :=
  h.rotate x r.1 ^^^ h.rotate x r.2.1 ^^^ (x >>> r.2.2)

/-- The words of all rounds for a block of sixteen. Each further word comes from four earlier
    ones. -/
def schedule (h : Hash) (block : List Nat) : List Nat :=
  ((List.range (h.constants.length - 16)).foldl
    (fun (ws : Array Nat) i =>
      let w (back : Nat) : Nat := ws.getD (i + 16 - back) 0
      ws.push ((h.mix h.small.2 (w 2) + w 7 + h.mix h.small.1 (w 15) + w 16) % h.limit))
    block.toArray).toList

def round (h : Hash) (state : List Nat) (input : Nat) : List Nat :=
  match state with
  | [a, b, c, d, e, f, g, x] =>
    let choice := (e &&& f) ^^^ (h.complement e &&& g)
    let majority := (a &&& b) ^^^ (a &&& c) ^^^ (b &&& c)
    let t := x + h.sum h.big.2 e + choice + input
    [(t + h.sum h.big.1 a + majority) % h.limit, a, b, c, (d + t) % h.limit, e, f, g]
  | other => other

/-- Takes a block into the state. -/
def compress (h : Hash) (state : List Nat) (block : List Nat) : List Nat :=
  let inputs := List.zipWith (· + ·) h.constants (h.schedule block)
  List.zipWith (fun a b => (a + b) % h.limit) state (inputs.foldl h.round state)

/-- The message with a one bit, zeros, and its length in bits, up to full blocks. -/
def pad (h : Hash) (message : List UInt8) : List UInt8 :=
  let tail := 2 * h.wordBytes
  let zeros := (2 * h.blockBytes - (message.length + 1 + tail) % h.blockBytes) % h.blockBytes
  message ++ 0x80 :: List.replicate zeros 0 ++ bigEndian tail (message.length * 8)

def pieces {α : Type} (length : Nat) : Nat → List α → List (List α)
  | 0, _ => []
  | count + 1, xs => xs.take length :: pieces length count (xs.drop length)

def digest (h : Hash) (message : List UInt8) : List UInt8 :=
  let padded := h.pad message
  let blocks := pieces h.blockBytes (padded.length / h.blockBytes) padded
  let words (block : List UInt8) : List Nat := (pieces h.wordBytes 16 block).map ofBigEndian
  let state := (blocks.map words).foldl h.compress h.initial
  (state.flatMap (bigEndian h.wordBytes)).take h.size

/-- The code of a message under a secret that both sides share. A secret longer than a block is
    hashed first. -/
def authenticate (h : Hash) (secret message : List UInt8) : List UInt8 :=
  let secret := if h.blockBytes < secret.length then h.digest secret else secret
  let secret := secret ++ List.replicate (h.blockBytes - secret.length) 0
  let masked (mask : UInt8) : List UInt8 := secret.map (· ^^^ mask)
  h.digest (masked 0x5c ++ h.digest (masked 0x36 ++ message))

end Hash

end QuorumStore.Crypto
