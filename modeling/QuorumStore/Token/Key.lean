import QuorumStore.Token.Base64
import QuorumStore.Crypto.Rsa
import QuorumStore.Text.Blank
import QuorumStore.Text.Utf8
/-! # Public keys in files

A key file is text: a label, and between two lines with it the bytes of the key in base 64. The
bytes are a tree of tagged values, somewhere in which stand the kind of the key and the key itself.
-/

namespace QuorumStore

/-- A tagged value. Of a sequence the parts are kept, of others the bytes. -/
inductive Tagged where
  | sequence (parts : List Tagged)
  | leaf (tag : UInt8) (content : List UInt8)
  deriving Repr

namespace Tagged

/-- The length of a value, and the bytes after it. -/
def length? : List UInt8 → Option (Nat × List UInt8)
  | [] => none
  | b :: rest =>
    if b < 0x80 then some (b.toNat, rest)
    else
      let count := b.toNat - 0x80
      if count = 0 ∨ 8 < count ∨ rest.length < count then none
      else some (Crypto.ofBigEndian (rest.take count), rest.drop count)

/-- The values that stand one after the other in some bytes. -/
def values? : Nat → List UInt8 → Option (List Tagged)
  | _, [] => some []
  | 0, _ => none
  | fuel + 1, tag :: rest =>
    match length? rest with
    | none => none
    | some (n, rest) =>
      if rest.length < n then none
      else
        let content := rest.take n
        let value? := if tag = 0x30 then (values? fuel content).map Tagged.sequence
          else some (leaf tag content)
        match value?, values? fuel (rest.drop n) with
        | some value, some more => some (value :: more)
        | _, _ => none

def integerTag : UInt8 := 0x02

def bitsTag : UInt8 := 0x03

def bytesTag : UInt8 := 0x04

def nameTag : UInt8 := 0x06

mutual

/-- The first thing found in a value, parts in order. -/
def find? {α : Type} (p : UInt8 → List UInt8 → Option α) : Tagged → Option α
  | sequence parts => findIn? p parts
  | leaf tag content => p tag content

/-- The first thing found in some values. -/
def findIn? {α : Type} (p : UInt8 → List UInt8 → Option α) : List Tagged → Option α
  | [] => none
  | value :: rest =>
    match find? p value with
    | some a => some a
    | none => findIn? p rest

end

/-- The bytes of the first string. A string of bits says first how many bits are not used. -/
def firstString? (values : List Tagged) : Option (List UInt8) :=
  findIn? (fun tag content =>
    if tag = bitsTag then some (content.drop 1)
    else if tag = bytesTag then some content
    else none) values

end Tagged

/-- The kinds of keys for signatures. -/
inductive KeyKind where
  | rsa
  | curve
  | edwards
  deriving Repr, DecidableEq

/-- The kind of key that an algorithm's name stands for. -/
def KeyKind.ofName? (name : List UInt8) : Option KeyKind :=
  if name = [0x2a, 0x86, 0x48, 0x86, 0xf7, 0x0d, 0x01, 0x01, 0x01] then some .rsa
  else if name = [0x2a, 0x86, 0x48, 0xce, 0x3d, 0x02, 0x01] then some .curve
  else if name = [0x2b, 0x65, 0x70] then some .edwards
  else none

/-- The kind of key that some values are about. -/
def KeyKind.find? (values : List Tagged) : Option KeyKind :=
  Tagged.findIn? (fun tag content =>
    if tag = Tagged.nameTag then ofName? content else none) values

/-- What stands in a key file. -/
structure KeyFile where
  label : List Char
  content : List UInt8

namespace KeyFile

/-- What stands before a mark, and what after it. -/
def cut? (mark : List Char) : List Char → Option (List Char × List Char)
  | [] => if mark.isEmpty then some ([], []) else none
  | c :: rest =>
    if mark.isPrefixOf (c :: rest) then some ([], (c :: rest).drop mark.length)
    else (cut? mark rest).map fun (before, after) => (c :: before, after)

/-- The base 64 text in the body of a file; notes on the key may stand before it, up to an empty
    line. -/
def payload (body : List Char) : List Char :=
  let text := match cut? ['\n', '\n'] body, cut? ['\r', '\n', '\r', '\n'] body with
    | some (_, after), _ => after
    | none, some (_, after) => after
    | none, none => body
  text.filter fun c => !Text.isBlank c

/-- Reads a file. What stands before and after the key does not matter. -/
def read? (text : List Char) : Option KeyFile := do
  let (_, rest) ← cut? "-----BEGIN ".toList text
  let (label, rest) ← cut? "-----".toList rest
  let (body, rest) ← cut? "-----END ".toList (Text.trimLeft rest)
  let (label₂, _) ← cut? "-----".toList rest
  if label != label₂ || label.isEmpty then none
  else
    let content ← Base64.decodePadded? Base64.standard (payload body)
    return { label, content }

/-- The bytes of the key in a file, which has to be of the given kind. -/
def key? (kind : KeyKind) (f : KeyFile) : Option (List UInt8) := do
  let values ← Tagged.values? (f.content.length + 1) f.content
  let label := String.ofList f.label
  if label = "RSA PUBLIC KEY" ∨ label = "RSA PRIVATE KEY" then
    if kind = .rsa then some f.content else none
  else
    let hidden := label = "PRIVATE KEY"
    if hidden ∨ label = "PUBLIC KEY" ∨ label = "CERTIFICATE" then
      let found ← KeyKind.find? values
      if found = kind ∧ (kind = .rsa ∨ ¬hidden) then Tagged.firstString? values else none
    else none

end KeyFile

/-- The bytes of the key in a key file. Bytes around the key need not be text. -/
def keyOfFile? (kind : KeyKind) (bytes : List UInt8) : Option (List UInt8) :=
  (KeyFile.read? ((Utf8.scan bytes).map (·.getD '\ufffd'))).bind (KeyFile.key? kind)

/-- An integer that is not negative, written without needless zeros. -/
def positive? : Tagged → Option Nat
  | .leaf tag content =>
    match content with
    | [] => none
    | first :: rest =>
      let needless := first = 0 ∧ rest.head?.any (· < 0x80)
      if tag = Tagged.integerTag ∧ first < 0x80 ∧ ¬needless then
        some (Crypto.ofBigEndian content)
      else none
  | .sequence _ => none

def rsaKey? (bytes : List UInt8) : Option Crypto.RsaKey :=
  match Tagged.values? (bytes.length + 1) bytes with
  | some [.sequence [n, e]] =>
    match positive? n, positive? e with
    | some modulus, some exponent => some { modulus, exponent }
    | _, _ => none
  | _ => none

end QuorumStore
