import QuorumStore.Config.Settings
import QuorumStore.Crypto.Curve
import QuorumStore.Json.Printer
import QuorumStore.Json.Reading
import QuorumStore.Token.Key
import QuorumStore.Text.Quoted
/-! # Tokens

A token has three parts: a header that names its algorithm, claims, and a signature over both. It is
accepted if its algorithm is the expected one, its signature is good, its issuer is the expected one
and it has not expired; then one of its claims names the principal.
-/

namespace QuorumStore

/-- The signature algorithms. -/
inductive Algorithm where
  /-- A code under a shared secret. -/
  | hs256
  | hs384
  | hs512
  /-- RSA with fixed padding. -/
  | rs256
  | rs384
  | rs512
  /-- RSA with salted padding. -/
  | ps256
  | ps384
  | ps512
  /-- Elliptic curves. -/
  | es256
  | es384
  | edDsa
  deriving Repr, DecidableEq

def Algorithm.named : String → Option Algorithm
  | "HS256" => some .hs256
  | "HS384" => some .hs384
  | "HS512" => some .hs512
  | "RS256" => some .rs256
  | "RS384" => some .rs384
  | "RS512" => some .rs512
  | "PS256" => some .ps256
  | "PS384" => some .ps384
  | "PS512" => some .ps512
  | "ES256" => some .es256
  | "ES384" => some .es384
  | "EdDSA" => some .edDsa
  | _ => none

/-- The kind of key an algorithm needs; none shares a secret. -/
def Algorithm.keyKind? : Algorithm → Option KeyKind
  | .hs256 | .hs384 | .hs512 => none
  | .es256 | .es384 => some .curve
  | .edDsa => some .edwards
  | _ => some .rsa

/-- Whether a signature is good under a key. -/
def Algorithm.verify (a : Algorithm) (key message signature : List UInt8) : Bool :=
  let rsa (check : Crypto.RsaKey → Bool) : Bool := (rsaKey? key).any check
  match a with
  | .hs256 => Crypto.sha256.authenticate key message == signature
  | .hs384 => Crypto.sha384.authenticate key message == signature
  | .hs512 => Crypto.sha512.authenticate key message == signature
  | .rs256 => rsa fun k => k.verify Crypto.sha256 message signature
  | .rs384 => rsa fun k => k.verify Crypto.sha384 message signature
  | .rs512 => rsa fun k => k.verify Crypto.sha512 message signature
  | .ps256 => rsa fun k => k.verifySalted Crypto.sha256 message signature
  | .ps384 => rsa fun k => k.verifySalted Crypto.sha384 message signature
  | .ps512 => rsa fun k => k.verifySalted Crypto.sha512 message signature
  | .es256 => Crypto.p256.verify key message signature
  | .es384 => Crypto.p384.verify key message signature
  | .edDsa => Crypto.Edwards.verify key message signature

/-- Why no principal comes out of a token, or why no tokens can be verified at all. -/
inductive TokenFault where
  /-- The token does not have three parts. -/
  | notCompact
  /-- The token is good, but names nobody. -/
  | missingClaim (claim : String)
  /-- The token, or the key file, is no good. -/
  | invalid
  | unsupported (algorithm : String)
  | secretMissing
  | keyUnreadable (path : String)
  deriving Repr, DecidableEq

def TokenFault.text : TokenFault → String
  | .notCompact => "token is not a compact JWT"
  | .missingClaim claim => "token has no " ++ claim ++ " claim"
  | .invalid => "jwt"
  | .unsupported algorithm => "unsupported JWT algorithm " ++ Text.quoted algorithm
  | .secretMissing => "auth.secret is required for HMAC algorithms"
  | .keyUnreadable path => "reading public key " ++ path

/-- What a token has to meet. -/
structure TokenRules where
  algorithm : Algorithm
  key : List UInt8
  issuer : String
  claim : String

namespace TokenRules

def ofSecret (secret : List UInt8) (issuer : String) : TokenRules :=
  ⟨.hs256, secret, issuer, "userID"⟩

def ofSettings (read : String → Option (List UInt8)) (s : TokenSettings) :
    Except TokenFault TokenRules :=
  match Algorithm.named s.algorithm with
  | none => .error (.unsupported s.algorithm)
  | some algorithm =>
    match algorithm.keyKind? with
    | none =>
      match s.secret with
      | none => .error .secretMissing
      | some secret => .ok ⟨algorithm, Utf8.ofString secret, s.issuer, s.claim⟩
    | some kind =>
      match read s.publicKeyPath with
      | none => .error (.keyUnreadable s.publicKeyPath)
      | some file =>
        match keyOfFile? kind file with
        | none => .error .invalid
        | some key => .ok ⟨algorithm, key, s.issuer, s.claim⟩

end TokenRules

/-! ## Header -/

/-- A text that may be missing. -/
def optionalText : Nat → Option Written → Option (Option String) :=
  Json.optional (.nullable .string) none

/-- A key inside a header. It is not used, but it has to be one. -/
def headerKey : Json.Reading Unit := fun depth w =>
  match Written.json? depth w with
  | none => none
  | some j =>
    let has (name : String) : Bool := ((j.get? name).bind Json.string?).isSome
    let good := match (j.get? "kty").bind Json.string? with
      | some "RSA" => has "n" && has "e"
      | some "EC" => has "crv" && has "x" && has "y"
      | some "OKP" => has "crv" && has "x"
      | some "oct" => has "k"
      | _ => false
    if good then some () else none

def headerFields : List String :=
  ["typ", "alg", "cty", "jku", "jwk", "kid", "x5u", "x5c", "x5t", "x5t#S256"]

/-- Reads the algorithm of a header whose other fields are sound. As an array a header has all its
    fields. -/
def headerReading : Json.Reading Algorithm := fun depth w =>
  let full := match w with
    | .array items => items.length == headerFields.length
    | _ => true
  if full then
    Json.record headerFields (fun depth fields =>
      match fields with
      | [typ, alg, cty, jku, jwk, kid, x5u, x5c, x5t, x5t256] => do
        let _ ← [typ, cty, jku, kid, x5u, x5t, x5t256].mapM (optionalText depth)
        let _ ← Json.optional (.nullable (.list .string)) none depth x5c
        let _ ← Json.optional (.nullable headerKey) none depth jwk
        Json.required (.oneOf Algorithm.named) depth alg
      | _ => none) depth w
  else none

/-! ## Claims -/

/-- The seconds by which clocks may differ. -/
def clockSkew : Nat := 60

/-- The whole number nearest to a magnitude, a half going up. -/
def roundHalfUp (code : Nat) : Nat :=
  let r := Binary64.value code
  (2 * r.num + r.den) / (2 * r.den)

/-- The time that a claim stands for, if it is a number in range. -/
def claimedTime? : Json → Option Nat
  | .number (.integer i) => if 0 ≤ i then some i.toNat else none
  | .number (.double x) =>
    if x.isNegative ∧ x.magnitude ≠ 0 then none
    else
      let n := Binary64.value x.magnitude
      if n.num < Decimal.limit64 * n.den then some (roundHalfUp x.magnitude) else none
  | _ => none

/-- Some texts: one text alone, or an array of nothing else. -/
def someTexts? : Json → Option (List String)
  | .string s => some [s]
  | .array items => items.mapM Json.string?
  | _ => none

/-- Whether something composite stands where it cannot be skipped. A time may be an empty array or
    object, a subject neither. -/
def unskippable (w : Written) (emptyAllowed : Bool) : Bool :=
  match w with
  | .array items => !emptyAllowed || !items.isEmpty
  | .object members => !emptyAllowed || !members.isEmpty
  | _ => false

/-- The claims as they are written: each of the registered ones at most once, and times and subject
    of a form that can be skipped. -/
def soundClaims (w : Written) : Bool :=
  match Json.entries? ["exp", "nbf", "sub", "iss", "aud"] w with
  | some [exp, nbf, sub, _, _] =>
    !exp.any (unskippable · true) && !nbf.any (unskippable · true) && !sub.any (unskippable · false)
  | _ => false

namespace TokenRules

/-- Whether claims are those of a token that counts now. -/
def accepts (rules : TokenRules) (now : Nat) (claims : Json) : Bool :=
  let issued := ((claims.get? "iss").bind someTexts?).any (·.contains rules.issuer)
  let expired := ((claims.get? "exp").bind claimedTime?).any (· + clockSkew < now)
  let addressed := ((claims.get? "aud").bind someTexts?).isSome
  issued && !expired && !addressed

/-- The claims of a token whose header and signature are good. -/
def claims? (rules : TokenRules) (header claims signature : List Char) : Option Json := do
  let head ← Base64.decode? Base64.url header
  let algorithm ← Json.decode? headerReading (Utf8.scan head)
  let sign ← Base64.decode? Base64.url signature
  let message := Utf8.encode (header ++ '.' :: claims)
  if algorithm ≠ rules.algorithm ∨ !algorithm.verify rules.key message sign then none
  else
    let body ← Base64.decode? Base64.url claims
    let written ← Json.read? (Utf8.scan body)
    match written with
    | .object _ =>
      let json ← Written.json? Written.maxDepth written
      if soundClaims written then some json else none
    | _ => none

/-- The principal that claims name. -/
def principal (rules : TokenRules) (claims : Json) : Except TokenFault String :=
  match claims.get? rules.claim with
  | some (.string id) => if id = "" then .error (.missingClaim rules.claim) else .ok id
  | some (.number n) => .ok (String.ofList n.print)
  | _ => .error (.missingClaim rules.claim)

def parts (token : List Char) : List (List Char) :=
  token.foldr
    (fun c parts =>
      match parts with
      | part :: rest => if c = '.' then [] :: part :: rest else (c :: part) :: rest
      | [] => [])
    [[]]

def verify (rules : TokenRules) (now : Nat) (token : String) : Except TokenFault String :=
  match parts token.toList with
  | [header, claims, signature] =>
    match rules.claims? header claims signature with
    | some json => if rules.accepts now json then rules.principal json else .error .invalid
    | none => .error .invalid
  | _ => .error .notCompact

end TokenRules

end QuorumStore
