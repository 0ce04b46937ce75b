import QuorumStore.Json.Reader
/-! # Reading messages

A message is a record of named fields. It may be written as an object, in which unknown members are
skipped and no known one may stand twice, or as an array of its fields in their order, from which
fields with a default may be missing at the end.
-/

namespace QuorumStore.Json

/-- What is read from something written, given how deep it may nest. -/
abbrev Reading (α : Type) := Nat → Written → Option α

namespace Reading

def natural : Reading Nat
  | _, .number n => n.number?.bind Number.natural?
  | _, _ => none

def bool : Reading Bool
  | _, .bool b => some b
  | _, _ => none

def string : Reading String
  | _, .string s => Piece.string? s
  | _, _ => none

def any : Reading Json := Written.json?

/-- An array of equal items. -/
def list {α : Type} (item : Reading α) : Reading (List α)
  | depth + 1, .array items => items.mapM (item depth)
  | _, _ => none

/-- A value that may be null. -/
def nullable {α : Type} (read : Reading α) : Reading (Option α)
  | _, .null => some none
  | depth, w => (read depth w).map some

/-- One of some names: the name itself, or an object whose only member has that name and holds
    null. -/
def oneOf {α : Type} (named : String → Option α) : Reading α
  | _, .string s => (Piece.string? s).bind named
  | _ + 1, .object [(key, .null)] => (Piece.string? key).bind named
  | _, _ => none

end Reading

/-- The members of an object by their keys. -/
def named? (members : List (List Piece × Written)) : Option (List (String × Written)) :=
  members.mapM fun (key, w) => (Piece.string? key).map (·, w)

/-- The one member with a given key, if any; there must not be two. -/
def single? (members : List (String × Written)) (key : String) : Option (Option Written) :=
  match members.filter (·.1 == key) with
  | [] => some none
  | [(_, w)] => some (some w)
  | _ => none

/-- What stands for each of the named fields. -/
def entries? (names : List String) : Written → Option (List (Option Written))
  | .object members => (named? members).bind fun ms => names.mapM (single? ms)
  | .array items =>
    if items.length ≤ names.length then
      some (items.map some ++ List.replicate (names.length - items.length) none)
    else none
  | _ => none

/-- What stands for each field of a record, for a reader that then reads one level deeper. -/
def record {α : Type} (names : List String)
    (read : Nat → List (Option Written) → Option α) : Reading α
  | depth + 1, w => (entries? names w).bind (read depth)
  | 0, _ => none

/-- A field that must be there. -/
def required {α : Type} (read : Reading α) (depth : Nat) : Option Written → Option α
  | some w => read depth w
  | none => none

/-- A field with a default. -/
def optional {α : Type} (read : Reading α) (default : α) (depth : Nat) :
    Option Written → Option α
  | some w => read depth w
  | none => some default

/-- The tag of a variant and what is written besides it, for a value whose whole content is read
    before its variant is known: so all of it has to be sound, down to members nobody asks for. -/
def tagged {α : Type} (tag : String) (read : Nat → String → Written → Option α) : Reading α
  | depth + 1, w =>
    match Written.json? (depth + 1) w, w with
    | some _, .object members =>
      match (named? members).bind (single? · tag) with
      | some (some (.string s)) =>
        (Piece.string? s).bind fun variant =>
          read depth variant (.object (members.filter (Piece.string? ·.1 != some tag)))
      | _ => none
    | some _, .array (.string s :: rest) =>
      (Piece.string? s).bind fun variant => read depth variant (.array rest)
    | _, _ => none
  | 0, _ => none

/-- Reads a whole text. -/
def decode? {α : Type} (read : Reading α) (s : Source) : Option α :=
  (read? s).bind (read Written.maxDepth)

end QuorumStore.Json
