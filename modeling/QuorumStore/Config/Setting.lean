import QuorumStore.Yaml.Reader
import QuorumStore.Json.Basic
import QuorumStore.Text.Decimal
/-! # Settings

A setting is what one place of a configuration can be read as. In one format the same characters may
be a text and a number, in another a number is never a text, so each format says for every scalar
what it can stand for, and the readers do not care where it came from.
-/

namespace QuorumStore

/-- What a scalar can be read as. -/
structure Scalar where
  text : Option String := none
  number : Option Nat := none
  truth : Option Bool := none
  /-- Whether it says that there is nothing. -/
  isNull : Bool := false
  /-- Whether nothing is written at all. -/
  isBlank : Bool := false
  deriving Repr

/-- A part of a configuration. -/
inductive Setting where
  | scalar (s : Scalar)
  /-- A list; in some formats its items may stand for the fields of a record, in order. -/
  | list (items : List Setting) (positional : Bool)
  | table (entries : List (Setting × Setting))
  deriving Repr

namespace Setting

/-! ## From JSON -/

mutual

/-- The settings of a JSON value. Numbers, texts and truth values are never taken for each
    other. -/
def ofJson : Json → Setting
  | .null => .scalar { isNull := true }
  | .bool b => .scalar { truth := some b }
  | .number n => .scalar { number := n.natural? }
  | .string s => .scalar { text := some s }
  | .array items => .list (ofItems items) true
  | .object fields => .table (ofFields fields)

def ofItems : List Json → List Setting
  | [] => []
  | j :: rest => ofJson j :: ofItems rest

def ofFields : List (String × Json) → List (Setting × Setting)
  | [] => []
  | (k, j) :: rest => (.scalar { text := some k }, ofJson j) :: ofFields rest

end

/-! ## From YAML -/

/-- The value of the digits of a numeral in some base; there is at least one. -/
def digits? (base : Nat) (cs : List Char) : Option Nat :=
  if cs.isEmpty then none
  else
    (cs.mapM Json.hexValue?).bind fun ns =>
      if ns.all (· < base) then
        let n := ns.foldl (fun n d => n * base + d) 0
        if n < Decimal.limit64 then some n else none
      else none

/-- The number of a plain scalar, perhaps with a plus sign, in base ten, or with a mark in front in
    base sixteen, eight or two. Digits after a leading zero are no number. -/
def plainNumber? (cs : List Char) : Option Nat :=
  match Decimal.unsigned cs with
  | '0' :: 'x' :: rest => digits? 16 rest
  | '0' :: 'o' :: rest => digits? 8 rest
  | '0' :: 'b' :: rest => digits? 2 rest
  | '0' :: _ :: _ => none
  | rest => digits? 10 rest

def plainTruth? (s : String) : Option Bool :=
  if s = "true" ∨ s = "True" ∨ s = "TRUE" then some true
  else if s = "false" ∨ s = "False" ∨ s = "FALSE" then some false
  else none

def plainNull (s : String) : Bool :=
  s == "" || s == "null" || s == "Null" || s == "NULL" || s == "~"

/-- A scalar that is plain can stand for a number, a truth value or nothing; every scalar is a
    text, too. -/
def ofWritten (text : String) (plain tagged : Bool) : Scalar :=
  let bare := plain && !tagged
  { text := some text
    number := if bare then plainNumber? text.toList else none
    truth := if bare then plainTruth? text else none
    isNull := bare && plainNull text
    isBlank := plain && text == "" }

mutual

/-- The settings of a YAML tree. -/
def ofTree : Yaml.Tree → Setting
  | .scalar text plain tagged => .scalar (ofWritten text plain tagged)
  | .sequence items => .list (ofTrees items) false
  | .mapping entries => .table (ofEntries entries)

def ofTrees : List Yaml.Tree → List Setting
  | [] => []
  | t :: rest => ofTree t :: ofTrees rest

def ofEntries : List (Yaml.Tree × Yaml.Tree) → List (Setting × Setting)
  | [] => []
  | (k, v) :: rest => (ofTree k, ofTree v) :: ofEntries rest

end

def ofYaml? (text : List Char) : Option Setting := (Yaml.document? text).map ofTree

/-! ## Reading -/

def text? : Setting → Option String
  | .scalar s => s.text
  | _ => none

/-- A natural number below a limit. -/
def below? (limit : Nat) : Setting → Option Nat
  | .scalar s => s.number.filter (· < limit)
  | _ => none

def truth? : Setting → Option Bool
  | .scalar s => s.truth
  | _ => none

def texts? : Setting → Option (List String)
  | .list items _ => items.mapM text?
  | .scalar s => if s.isBlank then some [] else none
  | .table _ => none

def textOrNull? : Setting → Option (Option String)
  | .scalar s => if s.isNull then some none else s.text.map some
  | _ => none

/-- What stands for a field in a table; a field must not stand there twice. -/
def single? (entries : List (String × Setting)) (name : String) : Option (Option Setting) :=
  match entries.filter (·.1 == name) with
  | [] => some none
  | [(_, s)] => some (some s)
  | _ => none

/-- What stands for each of the named fields. Unknown fields are skipped, and where nothing is
    written every field is missing. -/
def fields? (names : List String) : Setting → Option (List (Option Setting))
  | .table entries =>
    (entries.mapM fun ((k, v) : Setting × Setting) => k.text?.map (·, v)).bind fun es =>
      names.mapM (single? es)
  | .list items positional =>
    if positional ∧ items.length ≤ names.length then
      some (items.map some ++ List.replicate (names.length - items.length) none)
    else none
  | .scalar s => if s.isBlank then some (names.map fun _ => none) else none

/-- A field with a default. -/
def orDefault {α : Type} (read : Setting → Option α) (default : α) : Option Setting → Option α
  | some s => read s
  | none => some default

end Setting

end QuorumStore
