import QuorumStore.Binary64.Shortest
/-! # JSON values

An object that is read, or put together by `ofFields`, has its members sorted by key and holds every
key once, so two of them with the same members are the same value and print alike. A message is an
object too; its members stand in the order of its fields, and so they are sent.
-/

namespace QuorumStore

/-- A number is an integer as long as it is written as one and fits 64 bits, signed or not. -/
inductive Number where
  | integer (i : Int)
  | double (x : Binary64)
  deriving Repr, DecidableEq

/-- The value of a number that is a natural number and written as one. -/
def Number.natural? : Number → Option Nat
  | .integer i => if 0 ≤ i then some i.toNat else none
  | .double _ => none

inductive Json where
  | null
  | bool (b : Bool)
  | number (n : Number)
  | string (s : String)
  | array (items : List Json)
  | object (fields : List (String × Json))
  deriving Repr

namespace Json

/-- The members of an object. -/
abbrev Fields := List (String × Json)

/-- Sets a member. Its place is before the first greater key; a member of the same key is
    replaced. -/
def Fields.insert (key : String) (value : Json) : Fields → Fields
  | [] => [(key, value)]
  | (k, v) :: rest =>
    if key < k then (key, value) :: (k, v) :: rest
    else if key = k then (key, value) :: rest
    else (k, v) :: Fields.insert key value rest

def Fields.get? (key : String) : Fields → Option Json
  | [] => none
  | (k, v) :: rest => if k = key then some v else Fields.get? key rest

def Fields.erase (key : String) : Fields → Fields
  | [] => []
  | (k, v) :: rest => if k = key then rest else (k, v) :: Fields.erase key rest

/-- The members that a list of pairs sets one after the other; the last pair of a key wins. -/
def Fields.ofList (pairs : List (String × Json)) : Fields :=
  pairs.foldl (fun fields (k, v) => Fields.insert k v fields) []

def ofFields (pairs : List (String × Json)) : Json := .object (Fields.ofList pairs)

/-- The members for those of some fields that have a value, in the order of the fields. -/
def Fields.present (fields : List (String × Option Json)) : Fields :=
  fields.filterMap fun (name, value) => value.map (name, ·)

def ofNat (n : Nat) : Json := .number (.integer n)

/-- A text, or null where there is none. -/
def ofString? : Option String → Json
  | some s => .string s
  | none => .null

def string? : Json → Option String
  | .string s => some s
  | _ => none

def get? (key : String) : Json → Option Json
  | .object fields => Fields.get? key fields
  | _ => none

end Json

end QuorumStore
