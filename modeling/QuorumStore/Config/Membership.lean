import QuorumStore.Member
import QuorumStore.Text.Blank
import QuorumStore.Text.Utf8
/-! # Membership

All members are configured with the same list of addresses and differ only in the position each
takes in it. The position makes one of the addresses its own and the others its peers.
-/

namespace QuorumStore

/-- A member's own address and those of the others. -/
structure Bootstrap where
  address : String
  peers : List String
  deriving Repr, DecidableEq

/-- The members that a text lists, one on each line. Blanks around an address do not count, and
    empty lines and comments list nobody. -/
def listedMembers (text : List Char) : List String :=
  (((Text.lines text).map Text.trim).filter fun line => !line.isEmpty && line.head? != some '#').map
    String.ofList

/-- The members that a file lists, if it holds text. -/
def membersOfFile? (bytes : List UInt8) : Option (List String) :=
  (Utf8.decode? bytes).map listedMembers

/-- What follows the first mark after a scheme, or everything if there is none. -/
def afterScheme (address : List Char) : List Char :=
  (find address).getD address
where
  find : List Char → Option (List Char)
    | ':' :: '/' :: '/' :: rest => some rest
    | _ :: rest => find rest
    | [] => none

/-- What follows the last colon. -/
def afterColon? (cs : List Char) : Option (List Char) :=
  if cs.contains ':' then some (cs.reverse.takeWhile (· != ':')).reverse else none

/-- The port of an address, if it has one. -/
def addressPort? (address : String) : Option Nat :=
  let authority := (afterScheme address.toList).takeWhile (· != '/')
  (afterColon? authority).bind (Decimal.below? Decimal.limit16)

def Bootstrap.port? (b : Bootstrap) : Option Nat := addressPort? b.address

/-- Why a member does not find its place. -/
inductive BootstrapError where
  /-- The list of members cannot be read. -/
  | unreadable (path : String)
  /-- There are fewer members than the position needs. -/
  | outOfRange (index members : Nat)
  deriving Repr, DecidableEq

def BootstrapError.text : BootstrapError → String
  | .unreadable path => "reading peers file " ++ path
  | .outOfRange index members =>
    "node index " ++ Decimal.text index ++ " out of range for " ++ Decimal.text members ++
      " cluster members"

/-- Where a member stands among its fellows. -/
structure Membership where
  /-- Every member, itself included. -/
  members : List String
  /-- The file that lists the members if none are given. -/
  file : Option String
  index : Nat
  deriving Repr, DecidableEq

namespace Membership

/-- The members that are given, or else those of the file. -/
def resolve (read : String → Option (List UInt8)) (m : Membership) :
    Except BootstrapError (List String) :=
  if m.members ≠ [] then .ok m.members
  else
    match m.file with
    | none => .ok []
    | some path =>
      match (read path).bind membersOfFile? with
      | some members => .ok members
      | none => .error (.unreadable path)

/-- Takes one member out of the list. -/
def split (members : List String) (index : Nat) : Except BootstrapError Bootstrap :=
  match members[index]? with
  | some address => .ok ⟨address, members.eraseIdx index⟩
  | none => .error (.outOfRange index members.length)

/-- The member's own address and its peers. Without any members it stands alone at a fallback
    address. -/
def bootstrap (read : String → Option (List UInt8)) (fallback : String) (m : Membership) :
    Except BootstrapError Bootstrap :=
  match m.resolve read with
  | .error e => .error e
  | .ok [] => .ok ⟨fallback, []⟩
  | .ok members => split members m.index

end Membership

end QuorumStore
