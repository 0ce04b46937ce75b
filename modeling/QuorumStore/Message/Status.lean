import QuorumStore.Node.Basic
import QuorumStore.Json.Reading
/-! # Roles and status as JSON -/

namespace QuorumStore

namespace Role

def name : Role → String
  | .follower => "follower"
  | .candidate => "candidate"
  | .leader => "leader"

def named : String → Option Role
  | "follower" => some .follower
  | "candidate" => some .candidate
  | "leader" => some .leader
  | _ => none

def toJson (r : Role) : Json := .string r.name

def reading : Json.Reading Role := .oneOf named

end Role

namespace Status

/-- The members of a status. -/
def members (s : Status) : List (String × Json) :=
  [("role", s.role.toJson), ("term", .ofNat s.term), ("leader", .ofString? s.leader),
    ("commitIdx", .ofNat s.commit), ("logLen", .ofNat s.logLength)]

def toJson (s : Status) : Json := .object s.members

end Status

end QuorumStore
