import QuorumStore.Json.Reading
import QuorumStore.Log
/-! # Records and log entries as JSON

Records and commands carry a tag, which is sent first and may stand anywhere among the members that
are read: a value is read as a whole before its tag says what it is. A tombstone and a barrier have nothing besides the tag.
-/

namespace QuorumStore

namespace Record

def toJson : Record → Json
  | .live value version =>
    .object [("state", .string "live"), ("value", .string value), ("version", .ofNat version)]
  | .tombstone => .object [("state", .string "tombstone")]

def reading : Json.Reading Record :=
  Json.tagged "state" fun depth variant content =>
    match variant with
    | "live" => do
      match ← Json.entries? ["value", "version"] content with
      | [value, version] =>
        let value ← Json.required .string depth value
        let version ← Json.required .natural depth version
        return .live value version
      | _ => none
    | "tombstone" => (Json.entries? [] content).map fun _ => .tombstone
    | _ => none

end Record

namespace Content

def toJson : Content → Json
  | .live value => .object [("kind", .string "live"), ("data", .string value)]
  | .tombstone => .object [("kind", .string "tombstone")]

/-- Reads the members of content. A tombstone needs no data. -/
def memberReading : Json.Reading Content :=
  Json.record ["kind", "data"] fun depth fields =>
    match fields with
    | [kind, data] => do
      match ← Json.required (.oneOf some) depth kind with
      | "live" =>
        let value ← Json.required .string depth data
        return .live value
      | "tombstone" =>
        match data with
        | none | some .null => return .tombstone
        | _ => none
      | _ => none
    | _ => none

/-- Reads content. An array always has two items, a null in the place of the data of a
    tombstone. -/
def reading : Json.Reading Content
  | depth, .array items => if items.length = 2 then memberReading depth (.array items) else none
  | depth, w => memberReading depth w

end Content

namespace Command

def toJson : Command → Json
  | .write key content version =>
    .object [("op", .string "write"), ("key", .string key), ("value", content.toJson),
      ("version", .ofNat version)]
  | .barrier => .object [("op", .string "barrier")]

def reading : Json.Reading Command :=
  Json.tagged "op" fun depth variant content =>
    match variant with
    | "write" => do
      match ← Json.entries? ["key", "value", "version"] content with
      | [key, value, version] =>
        let key ← Json.required .string depth key
        let value ← Json.required Content.reading depth value
        let version ← Json.required .natural depth version
        return .write key value version
      | _ => none
    | "barrier" => (Json.entries? [] content).map fun _ => .barrier
    | _ => none

end Command

namespace Entry

def toJson (e : Entry) : Json :=
  .object [("term", .ofNat e.term), ("command", e.command.toJson)]

def reading : Json.Reading Entry :=
  Json.record ["term", "command"] fun depth fields =>
    match fields with
    | [term, command] => do
      let term ← Json.required .natural depth term
      let command ← Json.required Command.reading depth command
      return { term, command }
    | _ => none

end Entry

end QuorumStore
