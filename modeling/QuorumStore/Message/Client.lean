import QuorumStore.Json.Reading
import QuorumStore.NodeError
import QuorumStore.Store.Document
import QuorumStore.Text.Blank
/-! # Client messages

What clients send to read and write, and the one form of reply they get. A value is sent as a JSON
object, as a string that holds one, or as the tombstone text.
-/

namespace QuorumStore

/-- The number of bytes a key may have. -/
def maxKeyLength : Nat := 1024

/-- What is wrong with the length of a key, if anything. -/
def keyFault? (key : String) : Option Malformation :=
  if key.utf8ByteSize = 0 then some .keyTooShort
  else if maxKeyLength < key.utf8ByteSize then some .keyTooLong
  else none

/-- Asks for the value of a key. -/
structure GetRequest where
  key : String
  token : String
  deriving Repr, DecidableEq

namespace GetRequest

/-- The body a client sends. It is put together as a value, so its members are sorted. -/
def toJson (r : GetRequest) : Json :=
  Json.ofFields [("payload",
    Json.ofFields [("key", .string r.key), (tokenField, .string r.token)])]

def reading : Json.Reading GetRequest :=
  Json.record ["payload"] fun depth fields =>
    match fields with
    | [payload] => Json.required payloadReading depth payload
    | _ => none
where
  payloadReading : Json.Reading GetRequest :=
    Json.record ["key", tokenField] fun depth fields =>
      match fields with
      | [key, token] => do
        let key ← Json.required .string depth key
        let token ← Json.optional .string "" depth token
        return { key, token }
      | _ => none

end GetRequest

/-- Asks to store or to delete the value of a key. -/
structure PutRequest where
  key : String
  value : Json
  token : Option String

namespace PutRequest

/-- The body a client sends, with its members sorted like those of every value. -/
def toJson (r : PutRequest) : Json :=
  Json.ofFields [("payload", Json.ofFields <|
    [("key", .string r.key), ("value", r.value)] ++
    match r.token with
    | some token => [(tokenField, Json.string token)]
    | none => [])]

def reading : Json.Reading PutRequest :=
  Json.record ["payload"] fun depth fields =>
    match fields with
    | [payload] => Json.required payloadReading depth payload
    | _ => none
where
  payloadReading : Json.Reading PutRequest :=
    Json.record ["key", "value", tokenField] fun depth fields =>
      match fields with
      | [key, value, token] => do
        let key ← Json.required .string depth key
        let value ← Json.required .any depth value
        let token ← Json.optional (.nullable .string) none depth token
        return { key, value, token }
      | _ => none

end PutRequest

/-- A version is a natural number, or a string of its digits with blanks around them. -/
def parseVersion : Json → Except Malformation Nat
  | .number n =>
    match n.natural? with
    | some v => .ok v
    | none => .error .versionInvalid
  | .string s =>
    match Decimal.below? Decimal.limit64 (Text.trim s.toList) with
    | some v => .ok v
    | none => .error .versionInvalid
  | _ => .error .versionInvalid

/-- A value that was sent, taken apart. -/
structure Submission where
  write : Write
  /-- The token inside the value, which counts if the request has none of its own. -/
  token : Option String

namespace Submission

/-- Takes an object apart into its version, its token and the document that is left. A token that
    is no string is left out like any other. -/
def ofFields (fields : Json.Fields) : Except Malformation Submission :=
  let token := (fields.get? tokenField).bind Json.string?
  let fields := fields.erase tokenField
  match fields.get? versionField with
  | none => .error .versionMissing
  | some version =>
    match parseVersion version with
    | .error e => .error e
    | .ok expected => .ok ⟨.upsert expected ⟨fields.erase versionField⟩, token⟩

/-- Takes a value apart that has to be an object. -/
def ofObject : Json → Except Malformation Submission
  | .object fields => ofFields fields
  | _ => .error .valueShape

/-- Takes a value apart. -/
def ofValue : Json → Except Malformation Submission
  | .string s =>
    if s = tombstoneText then .ok ⟨.delete, none⟩
    else
      match Json.ofString s with
      | none => .error .valueText
      | some j => ofObject j
  | j => ofObject j

end Submission

/-- Whether a request succeeded. -/
inductive ReplyCode where
  | success
  | fail
  deriving Repr, DecidableEq

/-- A key and the text of its record. -/
structure RecordPayload where
  key : String
  value : String
  deriving Repr, DecidableEq

namespace RecordPayload

/-- The payload for a record. -/
def ofRecord (key : String) (r : Record) : RecordPayload := ⟨key, r.text⟩

def toJson (p : RecordPayload) : Json :=
  Json.ofFields [("key", .string p.key), ("value", .string p.value)]

def reading : Json.Reading RecordPayload :=
  Json.record ["key", "value"] fun depth fields =>
    match fields with
    | [key, value] => do
      let key ← Json.required .string depth key
      let value ← Json.required .string depth value
      return { key, value }
    | _ => none

/-- The payload that a value already read stands for, as an object or as an array. -/
def ofJson? : Json → Option RecordPayload
  | .object fields =>
    match Json.Fields.get? "key" fields, Json.Fields.get? "value" fields with
    | some (.string key), some (.string value) => some ⟨key, value⟩
    | _, _ => none
  | .array [.string key, .string value] => some ⟨key, value⟩
  | _ => none

end RecordPayload

/-- The reply to a client. -/
structure ClientReply where
  code : ReplyCode
  message : Option String := none
  /-- The code of the error. -/
  error : Option String := none
  /-- Where to try again when this node does not lead. -/
  redirect : Option String := none
  payload : Option Json := none

namespace ClientReply

/-- The reply to a request that succeeded. -/
def success (p : RecordPayload) : ClientReply := { code := .success, payload := some p.toJson }

/-- The reply to a request that was refused. The leader stands also where older clients look for
    it. -/
def failure (e : NodeError) : ClientReply :=
  match e with
  | .notLeader leader =>
    { code := .fail
      message := some e.text
      error := some e.code
      redirect := leader
      payload := some (Json.ofFields [("message", .ofString? leader)]) }
  | _ => { code := .fail, message := some e.text, error := some e.code }

/-- The name of a code. -/
def codeName : ReplyCode → String
  | .success => "success"
  | .fail => "fail"

def toJson (r : ClientReply) : Json :=
  .object <| Json.Fields.present
    [("code", some (.string (codeName r.code))), ("message", r.message.map .string),
      ("error", r.error.map .string), ("redirect", r.redirect.map .string),
      ("payload", r.payload)]

/-- The code of a name. -/
def codeNamed : String → Option ReplyCode
  | "success" => some .success
  | "fail" => some .fail
  | _ => none

def reading : Json.Reading ClientReply :=
  Json.record ["code", "message", "error", "redirect", "payload"] fun depth fields =>
    match fields with
    | [code, message, error, redirect, payload] => do
      let code ← Json.required (.oneOf codeNamed) depth code
      let message ← Json.optional (.nullable .string) none depth message
      let error ← Json.optional (.nullable .string) none depth error
      let redirect ← Json.optional (.nullable .string) none depth redirect
      let payload ← Json.optional (.nullable .any) none depth payload
      return { code, message, error, redirect, payload }
    | _ => none

end ClientReply

end QuorumStore
