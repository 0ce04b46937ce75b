import QuorumStore.Message.Client
import QuorumStore.Store.Key
/-! # Access

A request is read and checked before it touches anything. Its token names a principal, and the
principal owns the keys under its name.
-/

namespace QuorumStore

/-- Tells the principal that a token names, or nothing. -/
abbrev Verifier := String → Option String

/-- The message in a body, whatever its content type is said to be. -/
def decodeBody {α : Type} (read : Json.Reading α) (body : List UInt8) : Except NodeError α :=
  match Json.decode? read (Utf8.scan body) with
  | some message => .ok message
  | none => .error (.malformedRequest .body)

/-- Refuses a key that is empty or too long. -/
def checkKey (key : String) : Except NodeError Unit :=
  match keyFault? key with
  | some fault => .error (.malformedRequest fault)
  | none => .ok ()

/-- The principal of a token. One that cannot own keys is refused like a token nobody knows. -/
def authorize (verify : Verifier) (token : String) : Except NodeError String :=
  match verify token with
  | some principal => if Key.isOwner principal then .ok principal else .error .invalidToken
  | none => .error .invalidToken

/-- The parts of a value that was sent. -/
def takeApart (value : Json) : Except NodeError Submission :=
  match Submission.ofValue value with
  | .ok s => .ok s
  | .error fault => .error (.malformedRequest fault)

/-! ## What a check that passes tells -/

/-- Of two checks in a row both pass. -/
theorem bind_eq_ok {α β : Type} {check : Except NodeError α} {next : α → Except NodeError β}
    {b : β} : check >>= next = .ok b ↔ ∃ a, check = .ok a ∧ next a = .ok b := by
  cases check with
  | error e => simp [bind, Except.bind]
  | ok a => simp [bind, Except.bind]

theorem decodeBody_ok {α : Type} {read : Json.Reading α} {body : List UInt8} {message : α}
    (h : decodeBody read body = .ok message) :
    Json.decode? read (Utf8.scan body) = some message := by
  rw [decodeBody] at h
  split at h
  · rename_i decoded
    rw [decoded, Except.ok.inj h]
  · simp at h

theorem authorize_ok {verify : Verifier} {token principal : String}
    (h : authorize verify token = .ok principal) : Key.isOwner principal = true := by
  rw [authorize] at h
  split at h
  · split at h
    · rename_i valid
      rw [← Except.ok.inj h]
      exact valid
    · simp at h
  · simp at h

theorem takeApart_ok {value : Json} {s : Submission} (h : takeApart value = .ok s) :
    Submission.ofValue value = .ok s := by
  rw [takeApart] at h
  split at h
  · rename_i taken
    rw [taken, Except.ok.inj h]
  · simp at h

end QuorumStore
