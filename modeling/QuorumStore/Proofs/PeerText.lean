import QuorumStore.Message.Heartbeat
import QuorumStore.Message.Vote
import QuorumStore.Proofs.MessageText
import QuorumStore.Server.Access
/-! # Messages of members there and back

Votes, heartbeats and replies are decoded from the bytes they are sent as, with every field, every
entry of the log and every character as it was.
-/

namespace QuorumStore

open Json

variable {depth : Nat}

/-! ## Entries -/

namespace Content

theorem exact_toJson (c : Content) : Exact c.toJson := by
  cases c with
  | live value => simp [toJson, Exact, ExactFields]
  | tombstone => simp [toJson, Exact, ExactFields]

theorem worth_toJson (c : Content) : ∃ j, (written c.toJson).json? (depth + 1) = some j := by
  cases c with
  | live value =>
      apply worth_object
      simp [worth_string]
  | tombstone =>
      apply worth_object
      simp [worth_string]

theorem memberReading_toJson (c : Content) :
    memberReading (depth + 1) (written c.toJson) = some c := by
  cases c with
  | live value =>
      rw [toJson, memberReading, record_object _ (by simp)]
      simp [Fields.get?, required, oneOf_written, string_written]
  | tombstone =>
      rw [toJson, memberReading, record_object _ (by simp)]
      simp [Fields.get?, required, oneOf_written]

theorem reading_toJson (c : Content) : reading (depth + 1) (written c.toJson) = some c := by
  rw [reading, memberReading_toJson]
  intro items
  cases c <;> simp [toJson, written]

end Content

namespace Command

/-- The numbers of a command fit 64 bits. -/
def Bounded : Command → Prop
  | .write _ _ version => version < Decimal.limit64
  | .barrier => True

theorem exact_toJson (c : Command) : Exact c.toJson := by
  cases c with
  | barrier => simp [toJson, Exact, ExactFields]
  | write key content version =>
      simp [toJson, Exact, ExactFields, content.exact_toJson, exact_ofNat]

theorem reading_toJson {c : Command} (bounded : c.Bounded) :
    reading (depth + 2) (written c.toJson) = some c := by
  cases c with
  | barrier =>
      rw [toJson, reading, tagged_written _ (by simp)]
      · rfl
      · apply worth_object
        simp [worth_string]
  | write key content version =>
      rw [toJson, reading, tagged_written _ (by simp)]
      · simp [entries?_written, Fields.get?, required, string_written, natural_written bounded,
          content.reading_toJson]
      · apply worth_object
        simp [worth_string, worth_ofNat bounded, content.worth_toJson]

end Command

namespace Entry

def Bounded (e : Entry) : Prop := e.term < Decimal.limit64 ∧ e.command.Bounded

variable {e : Entry}

theorem exact_toJson (e : Entry) : Exact e.toJson := by
  simp [toJson, Exact, ExactFields, exact_ofNat, e.command.exact_toJson]

theorem reading_toJson (bounded : e.Bounded) : reading (depth + 3) (written e.toJson) = some e := by
  rw [toJson, reading, record_object _ (by simp)]
  simp [Fields.get?, required, natural_written bounded.1, Command.reading_toJson bounded.2]

end Entry

/-! ## Votes -/

namespace VoteRequest

def Bounded (r : VoteRequest) : Prop :=
  r.term < Decimal.limit64 ∧ r.commit < Decimal.limit64 ∧ r.staged < Decimal.limit64 ∧
    r.lastTerm < Decimal.limit64

variable {r : VoteRequest}

theorem exact_toJson (r : VoteRequest) : Exact r.toJson := by
  apply exact_present
  simp [exact_ofNat, exact_text]

theorem reading_toJson (bounded : r.Bounded) :
    reading (depth + 1) (written r.toJson) = some r := by
  obtain ⟨term, commit, staged, lastTerm⟩ := bounded
  rw [toJson, reading, record_present]
  · simp [required, optional_some, natural_written, term, commit, staged, lastTerm,
      optional_text, -Option.map_map]
  · rfl
  · decide

end VoteRequest

namespace VoteReply

def Bounded (r : VoteReply) : Prop := r.term < Decimal.limit64

variable {r : VoteReply}

theorem exact_toJson (r : VoteReply) : Exact r.toJson := by
  simp [toJson, Exact, ExactFields, exact_ofNat]

theorem reading_toJson (bounded : r.Bounded) :
    reading (depth + 1) (written r.toJson) = some r := by
  rw [toJson, reading, record_object _ (by simp)]
  simp [Fields.get?, required, bool_written, natural_written bounded]

end VoteReply

/-! ## Heartbeats -/

namespace HeartbeatRequest

def Bounded (r : HeartbeatRequest) : Prop :=
  r.term < Decimal.limit64 ∧ r.commit < Decimal.limit64 ∧ r.prevIndex < Decimal.limit64 ∧
    r.prevTerm < Decimal.limit64 ∧ ∀ e ∈ r.entries, e.Bounded

variable {r : HeartbeatRequest}

theorem exact_toJson (r : HeartbeatRequest) : Exact r.toJson := by
  have items : ExactItems (r.entries.map Entry.toJson) := by
    refine exactItems_iff.mpr fun item listed => ?_
    obtain ⟨e, _, rfl⟩ := List.mem_map.mp listed
    exact e.exact_toJson
  simp [toJson, Exact, ExactFields, exact_ofNat, items]

theorem reading_toJson (bounded : r.Bounded) :
    reading (depth + 5) (written r.toJson) = some r := by
  obtain ⟨term, commit, prevIndex, prevTerm, entries⟩ := bounded
  have list : Reading.list Entry.reading (depth + 4)
      (written (.array (r.entries.map Entry.toJson))) = some r.entries :=
    list_written fun e mem => Entry.reading_toJson (entries e mem)
  rw [toJson, reading, record_object _ (by simp)]
  simp [Fields.get?, required, optional_some, natural_written, term, commit, prevIndex, prevTerm,
    string_written, list]

end HeartbeatRequest

namespace HeartbeatReply

def Bounded (r : HeartbeatReply) : Prop :=
  r.term < Decimal.limit64 ∧ r.commit < Decimal.limit64 ∧ r.matched < Decimal.limit64

variable {r : HeartbeatReply}

theorem exact_toJson (r : HeartbeatReply) : Exact r.toJson := by
  simp [toJson, Exact, ExactFields, exact_ofNat]

theorem reading_toJson (bounded : r.Bounded) :
    reading (depth + 1) (written r.toJson) = some r := by
  obtain ⟨term, commit, matched⟩ := bounded
  rw [toJson, reading, record_object _ (by simp)]
  simp [Fields.get?, required, optional_some, bool_written, natural_written, term, commit, matched]

end HeartbeatReply

/-! ## Bodies -/

/-- Messages of a kind are decoded from the bytes they are sent as, and no two of them are sent as
    the same bytes. -/
structure Faithful {α : Type} (read : Reading α) (toJson : α → Json) (sent : α → Prop) : Prop where
  decodes : ∀ a, sent a → decodeBody read (toJson a).bytes = .ok a
  distinct : ∀ a b, sent a → sent b → (toJson a).bytes = (toJson b).bytes → a = b

theorem Faithful.of_reads {α : Type} {read : Reading α} {toJson : α → Json} {sent : α → Prop}
    (exact_ : ∀ a, sent a → Exact (toJson a))
    (reads : ∀ a, sent a → read Written.maxDepth (written (toJson a)) = some a) :
    Faithful read toJson sent := by
  have decodes : ∀ a, sent a → decodeBody read (toJson a).bytes = .ok a := by
    intro a ok
    rw [decodeBody, decode?_bytes read (exact_ a ok), reads a ok]
  refine ⟨decodes, ?_⟩
  intro a b ok ok' same
  have decoded := decodes a ok
  rw [same, decodes b ok'] at decoded
  exact (Except.ok.inj decoded).symm

namespace ClientReply

/-- The replies that clients are given. -/
def Given (r : ClientReply) : Prop := (∃ p, r = success p) ∨ ∃ e, r = failure e

theorem Given.payload {r : ClientReply} (given : r.Given) :
    ∀ j, r.payload = some j → j ≠ .null ∧ Fits 126 j := by
  rcases given with ⟨p, rfl⟩ | ⟨e, rfl⟩
  · exact payload_success p
  · exact payload_failure e

end ClientReply

/-- What members send each other, and what they reply to clients, is decoded from its bytes as it
    was, as long as its numbers fit 64 bits. -/
theorem messages_are_faithful :
    Faithful VoteRequest.reading VoteRequest.toJson VoteRequest.Bounded ∧
    Faithful VoteReply.reading VoteReply.toJson VoteReply.Bounded ∧
    Faithful HeartbeatRequest.reading HeartbeatRequest.toJson HeartbeatRequest.Bounded ∧
    Faithful HeartbeatReply.reading HeartbeatReply.toJson HeartbeatReply.Bounded ∧
    Faithful ClientReply.reading ClientReply.toJson ClientReply.Given := by
  refine ⟨?_, ?_, ?_, ?_, ?_⟩
  · exact .of_reads (fun r _ => r.exact_toJson) fun _ => VoteRequest.reading_toJson
  · exact .of_reads (fun r _ => r.exact_toJson) fun _ => VoteReply.reading_toJson
  · exact .of_reads (fun r _ => r.exact_toJson) fun _ => HeartbeatRequest.reading_toJson
  · exact .of_reads (fun r _ => r.exact_toJson) fun _ => HeartbeatReply.reading_toJson
  · refine .of_reads (fun r given => ?_) fun _ given => ClientReply.reading_toJson given.payload
    exact ClientReply.exact_toJson fun j found => (given.payload j found).2.exact j

/-- A heartbeat with one entry of every kind. -/
def HeartbeatRequest.motley : HeartbeatRequest where
  term := 18446744073709551615
  commit := 0
  leader := "http://\u263a:1"
  prevIndex := 7
  prevTerm := 2
  entries := [⟨3, .barrier⟩, ⟨3, .write "u:k" (.live "\"\\\n\x01\u263a") 18446744073709551615⟩,
    ⟨4, .write "" .tombstone 0⟩]

theorem messages_are_faithful_for_a_heartbeat : HeartbeatRequest.motley.Bounded ∧
    decodeBody HeartbeatRequest.reading HeartbeatRequest.motley.toJson.bytes =
      .ok HeartbeatRequest.motley := by
  have bounded : HeartbeatRequest.motley.Bounded := by
    simp [HeartbeatRequest.motley, HeartbeatRequest.Bounded, Entry.Bounded, Command.Bounded,
      Decimal.limit64]
  exact ⟨bounded, messages_are_faithful.2.2.1.decodes _ bounded⟩

end QuorumStore
