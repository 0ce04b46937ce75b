import QuorumStore.Proofs.DocumentText
import QuorumStore.Proofs.Versions
/-! # Values that carry their versions

Every live value in a cluster was rendered by a leader at the version of its write, and is only
passed on after that. So a client that reads a value has in it the version on which an update must
be based, and can send the text back as it is.
-/

namespace QuorumStore

/-- A text that carries its version: it is an object with the version and without a token, and sent
    as a value it is a document based on that version, which is stored as the same text again. -/
structure CarriesVersion (text : String) (version : Nat) : Prop where
  live : text ≠ tombstoneText
  object : ∃ fields : Json.Fields, Json.ofString text = some (.object fields) ∧
    fields.get? versionField = some (.string (Decimal.text version)) ∧
    fields.get? tokenField = none
  /-- Versions are numbers of 64 bits. -/
  returns : version < Decimal.limit64 → ∃ document : Document,
    Submission.ofValue (.string text) = .ok ⟨.upsert version document, none⟩ ∧
      document.render version = text

theorem Document.Storable.carriesVersion {d : Document} (h : d.Storable) (version : Nat) :
    CarriesVersion (d.render version) version where
  live := d.render_ne_tombstoneText version
  object := ⟨d.stored version, h.ofString_render version, get?_version version,
    h.get?_token version⟩
  returns small := ⟨d, h.ofValue_render small, rfl⟩

namespace Log

variable {log a b : Log} {key : String} {r : Record}

/-- Every live value in some entries carries the version of its write. -/
def CarryVersions (entries : Log) : Prop :=
  ∀ e ∈ entries, ∀ key text version, e.command = .write key (.live text) version →
    CarriesVersion text version

theorem CarryVersions.of_subset (h : CarryVersions b) (part : a ⊆ b) : CarryVersions a :=
  fun e mem => h e (part mem)

theorem CarryVersions.append (ha : CarryVersions a) (hb : CarryVersions b) :
    CarryVersions (a ++ b) := by
  intro e mem
  cases List.mem_append.mp mem with
  | inl left => exact ha e left
  | inr right => exact hb e right

theorem CarryVersions.of_replay (h : CarryVersions log) {text : String} {version : Nat}
    (holds : log.replay.get? key = some (.live text version)) : CarriesVersion text version := by
  rw [get?_replay] at holds
  rcases lastWrite?_cases log key with ⟨_, none⟩ | ⟨p, content, v, latest, found⟩
  · rw [none] at holds
    simp at holds
  · rw [found] at holds
    cases content with
    | tombstone => simp [Content.record] at holds
    | live value =>
        obtain ⟨rfl, rfl⟩ := Record.live.inj (Option.some.inj holds)
        obtain ⟨term, at_⟩ := latest.writes
        exact h _ (List.mem_of_getElem? at_) key value v rfl

end Log

namespace Run

variable {n : Nat} {R : Run n} {k : Nat} {i : Fin n}

variable (R) in
/-- All writes of clients have been submitted as values without doubles. -/
def WritesSubmitted : Prop :=
  ∀ k i key write, R.acts k = .write i key write → write.Submitted

theorem carryVersions_added (submitted : R.WritesSubmitted) {e : Entry}
    (role : (R.node (k + 1) i).role = .leader)
    (longer : (R.node (k + 1) i).log = (R.node k i).log ++ [e]) : Log.CarryVersions [e] := by
  intro e' mem key text version command
  obtain rfl := List.mem_singleton.mp mem
  obtain ⟨write, did, content, _⟩ := write_of_added role longer key (.live text) version command
  have given := submitted k i key write did
  cases write with
  | delete => simp [Write.content] at content
  | upsert expected document =>
      obtain rfl := Content.live.inj content
      exact given.storable.carriesVersion version

theorem carryVersions (submitted : R.WritesSubmitted) (k : Nat) (i : Fin n) :
    (R.node k i).log.CarryVersions := by
  refine log_induct (by simp [Log.CarryVersions]) (fun a b h part => h.of_subset part.subset) ?_ k i
  intro k i e leads longer old
  exact old.append (carryVersions_added submitted leads.1 longer)

theorem carryVersions_sent (submitted : R.WritesSubmitted) {x : Round n}
    (hx : x ∈ (R.state k).rounds) {r : HeartbeatRequest} (hr : r ∈ x.sent) :
    Log.CarryVersions r.entries := by
  obtain ⟨l, _, _, tells⟩ := R.sent k x hx r hr
  have told : r.entries ⊆ (R.node l x.caller).log.take r.lastIndex := by
    rw [tells.entries]
    exact List.subset_append_right _ _
  exact (carryVersions submitted l x.caller).of_subset fun e mem =>
    List.take_subset _ _ (told mem)

theorem carriesVersion_store (submitted : R.WritesSubmitted) {key text : String} {version : Nat}
    (holds : (R.node k i).store.get? key = some (.live text version)) :
    CarriesVersion text version := by
  rw [(R.sound k i).replayed] at holds
  exact ((carryVersions submitted k i).of_subset (List.take_subset _ _)).of_replay holds

/-- If all that clients write has been submitted without doubles, then every live value in a log, a
    store or a heartbeat under way carries its version, and what clients read is the tombstone text
    exactly for what is deleted. -/
theorem stored_values_carry_their_versions (R : Run n) (submitted : R.WritesSubmitted) :
    (∀ k i, (R.node k i).log.CarryVersions) ∧
    (∀ k, ∀ round ∈ (R.state k).rounds, ∀ r ∈ round.sent, Log.CarryVersions r.entries) ∧
    (∀ k i key text version, (R.node k i).store.get? key = some (.live text version) →
      CarriesVersion text version) ∧
    ∀ k i key record, (R.node k i).store.get? key = some record →
      (record.text = tombstoneText ↔ record = .tombstone) := by
  refine ⟨carryVersions submitted, fun k round mem r => carryVersions_sent submitted mem,
    fun k i key text version => carriesVersion_store submitted, fun k i key record holds => ?_⟩
  cases record with
  | tombstone => simp [Record.text]
  | live text version =>
      have carries := carriesVersion_store submitted holds
      simp only [Record.text, reduceCtorEq, iff_false]
      exact carries.live

/-- A value as a client may send it: a nested object, the token of the client, and the version that
    the write is based on. -/
def given : Json := .object [
  ("profile", .object [("name", .string "ann"), ("tags", .array [.string "x", .null])]),
  (tokenField, .string "secret"),
  (versionField, .string "0")]

/-- What is left of it to be stored. -/
def profile : Document where
  fields := [("profile", .object [("name", .string "ann"), ("tags", .array [.string "x", .null])])]

theorem submitted_profile : (Write.upsert 0 profile).Submitted := by
  have fits : Json.Fits Written.maxDepth given := by
    have inner : "name" < "tags" := by decide
    have outer : "profile" < tokenField ∧ "profile" < versionField ∧ tokenField < versionField := by
      decide
    simp only [given, Written.maxDepth, Json.Fits, Json.FitsFields, Json.FitsItems,
      List.pairwise_cons, List.forall_mem_cons, List.not_mem_nil, false_imp_iff, implies_true,
      List.Pairwise.nil, and_true, inner, outer]
  have legible : Json.Legible Written.maxDepth given :=
    ⟨Written.maxDepth, Nat.le_refl _, Json.written given, Json.json?_written given fits⟩
  refine ⟨?_, given, some "secret", legible, rfl⟩
  simp [Write.Exact, profile, Json.ExactFields, Json.Exact, Json.ExactItems]

/-- The succession, but with the profile in every write. -/
def published : Run 3 where
  roster := succession.roster
  acts k :=
    match succession.acts k with
    | .write i key _ => .write i key (.upsert 0 profile)
    | act => act

/-- What goes out to the other members is the profile at the version one, without the token. -/
theorem stored_values_carry_their_versions_when_published :
    Submission.ofValue given = .ok ⟨.upsert 0 profile, some "secret"⟩ ∧
    ∃ round ∈ (published.state 5).rounds, ∃ r ∈ round.sent,
      (⟨1, .write "k" (.live (profile.render 1)) 1⟩ : Entry) ∈ r.entries ∧
      CarriesVersion (profile.render 1) 1 := by
  have submitted : published.WritesSubmitted := by
    intro k i key write did
    simp only [published] at did
    split at did
    · obtain ⟨_, _, rfl⟩ := Act.write.inj did
      exact submitted_profile
    · rename_i other
      exact absurd did (other i key write)
  have made : ((published.state 5).rounds[0]?).bind (·.sent[0]?) = some
      ⟨1, 0, "a", 0, 0, [⟨1, .barrier⟩, ⟨1, .write "k" (.live (profile.render 1)) 1⟩]⟩ := by
    decide +kernel
  obtain ⟨round, opened, sent⟩ := Option.bind_eq_some_iff.mp made
  have hround := List.mem_of_getElem? opened
  have hr := List.mem_of_getElem? sent
  refine ⟨rfl, round, hround, _, hr, by simp, ?_⟩
  exact (stored_values_carry_their_versions published submitted).2.1 5 round hround _ hr
    ⟨1, .write "k" (.live (profile.render 1)) 1⟩ (by simp) "k" _ 1 rfl

end Run

end QuorumStore
