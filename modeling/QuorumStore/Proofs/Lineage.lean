import QuorumStore.Node.Staging
import QuorumStore.Proofs.Lasting
import Mathlib.Data.List.Induction
/-! # The versions along a log

A live write of a key follows the latest write of that key before it: it is one version above a live
one and starts over at one otherwise, and a tombstone has the version of what it ends. A leader
checks a write against what its log comes to, committed or not, so every entry it adds is in line
with the whole log before it.
-/

namespace QuorumStore

namespace Log

def WritesAt (log : Log) (p : Nat) (key : String) (content : Content) (version : Nat) : Prop :=
  ∃ term, log[p]? = some ⟨term, .write key content version⟩

def Unwritten (log : Log) (key : String) : Prop :=
  ∀ p content version, ¬ log.WritesAt p key content version

/-- The latest write of a key in a log. -/
structure Latest (log : Log) (key : String) (p : Nat) (content : Content) (version : Nat) :
    Prop where
  writes : log.WritesAt p key content version
  last : ∀ q content version, p < q → ¬ log.WritesAt q key content version

/-- The version that a write of a key takes after a log. -/
inductive Takes (before : Log) (key : String) : Content → Nat → Prop where
  | creates (text : String) : before.Unwritten key → Takes before key (.live text) 1
  | revives (text : String) (p ended : Nat) : before.Latest key p .tombstone ended →
      Takes before key (.live text) 1
  | updates (text : String) (p : Nat) (old : String) (version : Nat) :
      before.Latest key p (.live old) version → Takes before key (.live text) (version + 1)
  | ends (p : Nat) (old : String) (version : Nat) : before.Latest key p (.live old) version →
      Takes before key .tombstone version
  | stays (p ended : Nat) : before.Latest key p .tombstone ended → Takes before key .tombstone 0
  | marks : before.Unwritten key → Takes before key .tombstone 0

/-- Every write of a log takes its version after all that stands before it. -/
def Lineage (log : Log) : Prop :=
  ∀ p key content version, log.WritesAt p key content version →
    Takes (log.take p) key content version

variable {log a b : Log} {key : String} {p q v w : Nat} {content : Content}

/-! ## Positions -/

theorem WritesAt.unique {content' : Content} (h : log.WritesAt p key content v)
    (h' : log.WritesAt p key content' w) : content = content' ∧ v = w := by
  obtain ⟨_, at_⟩ := h
  obtain ⟨_, at'⟩ := h'
  have same := Option.some.inj (at_.symm.trans at')
  simp only [Entry.mk.injEq, Command.write.injEq] at same
  exact same.2.2

theorem WritesAt.of_part (h : a.WritesAt p key content v) (part : a <+: b) :
    b.WritesAt p key content v := by
  obtain ⟨term, at_⟩ := h
  exact ⟨term, getElem?_of_part part at_⟩

theorem writesAt_take : WritesAt (log.take q) p key content v ↔
    p < q ∧ log.WritesAt p key content v := by
  constructor
  · rintro ⟨term, at_⟩
    obtain ⟨inside, _⟩ := List.getElem?_eq_some_iff.mp at_
    rw [List.length_take] at inside
    have lt : p < q := by omega
    exact ⟨lt, term, by rwa [List.getElem?_take_of_lt lt] at at_⟩
  · rintro ⟨lt, term, at_⟩
    exact ⟨term, by rwa [List.getElem?_take_of_lt lt]⟩

theorem writesAt_append {e : Entry} : WritesAt (log ++ [e]) p key content v ↔
    log.WritesAt p key content v ∨ p = log.length ∧ e.command = .write key content v := by
  constructor
  · rintro ⟨term, at_⟩
    rcases Nat.lt_or_ge p log.length with old | new
    · rw [List.getElem?_append_left old] at at_
      exact .inl ⟨term, at_⟩
    · obtain ⟨inside, _⟩ := List.getElem?_eq_some_iff.mp at_
      simp only [List.length_append, List.length_singleton] at inside
      obtain rfl : p = log.length := by omega
      rw [List.getElem?_concat_length] at at_
      exact .inr ⟨rfl, by rw [Option.some.inj at_]⟩
  · rintro (old | ⟨rfl, command⟩)
    · exact old.of_part (List.prefix_append ..)
    · exact ⟨e.term, by rw [List.getElem?_concat_length, ← command]⟩

/-! ## The last write -/

theorem lastWrite?_append (a b : Log) (key : String) :
    lastWrite? (a ++ b) key = (lastWrite? b key).or (lastWrite? a key) := by
  simp only [lastWrite?, List.reverse_append, List.findSome?_append]

theorem lastWrite?_concat (log : Log) (e : Entry) (key : String) :
    lastWrite? (log ++ [e]) key = (recordBy key e).or (lastWrite? log key) := by
  rw [lastWrite?_append]
  simp only [lastWrite?, List.reverse_singleton, List.findSome?_singleton]

theorem recordBy_eq_some {e : Entry} {r : Record} (h : recordBy key e = some r) :
    ∃ content v, e.command = .write key content v ∧ r = content.record v := by
  rw [recordBy] at h
  split at h
  · rename_i k content v command
    split at h
    · rename_i same
      subst same
      exact ⟨content, v, command, (Option.some.inj h).symm⟩
    · simp at h
  · simp at h

theorem recordBy_of_writes {e : Entry} (h : e.command = .write key content v) :
    recordBy key e = some (content.record v) := by
  simp only [recordBy, h, if_pos]

/-- The last write of a key is the record of its latest write, if there is any. -/
theorem lastWrite?_cases (log : Log) (key : String) :
    log.Unwritten key ∧ lastWrite? log key = none ∨
      ∃ p content v, log.Latest key p content v ∧ lastWrite? log key = some (content.record v) := by
  induction log using List.reverseRecOn with
  | nil => exact .inl ⟨by rintro p content v ⟨_, at_⟩; simp at at_, rfl⟩
  | append_singleton log e ih =>
      rw [lastWrite?_concat]
      cases by_ : recordBy key e with
      | some r =>
          obtain ⟨content, v, command, rfl⟩ := recordBy_eq_some by_
          refine .inr ⟨log.length, content, v, ⟨writesAt_append.mpr (.inr ⟨rfl, command⟩), ?_⟩, rfl⟩
          rintro q content' w after ⟨_, at_⟩
          obtain ⟨inside, _⟩ := List.getElem?_eq_some_iff.mp at_
          simp only [List.length_append, List.length_singleton] at inside
          omega
      | none =>
          -- the entry does not write the key, so nothing changes for it
          have same : ∀ {p content v}, WritesAt (log ++ [e]) p key content v ↔
              WritesAt log p key content v := by
            intro p content v
            rw [writesAt_append, or_iff_left]
            rintro ⟨_, command⟩
            rw [recordBy_of_writes command] at by_
            simp at by_
          rw [Option.none_or]
          rcases ih with ⟨unwritten, none⟩ | ⟨p, content, v, ⟨writes, last⟩, found⟩
          · exact .inl ⟨fun p content v h => unwritten p content v (same.mp h), none⟩
          · exact .inr ⟨p, content, v, ⟨same.mpr writes,
              fun q content' w after h => last q content' w after (same.mp h)⟩, found⟩

/-- Entries leave every key with the record of its last write among them, or else with what it
    had. -/
theorem get?_applyAll (s : Store) (entries : Log) (key : String) :
    (s.applyAll entries).get? key = (lastWrite? entries key).or (s.get? key) := by
  induction entries using List.reverseRecOn with
  | nil => rfl
  | append_singleton entries e ih =>
      have applied : s.applyAll (entries ++ [e]) = (s.applyAll entries).apply e.command := by
        rw [Store.applyAll_append]
        rfl
      rw [applied, lastWrite?_concat, recordBy]
      cases e.command with
      | barrier => rw [Store.apply, ih, Option.none_or]
      | write k content v =>
          rw [Store.apply, Store.get?_put]
          by_cases same : key = k
          · simp only [if_pos same, if_pos same.symm, Option.some_or]
          · simp only [if_neg same, if_neg (Ne.symm same), Option.none_or, ih]

/-- Replaying a log leaves every key with the record of its last write. -/
theorem get?_replay (log : Log) (key : String) : log.replay.get? key = lastWrite? log key := by
  rw [replay, get?_applyAll, Store.get?_empty, Option.or_none]

/-- Where a key has what the first entries make of it, the last write among the others makes of it
    what the whole log does. -/
theorem lastWrite?_drop_or {s : Store} {k : Nat}
    (stored : s.get? key = (replay (log.take k)).get? key) :
    (lastWrite? (log.drop k) key).or (s.get? key) = log.replay.get? key := by
  rw [stored, get?_replay, get?_replay, ← lastWrite?_append, List.take_append_drop]

/-! ## Lineages -/

theorem lineage_nil : Lineage [] := by
  rintro p key content v ⟨_, at_⟩
  simp at at_

theorem Lineage.of_part (h : Lineage b) (part : a <+: b) : Lineage a := by
  intro p key content v writes
  obtain ⟨_, at_⟩ := id writes
  obtain ⟨inside, _⟩ := List.getElem?_eq_some_iff.mp at_
  rw [← take_of_part part (Nat.le_of_lt inside)]
  exact h p key content v (writes.of_part part)

theorem Lineage.append (h : Lineage log) {e : Entry}
    (takes : ∀ key content v, e.command = .write key content v → log.Takes key content v) :
    Lineage (log ++ [e]) := by
  intro p key content v writes
  rcases writesAt_append.mp writes with old | ⟨rfl, command⟩
  · obtain ⟨_, at_⟩ := id old
    obtain ⟨inside, _⟩ := List.getElem?_eq_some_iff.mp at_
    rw [List.take_append_of_le_length (Nat.le_of_lt inside)]
    exact h p key content v old
  · rw [List.take_append_of_le_length (Nat.le_refl _), List.take_length]
    exact takes key content v command

/-- A write that is accepted against the last write of its key takes its version after the log. -/
theorem takes_of_resolve {write : Write} (h : write.resolve (lastWrite? log key) = .ok v) :
    log.Takes key (write.content v) v := by
  rcases lastWrite?_cases log key with ⟨unwritten, found⟩ | ⟨p, content, w, latest, found⟩
  · rw [found] at h
    cases write with
    | delete =>
        obtain rfl := Except.ok.inj h
        exact .marks unwritten
    | upsert expected document =>
        simp only [Write.resolve, Option.bind_none] at h
        split at h
        · obtain rfl := Except.ok.inj h
          exact .creates _ unwritten
        · simp at h
  · rw [found] at h
    cases content with
    | tombstone =>
        cases write with
        | delete =>
            obtain rfl := Except.ok.inj h
            exact .stays p w latest
        | upsert expected document =>
            simp only [Write.resolve, Content.record, Option.bind_some, Record.version?] at h
            split at h
            · obtain rfl := Except.ok.inj h
              exact .revives _ p w latest
            · simp at h
    | live old =>
        cases write with
        | delete =>
            obtain rfl := Except.ok.inj h
            exact .ends p old w latest
        | upsert expected document =>
            simp only [Write.resolve, Content.record, Option.bind_some, Record.version?] at h
            split at h
            · obtain rfl := Except.ok.inj h
              exact .updates _ p old w latest
            · simp at h

/-- Without a tombstone between them, the later of two live writes of a key has the higher
    version. -/
theorem Lineage.lt_of_live {text text' : String} (h : Lineage log)
    (first : log.WritesAt p key (.live text) v) (second : log.WritesAt q key (.live text') w)
    (before : p < q) (alive : ∀ m ended, p < m → m < q → ¬ log.WritesAt m key .tombstone ended) :
    v < w := by
  induction q using Nat.strongRecOn generalizing text' w with
  | _ q ih =>
      have inside := writesAt_take.mpr ⟨before, first⟩
      -- the latest write before the second one is not before the first one
      have since : ∀ {m content u}, Latest (log.take q) key m content u →
          m < q ∧ log.WritesAt m key content u ∧ p ≤ m := by
        intro m content u latest
        obtain ⟨lt, writes⟩ := writesAt_take.mp latest.writes
        exact ⟨lt, writes, Nat.le_of_not_lt fun lt => latest.last p _ _ lt inside⟩
      cases h q key (.live text') w second with
      | creates _ unwritten => exact absurd inside (unwritten p _ _)
      | revives _ m ended latest =>
          obtain ⟨lt, writes, le⟩ := since latest
          rcases Nat.lt_or_eq_of_le le with after | rfl
          · exact absurd writes (alive m ended after lt)
          · exact absurd (first.unique writes).1 (by simp)
      | updates _ m old u latest =>
          obtain ⟨lt, writes, le⟩ := since latest
          rcases Nat.lt_or_eq_of_le le with after | rfl
          · have := ih m lt writes after fun x ended from_ upTo =>
              alive x ended from_ (Nat.lt_trans upTo lt)
            omega
          · rw [(first.unique writes).2]
            exact Nat.lt_succ_self u

end Log

namespace Node

variable {me key : String} {n n' : Node}

theorem projected_eq_or (n : Node) (key : String) :
    n.projected key = (Log.lastWrite? n.staged key).or (n.store.get? key) := by
  rw [projected]
  cases Log.lastWrite? n.staged key <;> rfl

theorem Sound.projected_eq (h : Sound me n) (key : String) :
    n.projected key = Log.lastWrite? n.log key := by
  rw [projected_eq_or, staged, Log.lastWrite?_drop_or (by rw [h.replayed]), Log.get?_replay]

/-- What a write that is staged adds to the log, and the record that its client is promised. -/
theorem stageWrite_log {write : Write} {staged : Record × Nat}
    (ok : n.stageWrite key write = .ok (staged, n')) : ∃ version,
      write.resolve (n.projected key) = .ok version ∧
      staged.1 = (write.content version).record version ∧
      n'.log = n.log ++ [⟨n.term, .write key (write.content version) version⟩] := by
  simp only [stageWrite] at ok
  split at ok
  · simp at ok
  · split at ok
    · simp at ok
    · rename_i version resolved
      simp only [Except.ok.injEq, Prod.mk.injEq] at ok
      obtain ⟨rfl, rfl⟩ := ok
      exact ⟨version, resolved, rfl, advanceCommit_log _⟩

end Node

end QuorumStore
