import QuorumStore.Log
/-! # Logs beside each other

What one log has to do with another: when equal terms mean equal pasts, which of two logs has come
further, and what becomes of a log when entries are laid over it. Positions count from zero here, as
they do in the lists themselves.
-/

namespace QuorumStore.Log

/-- Where two logs have entries of one term, they are the same up to there. -/
def Matches (a b : Log) : Prop :=
  ∀ (i : Nat) (x y : Entry), a[i]? = some x → b[i]? = some y → x.term = y.term →
    a.take (i + 1) = b.take (i + 1)

theorem getElem?_of_part {a b : Log} (h : a <+: b) {i : Nat} {e : Entry}
    (he : a[i]? = some e) : b[i]? = some e := by
  obtain ⟨rest, rfl⟩ := h
  obtain ⟨inside, _⟩ := List.getElem?_eq_some_iff.mp he
  rwa [List.getElem?_append_left inside]

theorem take_of_part {a b : Log} (h : a <+: b) {i : Nat} (inside : i ≤ a.length) :
    b.take i = a.take i := by
  obtain ⟨rest, rfl⟩ := h
  exact List.take_append_of_le_length inside

theorem matches_of_part {a b : Log} (h : a <+: b) : Matches a b := by
  intro i x y hx _ _
  obtain ⟨inside, _⟩ := List.getElem?_eq_some_iff.mp hx
  exact (take_of_part h inside).symm

theorem Matches.of_part {a b c : Log} (h : Matches a c) (hb : b <+: c) : Matches a b := by
  intro i x y hx hy same
  obtain ⟨inside, _⟩ := List.getElem?_eq_some_iff.mp hy
  rw [h i x y hx (getElem?_of_part hb hy) same, take_of_part hb inside]

theorem Matches.entry_eq {a b : Log} (h : Matches a b) {i : Nat} {x y : Entry}
    (hx : a[i]? = some x) (hy : b[i]? = some y) (same : x.term = y.term) : x = y := by
  have upTo := congrArg (·[i]?) (h i x y hx hy same)
  simp only [List.getElem?_take_of_lt (Nat.lt_succ_self i), hx, hy] at upTo
  exact Option.some.inj upTo

/-- One of two logs is a prefix of the other. -/
def Comparable (a b : Log) : Prop := a <+: b ∨ b <+: a

theorem Comparable.of_prefixes {a b c d : Log} (h : Comparable c d) (ha : a <+: c)
    (hb : b <+: d) : Comparable a b := by
  cases h with
  | inl h => exact List.prefix_or_prefix_of_prefix (ha.trans h) hb
  | inr h => exact List.prefix_or_prefix_of_prefix ha (hb.trans h)

/-- Terms never fall along the log. -/
def Rising (log : Log) : Prop := log.Pairwise (·.term ≤ ·.term)

theorem Rising.of_part {a b : Log} (h : Rising b) (hp : a <+: b) : Rising a :=
  List.Pairwise.sublist hp.sublist h

theorem Rising.le_of_lt {log : Log} (h : Rising log) {p q : Nat} {x y : Entry} (before : p < q)
    (hx : log[p]? = some x) (hy : log[q]? = some y) : x.term ≤ y.term := by
  obtain ⟨insideX, rfl⟩ := List.getElem?_eq_some_iff.mp hx
  obtain ⟨insideY, rfl⟩ := List.getElem?_eq_some_iff.mp hy
  exact List.pairwise_iff_getElem.mp h p q insideX insideY before

theorem lastTerm_append (log : Log) (e : Entry) : lastTerm (log ++ [e]) = e.term := by
  simp [lastTerm]

theorem exists_mem_lastTerm {log : Log} (nonempty : log ≠ []) : ∃ e ∈ log, e.term = lastTerm log := by
  refine ⟨log.getLast nonempty, List.getLast_mem nonempty, ?_⟩
  simp only [lastTerm, List.getLast?_eq_some_getLast nonempty, Option.map_some, Option.getD_some]

theorem Rising.le_lastTerm {log : Log} (h : Rising log) {e : Entry} (he : e ∈ log) :
    e.term ≤ lastTerm log := by
  have nonempty : log ≠ [] := List.ne_nil_of_mem he
  rw [← List.dropLast_concat_getLast nonempty] at h he ⊢
  rw [lastTerm_append]
  cases List.mem_append.mp he with
  | inl he => exact (List.pairwise_append.mp h).2.2 e he _ (List.mem_singleton_self _)
  | inr he => exact Nat.le_of_eq (congrArg Entry.term (List.mem_singleton.mp he))

theorem Rising.append {log : Log} (h : Rising log) {e : Entry} (le : ∀ x ∈ log, x.term ≤ e.term) :
    Rising (log ++ [e]) := by
  refine List.pairwise_append.mpr ⟨h, List.pairwise_singleton _ _, ?_⟩
  intro x hx y hy
  rw [List.mem_singleton.mp hy]
  exact le x hx

theorem termAt_succ (log : Log) (i : Nat) : termAt log (i + 1) = ((log[i]?).map Entry.term).getD 0 := by
  simp [termAt]

/-- No entry has a term beyond what bounds them all. -/
theorem termAt_le {log : Log} {term : Nat} (all : ∀ e ∈ log, e.term ≤ term) (i : Nat) :
    termAt log i ≤ term := by
  cases i with
  | zero => exact Nat.zero_le _
  | succ i =>
      rw [termAt_succ]
      cases at_ : log[i]? with
      | none => exact Nat.zero_le _
      | some e => exact all e (List.mem_of_getElem? at_)

theorem Rising.termAt_le_termAt {log : Log} (h : Rising log) {i j : Nat} (le : i ≤ j)
    (inside : j ≤ log.length) : termAt log i ≤ termAt log j := by
  cases i with
  | zero => exact Nat.zero_le _
  | succ i =>
      obtain ⟨j, rfl⟩ : ∃ k, j = k + 1 := ⟨j - 1, by omega⟩
      have first : log[i]? = some log[i] := List.getElem?_eq_getElem (by omega)
      have last : log[j]? = some log[j] := List.getElem?_eq_getElem inside
      rw [termAt_succ, termAt_succ, first, last]
      rcases Nat.eq_or_lt_of_le le with same | before
      · obtain rfl := Nat.succ.inj same
        exact Nat.le_refl _
      · exact h.le_of_lt (Nat.lt_of_succ_lt_succ before) first last

/-- The term at a position is the last term up to there. -/
theorem lastTerm_take {log : Log} {i : Nat} (inside : i ≤ log.length) :
    lastTerm (log.take i) = termAt log i := by
  cases i with
  | zero => simp [termAt, lastTerm]
  | succ i =>
      have at_ : log[i]? = some log[i] := List.getElem?_eq_getElem inside
      rw [termAt_succ, List.take_succ_eq_append_getElem inside, lastTerm_append, at_]
      rfl

/-- Where matching logs have entries of one term at a position, they are the same up to there. -/
theorem Matches.take_eq {a b : Log} (h : Matches a b) {i : Nat} (insideA : i ≤ a.length)
    (insideB : i ≤ b.length) (same : i = 0 ∨ termAt a i = termAt b i) : a.take i = b.take i := by
  cases i with
  | zero => rfl
  | succ i =>
      have hx : a[i]? = some a[i] := List.getElem?_eq_getElem insideA
      have hy : b[i]? = some b[i] := List.getElem?_eq_getElem insideB
      have terms := same.resolve_left (Nat.succ_ne_zero i)
      rw [termAt_succ, termAt_succ, hx, hy] at terms
      exact h i _ _ hx hy terms

/-- A log is behind another if its last term is lower, or the same and it is not longer. -/
def Behind (a b : Log) : Prop :=
  lastTerm a < lastTerm b ∨ lastTerm a = lastTerm b ∧ a.length ≤ b.length

/-- What a voter holds, a candidate that is not behind it holds too, provided that it is comparable
    as soon as the terms allow it. -/
theorem prefix_of_behind {held voter candidate : Log} (nonempty : held ≠ [])
    (risingVoter : Rising voter) (holds : held <+: voter) (behind : Behind voter candidate)
    (comparable : candidate ≠ [] → lastTerm held ≤ lastTerm candidate →
      Comparable held candidate) : held <+: candidate := by
  have risingHeld := risingVoter.of_part holds
  obtain ⟨e, he, last⟩ := exists_mem_lastTerm nonempty
  have voterTerm : lastTerm held ≤ lastTerm voter :=
    last ▸ risingVoter.le_lastTerm (holds.subset he)
  have shorter : held.length ≤ voter.length := holds.length_le
  have filled : 0 < held.length := List.length_pos_iff.mpr nonempty
  have candidateTerm : lastTerm held ≤ lastTerm candidate := by
    rcases behind with lt | ⟨same, _⟩ <;> omega
  have someCandidate : candidate ≠ [] := by
    rintro rfl
    rcases behind with lt | ⟨_, len⟩
    · simp [lastTerm] at lt
    · simp only [List.length_nil] at len; omega
  cases comparable someCandidate candidateTerm with
  | inl h => exact h
  | inr h =>
      obtain ⟨f, hf, lastCandidate⟩ := exists_mem_lastTerm someCandidate
      have le := risingHeld.le_lastTerm (h.subset hf)
      have len : held.length ≤ candidate.length := by
        rcases behind with lt | ⟨_, len⟩ <;> omega
      exact (h.eq_of_length_le len) ▸ List.prefix_refl _

/-- Entries that belong after a position have the terms that stand there, as far as some number of
    them goes. -/
def Agrees (prev : Nat) (entries log : Log) (count : Nat) : Prop :=
  ∀ j < count, (log[prev + j]?).map Entry.term = (entries[j]?).map Entry.term

/-- What entries that belong after a position make of a log: nothing if they all agree with it;
    otherwise the first that does not replaces everything from there on. -/
inductive Overlay (prev : Nat) (entries log : Log) : Log → Prop where
  | kept : Agrees prev entries log entries.length → Overlay prev entries log log
  | replaced (count : Nat) : count < entries.length → Agrees prev entries log count →
      (log[prev + count]?).map Entry.term ≠ (entries[count]?).map Entry.term →
      Overlay prev entries log (log.take (prev + count) ++ entries.drop count)

theorem Agrees.cons {prev count : Nat} {e : Entry} {rest log : Log}
    (first : (log[prev]?).map Entry.term = some e.term)
    (h : Agrees (prev + 1) rest log count) : Agrees prev (e :: rest) log (count + 1) := by
  intro j hj
  cases j with
  | zero => simpa using first
  | succ j => simpa [Nat.add_assoc, Nat.add_comm 1] using h j (by omega)

theorem Agrees.tail {prev count : Nat} {e : Entry} {rest log : Log}
    (h : Agrees prev (e :: rest) log (count + 1)) : Agrees (prev + 1) rest log count := by
  intro j hj
  have same : prev + 1 + j = prev + (j + 1) := by omega
  rw [same]
  exact h (j + 1) (Nat.succ_lt_succ hj)

theorem Overlay.cons {prev : Nat} {e : Entry} {rest log log' : Log}
    (first : (log[prev]?).map Entry.term = some e.term)
    (h : Overlay (prev + 1) rest log log') : Overlay prev (e :: rest) log log' := by
  cases h with
  | kept agrees => exact .kept (agrees.cons first)
  | replaced count lt agrees differs =>
      have same : prev + 1 + count = prev + (count + 1) := by omega
      rw [same] at differs ⊢
      exact .replaced (count + 1) (Nat.succ_lt_succ lt) (agrees.cons first) differs

theorem Overlay.all {prev : Nat} {e : Entry} {rest log : Log}
    (differs : (log[prev]?).map Entry.term ≠ some e.term) :
    Overlay prev (e :: rest) log (log.take prev ++ e :: rest) :=
  .replaced 0 (Nat.succ_pos _) (fun _ hj => absurd hj (Nat.not_lt_zero _)) differs

/-- Entries that agree with a log stand inside it. -/
theorem Agrees.inside {prev count : Nat} {entries log : Log} (h : Agrees prev entries log count)
    (le : count ≤ entries.length) (start : prev ≤ log.length) : prev + count ≤ log.length := by
  cases count with
  | zero => exact start
  | succ j =>
      have last := h j (Nat.lt_succ_self j)
      rw [List.getElem?_eq_getElem le, Option.map_some] at last
      obtain ⟨x, at_, _⟩ := Option.map_eq_some_iff.mp last
      obtain ⟨inside, _⟩ := List.getElem?_eq_some_iff.mp at_
      exact inside

/-- Before the entries the log stays as it is. -/
theorem Overlay.take_eq {prev : Nat} {entries log log' : Log} (h : Overlay prev entries log log')
    (start : prev ≤ log.length) : log'.take prev = log.take prev := by
  cases h with
  | kept _ => rfl
  | replaced count lt agrees _ =>
      have inside := agrees.inside (Nat.le_of_lt lt) start
      have enough : prev ≤ (log.take (prev + count)).length := by
        rw [List.length_take_of_le inside]
        omega
      rw [List.take_append_of_le_length enough, List.take_take, Nat.min_eq_left (by omega)]

/-- Once entries are laid over a log, they agree with it. -/
theorem Overlay.agrees {prev : Nat} {entries log log' : Log} (h : Overlay prev entries log log')
    (start : prev ≤ log.length) : Agrees prev entries log' entries.length := by
  cases h with
  | kept agrees => exact agrees
  | replaced count lt agrees _ =>
      have length : (log.take (prev + count)).length = prev + count :=
        List.length_take_of_le (agrees.inside (Nat.le_of_lt lt) start)
      intro j hj
      cases Nat.lt_or_ge j count with
      | inl before =>
          rw [List.getElem?_append_left (by omega), List.getElem?_take_of_lt (by omega)]
          exact agrees j before
      | inr after =>
          rw [List.getElem?_append_right (by omega), List.getElem?_drop, length]
          have same : count + (prev + j - (prev + count)) = j := by omega
          rw [same]

theorem Overlay.covered {prev : Nat} {entries log log' : Log} (h : Overlay prev entries log log')
    (start : prev ≤ log.length) : prev + entries.length ≤ log'.length := by
  have kept := congrArg List.length (h.take_eq start)
  rw [List.length_take, List.length_take_of_le start] at kept
  exact (h.agrees start).inside (Nat.le_refl _) (by omega)

/-- Another entry stands in the place of one of the entries that belong after a position. -/
def ClashesAt (prev : Nat) (entries log : Log) (j : Nat) : Prop :=
  ∃ x y : Entry, log[prev + j]? = some x ∧ entries[j]? = some y ∧ x.term ≠ y.term

/-- The first place where another entry stands. -/
def FirstClash (prev : Nat) (entries log : Log) (j : Nat) : Prop :=
  ClashesAt prev entries log j ∧ ∀ i < j, ¬ ClashesAt prev entries log i

theorem clashesAt_succ {prev : Nat} {e : Entry} {rest log : Log} {j : Nat} :
    ClashesAt prev (e :: rest) log (j + 1) ↔ ClashesAt (prev + 1) rest log j := by
  simp only [ClashesAt, List.getElem?_cons_succ, Nat.add_assoc, Nat.add_comm 1]

/-- Wherever there is a clash, there is a first one, and it does not come later. -/
theorem ClashesAt.exists_first {prev : Nat} {entries log : Log} {j : Nat}
    (h : ClashesAt prev entries log j) : ∃ i ≤ j, FirstClash prev entries log i := by
  induction j using Nat.strongRecOn with
  | ind j ih =>
      by_cases earlier : ∃ i < j, ClashesAt prev entries log i
      · obtain ⟨i, before, clash⟩ := earlier
        obtain ⟨first, le, found⟩ := ih i before clash
        exact ⟨first, Nat.le_trans le (Nat.le_of_lt before), found⟩
      · exact ⟨j, Nat.le_refl j, h, fun i before clash => earlier ⟨i, before, clash⟩⟩

/-- As far as the terms of a part of a matching log agree with a log, so do the logs. -/
theorem Agrees.take_eq {prev count : Nat} {log source : Log}
    (agrees : Agrees prev (source.drop prev) log count) (le : count ≤ (source.drop prev).length)
    (same : source.take prev = log.take prev) (matching : Matches log source) :
    log.take (prev + count) = source.take (prev + count) := by
  cases count with
  | zero => exact same.symm
  | succ j =>
      have last := agrees j (Nat.lt_succ_self j)
      obtain ⟨y, hy⟩ : ∃ y, (source.drop prev)[j]? = some y := ⟨_, List.getElem?_eq_getElem le⟩
      rw [hy] at last
      obtain ⟨x, hx, terms⟩ := Option.map_eq_some_iff.mp last
      rw [List.getElem?_drop] at hy
      exact matching (prev + j) x y hx hy terms

/-- Laying a part of a matching log over a log leaves it as it is, or makes it that part. -/
theorem Overlay.eq_or_eq {prev : Nat} {entries log log' source : Log}
    (h : Overlay prev entries log log') (same : source.take prev = log.take prev)
    (rest : source.drop prev = entries) (matching : Matches log source) :
    log' = log ∧ source <+: log ∨ log' = source ∧ ¬ source <+: log := by
  subst rest
  have length : (source.drop prev).length = source.length - prev := List.length_drop
  cases h with
  | kept agrees =>
      refine .inl ⟨rfl, ?_⟩
      have prefixes := agrees.take_eq (Nat.le_refl _) same matching
      have whole : source.length ≤ prev + (source.drop prev).length := by omega
      rw [List.take_of_length_le whole] at prefixes
      exact prefixes ▸ List.take_prefix _ _
  | replaced count lt agrees differs =>
      refine .inr ⟨?_, ?_⟩
      · rw [agrees.take_eq (Nat.le_of_lt lt) same matching, List.drop_drop,
          List.take_append_drop]
      · intro isPrefix
        apply differs
        have inside : prev + count < source.length := by omega
        have at_ : source[prev + count]? = some source[prev + count] :=
          List.getElem?_eq_getElem inside
        rw [List.getElem?_drop, at_, getElem?_of_part isPrefix at_]

/-- What is held stays when a comparable log is laid over it. -/
theorem prefix_of_overlaid {held log log' source : Log}
    (h : log' = log ∧ source <+: log ∨ log' = source ∧ ¬ source <+: log) (holds : held <+: log)
    (comparable : Comparable held source) : held <+: log' := by
  rcases h with ⟨rfl, _⟩ | ⟨rfl, notPrefix⟩
  · exact holds
  · cases comparable with
    | inl before => exact before
    | inr after => exact absurd (after.trans holds) notPrefix

end QuorumStore.Log
