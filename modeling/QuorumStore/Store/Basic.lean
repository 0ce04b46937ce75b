import QuorumStore.Store.Record
/-! # The store

A store holds committed records only. Every node has its own and changes it by applying the
committed part of the log, in order.
-/

namespace QuorumStore

/-- The records by key; a key stands once. -/
structure Store where
  records : List (String × Record)
  deriving Repr, DecidableEq

namespace Store

def empty : Store := ⟨[]⟩

def get? (s : Store) (key : String) : Option Record := s.records.lookup key

def put (s : Store) (key : String) (r : Record) : Store :=
  ⟨(key, r) :: s.records.filter (·.1 != key)⟩

@[simp] theorem get?_empty (key : String) : empty.get? key = none := rfl

theorem lookup_filter_ne (records : List (String × Record)) {key other : String}
    (h : other ≠ key) :
    (records.filter (·.1 != key)).lookup other = records.lookup other := by
  induction records with
  | nil => rfl
  | cons pair rest ih =>
    obtain ⟨k, r⟩ := pair
    by_cases hk : k = key
    · subst hk
      simp [List.lookup_cons, ih, beq_eq_false_iff_ne.mpr h]
    · simp [bne_iff_ne.mpr hk, List.lookup_cons, ih]

/-- After a record is put, its key has it and every other key has what it had. -/
theorem get?_put (s : Store) (key other : String) (r : Record) :
    (s.put key r).get? other = if other = key then some r else s.get? other := by
  by_cases h : other = key
  · subst h; simp [get?, put]
  · simp [get?, put, List.lookup_cons, h, beq_eq_false_iff_ne.mpr h, lookup_filter_ne _ h]

end Store

end QuorumStore
