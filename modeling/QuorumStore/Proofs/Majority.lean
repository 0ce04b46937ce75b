import QuorumStore.Quorum
import Mathlib.Data.Fintype.Card
/-! # Majorities as sets

Two majorities of one cluster meet. The number found by `reachedByQuorum` is one that a majority
has reached, which is all that committing relies on.
-/

namespace QuorumStore

/-- Two majorities of the same members share one. -/
theorem exists_mem_of_majorities {α : Type} [DecidableEq α] {U A B : Finset α} (inA : A ⊆ U)
    (inB : B ⊆ U) (ha : quorum U.card ≤ A.card) (hb : quorum U.card ≤ B.card) :
    ∃ v, v ∈ A ∧ v ∈ B := by
  have many : U.card < A.card + B.card := by
    unfold quorum at ha hb
    omega
  obtain ⟨v, shared⟩ := Finset.inter_nonempty_of_card_lt_card_add_card inA inB many
  exact ⟨v, Finset.mem_inter.mp shared⟩

theorem exists_mem_of_quorums {n : Nat} {A B : Finset (Fin n)} (ha : quorum n ≤ A.card)
    (hb : quorum n ≤ B.card) : ∃ v, v ∈ A ∧ v ∈ B := by
  apply exists_mem_of_majorities A.subset_univ B.subset_univ
  · rwa [Finset.card_univ, Fintype.card_fin]
  · rwa [Finset.card_univ, Fintype.card_fin]

theorem insertFalling_perm (m : Nat) (ns : List Nat) : (insertFalling m ns).Perm (m :: ns) := by
  induction ns with
  | nil => exact .refl _
  | cons k rest ih =>
      simp only [insertFalling]
      split
      · exact .refl _
      · exact (ih.cons k).trans (.swap m k rest)

theorem insertFalling_falls {m : Nat} {ns : List Nat} (falls : ns.Pairwise (· ≥ ·)) :
    (insertFalling m ns).Pairwise (· ≥ ·) := by
  induction ns with
  | nil => simp [insertFalling]
  | cons k rest ih =>
      obtain ⟨above, tail⟩ := List.pairwise_cons.mp falls
      simp only [insertFalling]
      split
      · rename_i le
        refine List.pairwise_cons.mpr ⟨?_, falls⟩
        intro j hj
        rcases List.mem_cons.mp hj with rfl | hj
        · exact le
        · exact Nat.le_trans (above j hj) le
      · refine List.pairwise_cons.mpr ⟨?_, ih tail⟩
        intro j hj
        rcases List.mem_cons.mp ((insertFalling_perm m rest).mem_iff.mp hj) with rfl | hj
        · omega
        · exact above j hj

theorem sortFalling_perm (ns : List Nat) : (sortFalling ns).Perm ns := by
  induction ns with
  | nil => exact .refl _
  | cons m rest ih => exact (insertFalling_perm m (sortFalling rest)).trans (ih.cons m)

theorem sortFalling_falls (ns : List Nat) : (sortFalling ns).Pairwise (· ≥ ·) := by
  induction ns with
  | nil => exact .nil
  | cons m rest ih => exact insertFalling_falls ih

/-- In a list that falls, everything up to a position is at least what stands there. -/
theorem countP_ge_of_falls {ns : List Nat} (falls : ns.Pairwise (· ≥ ·)) {p : Nat}
    (inside : p < ns.length) : p + 1 ≤ ns.countP (ns[p] ≤ ·) := by
  have all : (ns.take (p + 1)).countP (ns[p] ≤ ·) = (ns.take (p + 1)).length := by
    rw [List.countP_eq_length]
    intro m hm
    obtain ⟨q, hq, rfl⟩ := List.mem_take_iff_getElem.mp hm
    have le : q ≤ p := by omega
    rcases Nat.lt_or_eq_of_le le with lt | rfl
    · exact decide_eq_true (List.pairwise_iff_getElem.mp falls q p _ _ lt)
    · simp
  calc
    p + 1 = (ns.take (p + 1)).length := by simp only [List.length_take]; omega
    _ = (ns.take (p + 1)).countP (ns[p] ≤ ·) := all.symm
    _ ≤ ns.countP (ns[p] ≤ ·) := (List.take_sublist _ _).countP_le

/-- In a list that falls, whatever more numbers come up to than stand before a position, the number
    at the position comes up to as well. -/
theorem le_getElem_of_falls {ns : List Nat} (falls : ns.Pairwise (· ≥ ·)) {p m : Nat}
    (inside : p < ns.length) (many : p < ns.countP (m ≤ ·)) : m ≤ ns[p] := by
  by_contra short
  have after : (ns.drop p).countP (m ≤ ·) = 0 := by
    rw [List.countP_eq_zero]
    intro k hk
    obtain ⟨q, hq, rfl⟩ := List.mem_drop_iff_getElem.mp hk
    have falling : ns[p + q] ≤ ns[p] := by
      rcases Nat.eq_zero_or_pos q with rfl | pos
      · exact Nat.le_refl _
      · exact List.pairwise_iff_getElem.mp falls p (p + q) _ _ (Nat.lt_add_of_pos_right pos)
    simp only [decide_eq_true_eq]
    omega
  have before : (ns.take p).countP (m ≤ ·) ≤ p := by
    refine Nat.le_trans List.countP_le_length ?_
    rw [List.length_take]
    exact Nat.min_le_left ..
  rw [← List.take_append_drop p ns, List.countP_append, after] at many
  omega

/-- The number found stands where a majority of the falling list ends. -/
theorem reachedByQuorum_eq {ns : List Nat} (some : ns ≠ []) :
    ∃ inside : quorum ns.length - 1 < (sortFalling ns).length,
      reachedByQuorum ns = (sortFalling ns)[quorum ns.length - 1] := by
  have inside : quorum ns.length - 1 < (sortFalling ns).length := by
    have := List.length_pos_iff.mpr some
    rw [(sortFalling_perm ns).length_eq]
    unfold quorum
    omega
  exact ⟨inside, by simp only [reachedByQuorum, List.getElem?_eq_getElem inside, Option.getD_some]⟩

/-- A majority has reached the number found. -/
theorem quorum_le_countP_reached {ns : List Nat} (some : ns ≠ []) :
    quorum ns.length ≤ ns.countP (reachedByQuorum ns ≤ ·) := by
  obtain ⟨inside, reached⟩ := reachedByQuorum_eq some
  have count := countP_ge_of_falls (sortFalling_falls ns) inside
  rw [← reached, (sortFalling_perm ns).countP_eq] at count
  unfold quorum at count ⊢
  omega

/-- The number found is the greatest that a majority has reached. -/
theorem le_reachedByQuorum_iff {ns : List Nat} (some : ns ≠ []) {m : Nat} :
    m ≤ reachedByQuorum ns ↔ quorum ns.length ≤ ns.countP (m ≤ ·) := by
  constructor
  · intro le
    refine Nat.le_trans (quorum_le_countP_reached some) (List.countP_mono_left ?_)
    intro k _ reached
    simp only [decide_eq_true_eq] at reached ⊢
    exact Nat.le_trans le reached
  · intro many
    obtain ⟨inside, reached⟩ := reachedByQuorum_eq some
    rw [← (sortFalling_perm ns).countP_eq] at many
    rw [reached]
    apply le_getElem_of_falls (sortFalling_falls ns)
    unfold quorum at many ⊢
    omega

/-- A majority reaches nothing that nobody has reached. -/
theorem reachedByQuorum_le {ns : List Nat} {m : Nat} (all : ∀ x ∈ ns, x ≤ m) :
    reachedByQuorum ns ≤ m := by
  rw [reachedByQuorum]
  cases found : (sortFalling ns)[quorum ns.length - 1]? with
  | none => exact Nat.zero_le m
  | some x => exact all x ((sortFalling_perm ns).subset (List.mem_of_getElem? found))

/-- The numbers of all members, one's own last, make a majority of members out of the number that
    they reach. -/
theorem exists_quorum_reached {n : Nat} {i : Fin n} {peers : List (Fin n)} (matched : List Nat)
    (own : Nat) (distinct : peers.Nodup) (other : i ∉ peers) (all : peers.length + 1 = n)
    (aligned : matched.length = peers.length) :
    ∃ Q : Finset (Fin n), quorum n ≤ Q.card ∧ ∀ v ∈ Q,
      v = i ∨ ∃ p m : Nat, peers[p]? = some v ∧ matched[p]? = some m ∧
        reachedByQuorum (matched ++ [own]) ≤ m := by
  let reached := reachedByQuorum (matched ++ [own])
  let holders := ((peers.zip matched).filter (reached ≤ ·.2)).map Prod.fst
  have part : holders.Sublist peers := by
    have whole : (peers.zip matched).map Prod.fst = peers :=
      List.map_fst_zip (Nat.le_of_eq aligned.symm)
    have := (List.filter_sublist (p := (reached ≤ ·.2)) (l := peers.zip matched)).map Prod.fst
    rwa [whole] at this
  have nodup : (i :: holders).Nodup :=
    List.nodup_cons.mpr ⟨fun h => other (part.subset h), distinct.sublist part⟩
  have holding : matched.countP (reached ≤ ·) = holders.length := by
    have whole : (peers.zip matched).map Prod.snd = matched :=
      List.map_snd_zip (Nat.le_of_eq aligned)
    simp only [holders, List.length_map, ← List.countP_eq_length_filter]
    conv_lhs => rw [← whole, List.countP_map]
    rfl
  refine ⟨(i :: holders).toFinset, ?_, ?_⟩
  · have count : quorum (matched ++ [own]).length ≤ (matched ++ [own]).countP (reached ≤ ·) :=
      quorum_le_countP_reached (by simp)
    have members : (matched ++ [own]).length = n := by
      simp only [List.length_append, List.length_singleton, aligned, all]
    rw [members, List.countP_append] at count
    have last : [own].countP (reached ≤ ·) ≤ 1 := List.countP_le_length
    rw [List.toFinset_card_of_nodup nodup, List.length_cons, ← holding]
    omega
  · intro v hv
    rcases List.mem_cons.mp (List.mem_toFinset.mp hv) with rfl | hv
    · exact .inl rfl
    · obtain ⟨⟨w, m⟩, hm, rfl⟩ := List.mem_map.mp hv
      obtain ⟨pair, le⟩ := List.mem_filter.mp hm
      obtain ⟨p, hp⟩ := List.mem_iff_getElem?.mp pair
      obtain ⟨peer, match_⟩ := List.getElem?_zip_eq_some.mp hp
      exact .inr ⟨p, m, peer, match_, of_decide_eq_true le⟩

example : reachedByQuorum [4, 0, 7, 5, 9] = 5 := by decide

end QuorumStore
