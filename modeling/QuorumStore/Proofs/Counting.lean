import QuorumStore.Proofs.LogOrder
import QuorumStore.Proofs.Majority
import QuorumStore.Proofs.NodeSteps
import Mathlib.Order.Bounds.Basic
/-! # What counting commits

A leader looks at one number only, the one that a majority has reached. As terms never fall along
its log, that number speaks for every position that could be committed: either it is the greatest
of them, or there is none above the commit index.
-/

namespace QuorumStore.Node

variable {n : Node} {index : Nat}

/-- How many members hold the log up to a position, as far as a leader knows: the peers that have
    confirmed it, and the leader itself. -/
def holders (n : Node) (index : Nat) : Nat := n.progress.countP (index ≤ ·.matched) + 1

/-- An entry of the leader's own term stands at a position, and a majority holds it. -/
structure Carried (n : Node) (index : Nat) : Prop where
  positive : 0 < index
  inside : index ≤ n.lastIndex
  own : n.log.termAt index = n.term
  held : quorum (n.progress.length + 1) ≤ n.holders index

/-- The number that a majority has reached: what the peers have confirmed counts, and the leader's
    own log. -/
def reached (n : Node) : Nat :=
  reachedByQuorum (n.progress.map Progress.matched ++ [n.lastIndex])

theorem advanceCommit_of_leader (leads : n.role = .leader) : n.advanceCommit =
    if n.commit < n.reached ∧ n.log.termAt n.reached = n.term then n.commitThrough n.reached
    else n := by
  rw [advanceCommit, if_pos leads]
  rfl

/-- Inside the log a majority holds everything up to the number reached and nothing above it. -/
theorem quorum_le_holders_iff (inside : index ≤ n.lastIndex) :
    quorum (n.progress.length + 1) ≤ n.holders index ↔ index ≤ n.reached := by
  have holding : (n.progress.map Progress.matched ++ [n.lastIndex]).countP (index ≤ ·) =
      n.holders index := by
    simp only [holders, List.countP_append, List.countP_map, List.countP_singleton, inside,
      decide_true, if_true]
    rfl
  rw [reached, le_reachedByQuorum_iff (by simp), holding]
  simp

theorem reached_le_lastIndex (known : ∀ p ∈ n.progress, p.matched ≤ n.lastIndex) :
    n.reached ≤ n.lastIndex := by
  apply reachedByQuorum_le
  intro x hx
  cases List.mem_append.mp hx with
  | inl peer =>
      obtain ⟨p, hp, rfl⟩ := List.mem_map.mp peer
      exact known p hp
  | inr self => exact Nat.le_of_eq (List.mem_singleton.mp self)

theorem Carried.le_reached (h : n.Carried index) : index ≤ n.reached :=
  (quorum_le_holders_iff h.inside).mp h.held

/-- Where an entry of the leader's own term is found at the number reached, no position above it can
    be committed. -/
theorem isGreatest_reached (positive : 0 < n.reached) (inside : n.reached ≤ n.lastIndex)
    (own : n.log.termAt n.reached = n.term) : IsGreatest {i | n.Carried i} n.reached :=
  ⟨⟨positive, inside, own, (quorum_le_holders_iff inside).mpr (Nat.le_refl _)⟩,
    fun _ carried => Carried.le_reached carried⟩

/-- Whatever counting changes, it changes by committing the number reached. -/
theorem advanceCommit_changes (known : ∀ p ∈ n.progress, p.matched ≤ n.lastIndex)
    (changed : n.advanceCommit ≠ n) : n.commit < n.reached ∧
      n.advanceCommit.commit = n.reached ∧ IsGreatest {i | n.Carried i} n.reached := by
  have inside := reached_le_lastIndex known
  rcases advanceCommit_cases n with same | ⟨leads, r, r_eq, new, own, commits⟩
  · exact absurd same changed
  · obtain rfl : r = n.reached := r_eq
    have commit : n.advanceCommit.commit = n.reached := by
      rw [commits, commitThrough_commit, Nat.min_eq_left inside]
      exact Nat.max_eq_right (Nat.le_of_lt new)
    exact ⟨new, commit, isGreatest_reached (Nat.zero_lt_of_lt new) inside own⟩

/-- Where some position can be committed, the number reached can: its entry does not come earlier,
    so that its term is not lower, and no term is higher than the leader's. -/
theorem Carried.own_reached (h : n.Carried index) (rising : n.log.Rising)
    (reigns : ∀ e ∈ n.log, e.term ≤ n.term)
    (known : ∀ p ∈ n.progress, p.matched ≤ n.lastIndex) :
    n.log.termAt n.reached = n.term := by
  have lower := rising.termAt_le_termAt h.le_reached (reached_le_lastIndex known)
  rw [h.own] at lower
  exact Nat.le_antisymm (Log.termAt_le reigns n.reached) lower

/-- Counting commits the greatest position that holds an entry of the leader's own term and that a
    majority holds. Where there is none above the commit index, the leader stays as it is, however
    many hold an entry of an earlier term; and whenever it does commit, it is such a position. -/
theorem advanceCommit_commits_greatest (leads : n.role = .leader) (rising : n.log.Rising)
    (reigns : ∀ e ∈ n.log, e.term ≤ n.term)
    (known : ∀ p ∈ n.progress, p.matched ≤ n.lastIndex) :
    (∀ index, IsGreatest {i | n.Carried i} index →
      n.advanceCommit = n.commitThrough index ∧ n.advanceCommit.commit = max n.commit index) ∧
    ((∀ index, n.Carried index → index ≤ n.commit) → n.advanceCommit = n) ∧
    (n.advanceCommit ≠ n →
      n.commit < n.advanceCommit.commit ∧
        IsGreatest {i | n.Carried i} n.advanceCommit.commit) := by
  have inside := reached_le_lastIndex known
  refine ⟨?_, ?_, ?_⟩
  · intro index greatest
    have carried : n.Carried index := greatest.1
    have own := carried.own_reached rising reigns known
    have positive := Nat.lt_of_lt_of_le carried.positive carried.le_reached
    obtain rfl := greatest.unique (isGreatest_reached positive inside own)
    have commits : n.advanceCommit = n.commitThrough n.reached := by
      rw [advanceCommit_of_leader leads]
      split
      · rfl
      · rename_i old
        have committed : n.reached ≤ n.commit := Nat.le_of_not_lt fun new => old ⟨new, own⟩
        exact (commitThrough_of_le committed).symm
    refine ⟨commits, ?_⟩
    rw [commits, commitThrough_commit, Nat.min_eq_left inside]
  · intro nothing
    by_contra changed
    obtain ⟨new, _, greatest⟩ := advanceCommit_changes known changed
    exact Nat.not_le_of_lt new (nothing _ greatest.1)
  · intro changed
    obtain ⟨new, commit, greatest⟩ := advanceCommit_changes known changed
    rw [commit]
    exact ⟨new, greatest⟩

/-- A leader of four in its second term. Three members hold the second of its own entries, and all
    of them the entries of the term before. -/
def leaderOfFour : Node where
  role := .leader
  term := 2
  votedFor := some "a"
  leader := some "a"
  log := [⟨1, .barrier⟩, ⟨1, .write "k" .tombstone 0⟩, ⟨2, .barrier⟩, ⟨2, .write "k" .tombstone 0⟩,
    ⟨2, .write "j" .tombstone 0⟩]
  commit := 1
  store := .empty
  progress := [⟨5, 4⟩, ⟨3, 2⟩, ⟨6, 5⟩]
  deadline := 0
  tickets := []

theorem advanceCommit_commits_greatest_for_four :
    leaderOfFour.role = .leader ∧ leaderOfFour.log.Rising ∧
      (∀ e ∈ leaderOfFour.log, e.term ≤ leaderOfFour.term) ∧
      (∀ p ∈ leaderOfFour.progress, p.matched ≤ leaderOfFour.lastIndex) ∧
      leaderOfFour.advanceCommit.commit = 4 ∧
      IsGreatest {i | leaderOfFour.Carried i} leaderOfFour.advanceCommit.commit := by
  have rising : leaderOfFour.log.Rising := by unfold Log.Rising; decide
  have reigns : ∀ e ∈ leaderOfFour.log, e.term ≤ leaderOfFour.term := by decide
  have known : ∀ p ∈ leaderOfFour.progress, p.matched ≤ leaderOfFour.lastIndex := by decide
  obtain ⟨_, _, commits⟩ :=
    advanceCommit_commits_greatest (n := leaderOfFour) rfl rising reigns known
  exact ⟨rfl, rising, reigns, known, by decide, (commits (by decide)).2⟩

/-- That everyone holds an entry of an earlier term commits nothing. -/
example : ({ leaderOfFour with progress := List.replicate 3 ⟨3, 2⟩ }).advanceCommit.commit = 1 := by
  decide

end QuorumStore.Node
