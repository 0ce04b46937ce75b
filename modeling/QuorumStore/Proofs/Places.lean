import QuorumStore.Config.Membership
import QuorumStore.Proofs.Majority
import QuorumStore.Proofs.Run
import Mathlib.Data.List.FinRange
/-! # One cluster for all

Everyone is configured with the same list and takes an address out of it by position. What is left
are the peers, so that all have the same members in mind, count the same majority, and belong to one
roster, which is what everything about runs starts from.
-/

namespace QuorumStore

/-- Everyone that a member knows of, itself first. -/
def Bootstrap.known (b : Bootstrap) : List String := b.address :: b.peers

/-- A set of members that is a majority as a member sees it. -/
structure Bootstrap.Majority (b : Bootstrap) (A : Finset String) : Prop where
  known : ∀ a ∈ A, a ∈ b.known
  enough : quorum (b.peers.length + 1) ≤ A.card

namespace Membership

variable {members : List String} {index : Nat}

/-- A member takes its own place in a list of members: it is the one at a position and not among its
    peers, and put back among them it makes up the list. -/
structure Placed (members : List String) (index : Nat) (b : Bootstrap) : Prop where
  address : members[index]? = some b.address
  other : b.address ∉ b.peers
  whole : b.peers.insertIdx index b.address = members

/-- Where members are given, no file and no fallback has a part in it. -/
theorem bootstrap_given (m : Membership) (read : String → Option (List UInt8)) (fallback : String)
    (inside : m.index < m.members.length) :
    m.bootstrap read fallback = .ok ⟨m.members[m.index], m.members.eraseIdx m.index⟩ := by
  have given : m.members ≠ [] := List.ne_nil_of_length_pos (Nat.zero_lt_of_lt inside)
  have resolved : m.resolve read = .ok m.members := if_pos given
  have chosen : m.bootstrap read fallback = split m.members m.index := by
    obtain ⟨first, rest, listed⟩ := List.exists_cons_of_ne_nil given
    rw [bootstrap, resolved, listed]
  rw [chosen, split, List.getElem?_eq_getElem inside]

/-- Whoever takes a place has all members in mind, in another order. -/
theorem known_perm (inside : index < members.length) :
    (Bootstrap.known ⟨members[index], members.eraseIdx index⟩).Perm members :=
  List.getElem_cons_eraseIdx_perm inside

theorem placed_of_distinct (distinct : members.Nodup) (inside : index < members.length) :
    Placed members index ⟨members[index], members.eraseIdx index⟩ where
  address := List.getElem?_eq_getElem inside
  other := (List.nodup_cons.mp ((known_perm inside).nodup_iff.mpr distinct)).1
  whole := List.insertIdx_eraseIdx_getElem inside

/-- A majority as a member sees it is one of the listed members. -/
theorem majority_of_known {b : Bootstrap} (distinct : members.Nodup) (all : b.known.Perm members)
    {A : Finset String} (majority : b.Majority A) :
    A ⊆ members.toFinset ∧ quorum members.toFinset.card ≤ A.card := by
  refine ⟨fun a ha => List.mem_toFinset.mpr (all.mem_iff.mp (majority.known a ha)), ?_⟩
  have size : b.peers.length + 1 = members.length := all.length_eq
  rw [List.toFinset_card_of_nodup distinct, ← size]
  exact majority.enough

/-- Members that are given the same list without repetitions, each with a position in it, all find
    their places: everyone is the one at its position and has the others as its peers. So they have
    the same members in mind, and whatever two of them take for majorities have a member in
    common. -/
theorem places_of_one_cluster (m m' : Membership) (same : m'.members = m.members)
    (distinct : m.members.Nodup) (inside : m.index < m.members.length)
    (inside' : m'.index < m'.members.length) (read read' : String → Option (List UInt8))
    (fallback fallback' : String) :
    ∃ b b' : Bootstrap, m.bootstrap read fallback = .ok b ∧
      m'.bootstrap read' fallback' = .ok b' ∧
      Placed m.members m.index b ∧ Placed m.members m'.index b' ∧ b.known.Perm b'.known ∧
      ∀ A B : Finset String, b.Majority A → b'.Majority B → ∃ a, a ∈ A ∧ a ∈ B := by
  refine ⟨_, _, m.bootstrap_given read fallback inside, m'.bootstrap_given read' fallback' inside',
    ?_⟩
  simp only [same] at inside' ⊢
  have all := known_perm inside
  have all' := known_perm inside'
  refine ⟨placed_of_distinct distinct inside, placed_of_distinct distinct inside',
    all.trans all'.symm, ?_⟩
  intro A B majority majority'
  obtain ⟨inA, ha⟩ := majority_of_known distinct all majority
  obtain ⟨inB, hb⟩ := majority_of_known distinct all' majority'
  exact exists_mem_of_majorities inA inB ha hb

/-- In a cluster of four, a majority that the first member may count and one that the last may count
    share two members. -/
theorem places_of_one_cluster_of_four :
    ∃ b b' : Bootstrap,
      bootstrap (fun _ => none) "x" ⟨["a", "b", "c", "d"], none, 0⟩ = .ok b ∧
      bootstrap (fun _ => some []) "y" ⟨["a", "b", "c", "d"], some "peers", 3⟩ = .ok b' ∧
      b.peers = ["b", "c", "d"] ∧ b'.peers = ["a", "b", "c"] ∧
      b.Majority {"a", "b", "c"} ∧ b'.Majority {"d", "a", "b"} ∧
      ∃ a, a ∈ ({"a", "b", "c"} : Finset String) ∧ a ∈ ({"d", "a", "b"} : Finset String) := by
  obtain ⟨b, b', first, last, _, _, _, meet⟩ := places_of_one_cluster
    ⟨["a", "b", "c", "d"], none, 0⟩ ⟨["a", "b", "c", "d"], some "peers", 3⟩ rfl (by decide)
    (by decide) (by decide) (fun _ => none) (fun _ => some []) "x" "y"
  obtain rfl := Except.ok.inj first
  obtain rfl := Except.ok.inj last
  have majority : Bootstrap.Majority ⟨"a", ["b", "c", "d"]⟩ {"a", "b", "c"} :=
    ⟨by decide, by decide⟩
  have majority' : Bootstrap.Majority ⟨"d", ["a", "b", "c"]⟩ {"d", "a", "b"} :=
    ⟨by decide, by decide⟩
  exact ⟨_, _, first, last, rfl, rfl, majority, majority', meet _ _ majority majority'⟩

end Membership

/-! ## The roster of a configured cluster -/

/-- The roster of members that are configured with a list, in the order in which bootstrapping leaves
    the peers. -/
def Roster.ofMembers (members : List String) (distinct : members.Nodup)
    (timing : Fin members.length → Timing) (started : Fin members.length → Nat) :
    Roster members.length where
  address i := members[i]
  peers i := (List.finRange members.length).eraseIdx i
  timing := timing
  started := started
  address_injective := fun i j same => Fin.ext (distinct.getElem_inj_iff.mp same)
  peers_nodup i := (List.nodup_finRange _).sublist (List.eraseIdx_sublist ..)
  mem_peers i j := by
    have inside : i.val < (List.finRange members.length).length := by simp
    rw [← (List.nodup_finRange _).erase_getElem i inside, (List.nodup_finRange _).mem_erase_iff]
    simp

/-- Whoever is bootstrapped from a list starts as a run has the member start. -/
theorem Roster.start_of_bootstrap {members : List String} (distinct : members.Nodup)
    (timing : Fin members.length → Timing) (started : Fin members.length → Nat)
    (i : Fin members.length) (file : Option String) (read : String → Option (List UInt8))
    (fallback : String) :
    ∃ b, Membership.bootstrap read fallback ⟨members, file, i⟩ = .ok b ∧
      (System.start (ofMembers members distinct timing started)).member i =
        .start (started i) b.address b.peers (timing i) := by
  refine ⟨_, Membership.bootstrap_given _ read fallback i.isLt, ?_⟩
  have peers : (((List.finRange members.length).eraseIdx i).map fun j => members[j]) =
      members.eraseIdx i := by
    rw [← List.eraseIdx_map]
    congr 1
    exact List.map_get_finRange members
  simp only [System.start, ofMembers, peers]
  rfl

end QuorumStore
