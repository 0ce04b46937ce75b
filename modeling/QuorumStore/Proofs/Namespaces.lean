import QuorumStore.Store.Key
import Mathlib.Data.String.Basic
/-! # Whose a key is

A key that already stands under the name of the principal that requests it is kept, any other is put
there. So different requests may mean the same key, but only requests of one principal, and no more
than two of them: a path, and the same path with the name in front.
-/

namespace QuorumStore.Key

variable {p q r s key : String}

/-- A key stands under the name of a principal. -/
def Within (principal key : String) : Prop := ∃ path, key = principal ++ ":" ++ path

theorem front_isPrefixOf_iff :
    (p.toList ++ [separator]).isPrefixOf key.toList = true ↔ Within p key := by
  rw [List.isPrefixOf_iff_prefix]
  constructor
  · rintro ⟨rest, parts⟩
    refine ⟨String.ofList rest, String.toList_inj.mp ?_⟩
    simp only [String.toList_append, String.toList_ofList, ← parts]
    rfl
  · rintro ⟨path, rfl⟩
    refine ⟨path.toList, ?_⟩
    simp only [String.toList_append]
    rfl

instance (p key : String) : Decidable (Within p key) := decidable_of_iff _ front_isPrefixOf_iff

theorem owned_of_within (within : Within p r) : owned p r = r :=
  if_pos (front_isPrefixOf_iff.mpr within)

theorem owned_of_foreign (foreign : ¬ Within p r) : owned p r = p ++ ":" ++ r := by
  have placed : owned p r = String.ofList (p.toList ++ [separator] ++ r.toList) :=
    if_neg fun own => foreign (front_isPrefixOf_iff.mp own)
  rw [placed, String.ofList_append, String.ofList_append, String.ofList_toList,
    String.ofList_toList]
  rfl

theorem within_owned (p r : String) : Within p (owned p r) :=
  front_isPrefixOf_iff.mp (front_isPrefixOf_owned p r)

/-- Two requests of one principal mean the same key exactly if they are the same, or one is the other
    with the name in front and the other does not begin with the name itself. -/
theorem owned_eq_owned_iff (p r s : String) : owned p r = owned p s ↔
    r = s ∨ (s = p ++ ":" ++ r ∧ ¬ Within p r) ∨ (r = p ++ ":" ++ s ∧ ¬ Within p s) := by
  by_cases first : Within p r
  · rw [owned_of_within first]
    by_cases second : Within p s
    · rw [owned_of_within second]
      simp only [first, second, not_true, and_false, or_false]
    · have different : r ≠ s := fun same => second (same ▸ first)
      rw [owned_of_foreign second]
      simp only [first, second, different, not_true, not_false_iff, and_false, and_true, false_or]
  · rw [owned_of_foreign first]
    by_cases second : Within p s
    · have different : r ≠ s := fun same => first (same ▸ second)
      rw [owned_of_within second, eq_comm]
      simp only [first, second, different, not_true, not_false_iff, and_false, and_true, false_or,
        or_false]
    · have put : ∀ {a b : String}, ¬ Within p b → b ≠ p ++ ":" ++ a :=
        fun foreign same => foreign ⟨_, same⟩
      rw [owned_of_foreign second, String.append_right_inj]
      simp only [put first, put second, false_and, or_false]

/-- A key that a principal is given names this principal and no other: its name is what stands before
    the first separator, and whoever else is given the same key has the same name. Requesting the
    key that one is given is requesting it again, and two different requests of a principal mean one
    key exactly if one of them is the other with the name put in front, where it was missing. -/
theorem keys_name_their_owners (hp : isOwner p = true) (hq : isOwner q = true) (r s : String) :
    (owned p r = owned q s → p = q) ∧
    (owner (owned p r) = p ∧ Within p (owned p r)) ∧
    owned p (owned p r) = owned p r ∧
    (r ≠ s → (owned p r = owned p s ↔
      (s = p ++ ":" ++ r ∧ ¬ Within p r) ∨ (r = p ++ ":" ++ s ∧ ¬ Within p s))) := by
  refine ⟨?_, ⟨owner_owned hp r, within_owned p r⟩, owned_owned p r, ?_⟩
  · intro same
    calc
      p = owner (owned p r) := (owner_owned hp r).symm
      _ = owner (owned q s) := by rw [same]
      _ = q := owner_owned hq s
  · intro different
    rw [owned_eq_owned_iff, or_iff_right different]

/-- Whoever requests a key of somebody else is given one of its own. A key that is requested with and
    without the name is one key, but with the name twice it is another. -/
theorem keys_name_their_owners_of_two :
    isOwner "ab" = true ∧ isOwner "a" = true ∧ owned "ab" "a:c" ≠ owned "a" "a:c" ∧
      owner (owned "ab" "a:c") = "ab" ∧ owned "a" "c" = owned "a" "a:c" ∧
      owned "a" "a:c" ≠ owned "a" "a:a:c" := by
  have long : isOwner "ab" = true := by decide
  have short : isOwner "a" = true := by decide
  obtain ⟨apart, ⟨named, _⟩, _⟩ := keys_name_their_owners long short "a:c" "a:c"
  obtain ⟨_, _, _, once⟩ := keys_name_their_owners short short "c" "a:c"
  obtain ⟨_, _, _, twice⟩ := keys_name_their_owners short short "a:c" "a:a:c"
  have collides : owned "a" "c" = owned "a" "a:c" :=
    (once (by decide)).mpr (.inl ⟨by decide, by decide⟩)
  have differs : owned "a" "a:c" ≠ owned "a" "a:a:c" := by
    rw [ne_eq, twice (by decide)]
    decide
  exact ⟨long, short, fun same => absurd (apart same) (by decide), named, collides, differs⟩

end QuorumStore.Key
