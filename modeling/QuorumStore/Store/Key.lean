/-! # Keys and their owners

Every key belongs to the principal whose name stands before its first separator. A principal is
valid if its name has no separator, so that this part of a key names one owner only.
-/

namespace QuorumStore.Key

/-- What stands between the owner and the path. -/
def separator : Char := ':'

/-- Whether a principal can own keys. -/
def isOwner (principal : String) : Bool :=
  principal.toList != [] && !principal.toList.contains separator

/-- The key that a principal means by a requested key: a key of its own is kept, any other is put
    under its name. -/
def owned (principal requested : String) : String :=
  let front := principal.toList ++ [separator]
  if front.isPrefixOf requested.toList then requested
  else String.ofList (front ++ requested.toList)

/-- The owner of a key: the text before the first separator. -/
def owner (key : String) : String := String.ofList (key.toList.takeWhile (· != separator))

/-- Whatever a principal asks for, it ends up with a key of its own. -/
theorem owner_owned {principal : String} (valid : isOwner principal = true) (requested : String) :
    owner (owned principal requested) = principal := by
  simp only [isOwner, Bool.and_eq_true, Bool.not_eq_true', List.contains_eq_mem,
    decide_eq_false_iff_not] at valid
  have name : ∀ c ∈ principal.toList, (c != separator) = true := by
    intro c mem
    rw [bne_iff_ne]
    rintro rfl
    exact valid.2 mem
  have first : ∀ rest, (principal.toList ++ separator :: rest).takeWhile (· != separator) =
      principal.toList := by
    intro rest
    rw [List.takeWhile_append_of_pos name, List.takeWhile_cons_of_neg (by simp),
      List.append_nil]
  simp only [owned]
  split
  · rename_i own
    obtain ⟨rest, parts⟩ := List.isPrefixOf_iff_prefix.mp own
    rw [owner, ← parts, List.append_assoc, List.singleton_append, first, String.ofList_toList]
  · rw [owner, String.toList_ofList, List.append_assoc, List.singleton_append, first,
      String.ofList_toList]

/-- Whatever a principal is given begins with its name. -/
theorem front_isPrefixOf_owned (principal requested : String) :
    (principal.toList ++ [separator]).isPrefixOf (owned principal requested).toList = true := by
  by_cases own : (principal.toList ++ [separator]).isPrefixOf requested.toList
  · have kept : owned principal requested = requested := if_pos own
    rw [kept]
    exact own
  · have placed : owned principal requested =
        String.ofList (principal.toList ++ [separator] ++ requested.toList) := if_neg own
    rw [placed, String.toList_ofList]
    exact List.isPrefixOf_iff_prefix.mpr (List.prefix_append ..)

/-- A key that a principal has been given means the same key when it is requested. -/
theorem owned_owned (principal requested : String) :
    owned principal (owned principal requested) = owned principal requested :=
  if_pos (front_isPrefixOf_owned principal requested)

theorem owned_ne_empty (principal requested : String) : owned principal requested ≠ "" := by
  intro empty
  have front := front_isPrefixOf_owned principal requested
  rw [empty] at front
  simp at front

end QuorumStore.Key
