import QuorumStore.Proofs.MessageText
import QuorumStore.Proofs.Numerals
import QuorumStore.Proofs.Trimming
import QuorumStore.Server.Values
/-! # Documents there and back

The text that is stored of a document is read back as the same document, based on the version in the
text. This holds for every document that was taken out of a JSON text and has no doubles: such a
document is sorted, its integers fit 64 bits, and it nests no deeper than a reader goes.
-/

namespace QuorumStore

namespace Json

variable {key name : String} {j : Json} {fields : Fields} {depth limit n : Nat}

/-! ## Members taken away -/

theorem erase_sublist (key : String) (fields : Fields) : (fields.erase key).Sublist fields := by
  induction fields with
  | nil => exact .slnil
  | cons field fields ih =>
      obtain ⟨k, v⟩ := field
      rw [Fields.erase]
      split
      · exact List.sublist_cons_self _ _
      · exact ih.cons_cons _

theorem get?_erase_self (sorted : fields.Pairwise (·.1 < ·.1)) (key : String) :
    (fields.erase key).get? key = none := by
  induction fields with
  | nil => rfl
  | cons field fields ih =>
      obtain ⟨k, v⟩ := field
      obtain ⟨below, rest⟩ := List.pairwise_cons.mp sorted
      rw [Fields.erase]
      split
      · -- as the fields are sorted, there is no second member of the key
        rename_i same
        subst same
        exact get?_eq_none fun field mem => (String.ne_of_lt (below field mem)).symm
      · rename_i other
        rw [Fields.get?, if_neg other]
        exact ih rest

theorem get?_erase_of_ne (other : key ≠ name) (fields : Fields) :
    (fields.erase key).get? name = fields.get? name := by
  induction fields with
  | nil => rfl
  | cons field fields ih =>
      obtain ⟨k, v⟩ := field
      rw [Fields.erase]
      split
      · rename_i same
        rw [Fields.get?, if_neg (same ▸ other)]
      · rw [Fields.get?, Fields.get?, ih]

theorem erase_of_get?_eq_none (absent : fields.get? key = none) : fields.erase key = fields := by
  induction fields with
  | nil => rfl
  | cons field fields ih =>
      obtain ⟨k, v⟩ := field
      rw [Fields.get?] at absent
      split at absent
      · simp at absent
      · rename_i other
        rw [Fields.erase, if_neg other, ih absent]

theorem erase_insert (absent : fields.get? key = none) (j : Json) :
    (fields.insert key j).erase key = fields := by
  induction fields with
  | nil => simp [Fields.insert, Fields.erase]
  | cons field fields ih =>
      obtain ⟨k, v⟩ := field
      rw [Fields.get?] at absent
      split at absent
      · simp at absent
      · rename_i other
        rw [Fields.insert]
        split
        · rw [Fields.erase, if_pos rfl]
        · rw [if_neg (Ne.symm other), Fields.erase, if_neg other, ih absent]

/-! ## Values that stand in a text -/

/-- A value that a JSON text holds, whose arrays and objects nest no deeper than some depth. -/
def Legible (limit : Nat) (j : Json) : Prop :=
  ∃ depth ≤ limit, ∃ w : Written, w.json? depth = some j

theorem significand_lt (digits : List Char) {start : Nat} (small : start < Decimal.limit64) :
    (Numeral.significand digits start).1 < Decimal.limit64 := by
  induction digits generalizing start with
  | nil => exact small
  | cons c digits ih =>
      rw [Numeral.significand]
      split
      · rename_i next
        exact ih next
      · exact small

theorem number?_bounds {w : Numeral} {i : Int} (h : w.number? = some (.integer i)) :
    -9223372036854775808 ≤ i ∧ i < 18446744073709551616 := by
  have small : (Numeral.significand w.whole 0).1 < Decimal.limit64 :=
    significand_lt w.whole (by decide)
  rw [Decimal.limit64] at small
  simp only [Numeral.number?] at h
  split at h
  · split at h
    · have same : ((Numeral.significand w.whole 0).1 : Int) = i := by simpa using h
      omega
    · split at h
      · simp at h
      · have same : -((Numeral.significand w.whole 0).1 : Int) = i := by simpa using h
        omega
  · simp at h

theorem legible_of_items {items : List Written} {js : List Json}
    (h : Written.jsonItems? depth items = some js) : ∀ j ∈ js, Legible depth j := by
  induction items generalizing js with
  | nil =>
      rw [Written.jsonItems?] at h
      obtain rfl := Option.some.inj h
      simp
  | cons item items ih =>
      rw [Written.jsonItems?] at h
      split at h
      · rename_i j js first rest
        obtain rfl := Option.some.inj h
        intro j' mem
        cases List.mem_cons.mp mem with
        | inl same =>
            rw [same]
            exact ⟨depth, Nat.le_refl depth, item, first⟩
        | inr later => exact ih rest j' later
      · simp at h

theorem legible_of_members {members : List (List Piece × Written)} {pairs : Fields}
    (h : Written.jsonMembers? depth members = some pairs) :
    ∀ pair ∈ pairs, Legible depth pair.2 := by
  induction members generalizing pairs with
  | nil =>
      rw [Written.jsonMembers?] at h
      obtain rfl := Option.some.inj h
      simp
  | cons member members ih =>
      obtain ⟨key, value⟩ := member
      rw [Written.jsonMembers?] at h
      split at h
      · rename_i k j pairs name first rest
        obtain rfl := Option.some.inj h
        intro pair mem
        cases List.mem_cons.mp mem with
        | inl same =>
            rw [same]
            exact ⟨depth, Nat.le_refl depth, value, first⟩
        | inr later => exact ih rest pair later
      · simp at h

theorem Legible.mono (h : Legible depth j) (le : depth ≤ limit) : Legible limit j := by
  obtain ⟨deep, inside, w, value⟩ := h
  exact ⟨deep, Nat.le_trans inside le, w, value⟩

theorem Legible.integer {i : Int} (h : Legible limit (.number (.integer i))) :
    -9223372036854775808 ≤ i ∧ i < 18446744073709551616 := by
  obtain ⟨depth, _, w, value⟩ := h
  cases w with
  | number n =>
      rw [Written.json?] at value
      obtain ⟨number, read, same⟩ := Option.map_eq_some_iff.mp value
      obtain rfl := Json.number.inj same
      exact number?_bounds read
  | array items => cases depth <;> simp [Written.json?] at value
  | object members => cases depth <;> simp [Written.json?, ofFields] at value
  | _ => simp [Written.json?] at value

theorem Legible.items {js : List Json} (h : Legible limit (.array js)) :
    ∃ deep, limit = deep + 1 ∧ ∀ j ∈ js, Legible deep j := by
  obtain ⟨depth, le, w, value⟩ := h
  cases w with
  | array items =>
      cases depth with
      | zero => simp [Written.json?] at value
      | succ depth =>
          rw [Written.json?] at value
          obtain ⟨js', read, same⟩ := Option.map_eq_some_iff.mp value
          obtain rfl := Json.array.inj same
          refine ⟨limit - 1, by omega, fun j mem => ?_⟩
          exact (legible_of_items read j mem).mono (by omega)
  | object members => cases depth <;> simp [Written.json?, ofFields] at value
  | _ => simp [Written.json?] at value

theorem Legible.members (h : Legible limit (.object fields)) :
    ∃ deep, limit = deep + 1 ∧ fields.Pairwise (·.1 < ·.1) ∧
      ∀ field ∈ fields, Legible deep field.2 := by
  obtain ⟨depth, le, w, value⟩ := h
  cases w with
  | object members =>
      cases depth with
      | zero => simp [Written.json?] at value
      | succ depth =>
          rw [Written.json?] at value
          obtain ⟨pairs, read, same⟩ := Option.map_eq_some_iff.mp value
          obtain rfl := Json.object.inj same
          obtain ⟨sorted, given⟩ := ofList_cases pairs
          refine ⟨limit - 1, by omega, sorted, fun field mem => ?_⟩
          exact (legible_of_members read field (given field mem)).mono (by omega)
  | array items => cases depth <;> simp [Written.json?] at value
  | _ => simp [Written.json?] at value

/-- Without doubles, what a text holds is what a printed value is read back from. -/
theorem Legible.fits (h : Legible limit j) (exact_ : Exact j) : Fits limit j := by
  induction limit using Nat.strongRecOn generalizing j with
  | _ limit ih =>
      cases j with
      | number n =>
          cases n with
          | integer i => exact h.integer
          | double x => exact exact_
      | array items =>
          obtain ⟨deep, rfl, legible⟩ := h.items
          rw [Exact, exactItems_iff] at exact_
          rw [Fits, fitsItems_iff]
          intro item mem
          exact ih deep (Nat.lt_succ_self deep) (legible item mem) (exact_ item mem)
      | object fields =>
          obtain ⟨deep, rfl, sorted, legible⟩ := h.members
          rw [Exact, exactFields_iff] at exact_
          rw [Fits, fitsFields_iff]
          refine ⟨sorted, fun field mem => ?_⟩
          exact ih deep (Nat.lt_succ_self deep) (legible field mem) (exact_ field mem)
      | _ => trivial

theorem legible_of_ofString {text : String} (h : ofString text = some j) :
    Legible Written.maxDepth j := by
  obtain ⟨w, _, value⟩ := Option.bind_eq_some_iff.mp h
  exact ⟨Written.maxDepth, Nat.le_refl _, w, value⟩

end Json

/-! ## Versions -/

theorem parseVersion_ofNat (version : Nat) : parseVersion (.ofNat version) = .ok version := by
  simp [parseVersion, Json.ofNat, Number.natural?]

theorem parseVersion_text {version : Nat} (small : version < Decimal.limit64) :
    parseVersion (.string (Decimal.text version)) = .ok version := by
  have solid : ∀ c ∈ Decimal.digits version, Text.isBlank c = false := fun c mem =>
    Text.isBlank_of_isDigit ((Decimal.denotes_digits version).isDigit c mem)
  rw [parseVersion, Decimal.text, String.toList_ofList, Text.trim_of_solid solid,
    Decimal.below?_digits small]

/-! ## Documents -/

/-- A document that can be read back from what is stored of it. -/
structure Document.Storable (d : Document) : Prop where
  sorted : d.fields.Pairwise (·.1 < ·.1)
  fits : ∀ field ∈ d.fields, Json.Fits 126 field.2
  noToken : d.fields.get? tokenField = none
  noVersion : d.fields.get? versionField = none

/-- What is stored of a document, as an object. -/
def Document.stored (d : Document) (version : Nat) : Json.Fields :=
  d.fields.insert versionField (.string (Decimal.text version))

theorem Json.compact_object_ne_tombstoneText (fields : Json.Fields) :
    (Json.object fields).compact ≠ tombstoneText := by
  intro same
  have texts := congrArg String.toList same
  rw [Json.compact, String.toList_ofList, Json.print] at texts
  have first : '\x7b' = '_' := by simpa [tombstoneText] using congrArg List.head? texts
  exact absurd first (by decide)

theorem Document.render_ne_tombstoneText (d : Document) (version : Nat) :
    d.render version ≠ tombstoneText :=
  Json.compact_object_ne_tombstoneText (d.stored version)

namespace Document.Storable

variable {d : Document}

/-- A stored text is an object that has the version and no token. -/
theorem ofString_render (h : d.Storable) (version : Nat) :
    Json.ofString (d.render version) = some (.object (d.stored version)) := by
  have fits : Json.Fits Written.maxDepth (.object (d.stored version)) := by
    rw [Written.maxDepth, Json.Fits]
    refine ⟨Json.sorted_insert h.sorted, Json.fitsFields_iff.mpr fun field mem => ?_⟩
    cases Json.mem_insert mem with
    | inl new =>
        rw [new]
        trivial
    | inr old => exact h.fits field old
  rw [Json.ofString, render, Json.compact, String.toList_ofList]
  exact Json.parse?_print fits

theorem get?_version (version : Nat) :
    (d.stored version).get? versionField = some (.string (Decimal.text version)) := by
  rw [stored, Json.get?_insert, if_pos rfl]

theorem get?_token (h : d.Storable) (version : Nat) :
    (d.stored version).get? tokenField = none := by
  rw [stored, Json.get?_insert, if_neg (by decide), h.noToken]

/-- A stored text that is sent again is the same document, based on the version it was stored at. -/
theorem ofValue_render (h : d.Storable) {version : Nat} (small : version < Decimal.limit64) :
    Submission.ofValue (.string (d.render version)) = .ok ⟨.upsert version d, none⟩ := by
  have token := h.get?_token version
  rw [Submission.ofValue, if_neg (d.render_ne_tombstoneText version), h.ofString_render version]
  simp only [Submission.ofObject, Submission.ofFields, token, Json.erase_of_get?_eq_none token,
    get?_version, parseVersion_text small, Option.bind_none]
  rw [stored, Json.erase_insert h.noVersion]

end Document.Storable

/-! ## Submissions -/

/-- The values of a document hold no doubles; a deletion has none. -/
def Write.Exact : Write → Prop
  | .delete => True
  | .upsert _ document => Json.ExactFields document.fields

/-- A write that was taken out of a value in a JSON text, and that has no doubles. -/
def Write.Submitted (w : Write) : Prop :=
  w.Exact ∧ ∃ value token, Json.Legible Written.maxDepth value ∧
    Submission.ofValue value = .ok ⟨w, token⟩

theorem Submission.ofObject_upsert {j : Json} {s : Submission} (h : ofObject j = .ok s) :
    ∃ (fields : Json.Fields) (expected : Nat), j = .object fields ∧
      s.write = .upsert expected ⟨(fields.erase tokenField).erase versionField⟩ := by
  cases j with
  | object fields =>
      simp only [ofObject, ofFields] at h
      split at h
      · simp at h
      · split at h
        · simp at h
        · rename_i expected _
          obtain rfl := Except.ok.inj h
          exact ⟨fields, expected, rfl, rfl⟩
  | _ => simp [ofObject] at h

theorem Write.Submitted.object {expected : Nat} {document : Document}
    (h : (Write.upsert expected document).Submitted) :
    ∃ fields : Json.Fields, Json.Legible Written.maxDepth (.object fields) ∧
      document = ⟨(fields.erase tokenField).erase versionField⟩ := by
  obtain ⟨_, value, token, legible, taken⟩ := h
  have found : ∃ j, Json.Legible Written.maxDepth j ∧
      Submission.ofObject j = .ok ⟨.upsert expected document, token⟩ := by
    rw [Submission.ofValue.eq_def] at taken
    split at taken
    · split at taken
      · simp at taken
      · split at taken
        · simp at taken
        · rename_i j read
          exact ⟨j, Json.legible_of_ofString read, taken⟩
    · exact ⟨value, legible, taken⟩
  obtain ⟨j, legible, taken⟩ := found
  obtain ⟨fields, _, rfl, same⟩ := Submission.ofObject_upsert taken
  obtain ⟨_, rfl⟩ := Write.upsert.inj same
  exact ⟨fields, legible, rfl⟩

/-- Whatever is submitted without doubles can be stored. -/
theorem Write.Submitted.storable {expected : Nat} {document : Document}
    (h : (Write.upsert expected document).Submitted) : document.Storable := by
  have exact_ : Json.ExactFields document.fields := h.1
  obtain ⟨fields, legible, rfl⟩ := h.object
  obtain ⟨deep, deeper, sorted, members⟩ := legible.members
  obtain rfl : deep = 126 := (Nat.succ.inj deeper).symm
  have part : ((fields.erase tokenField).erase versionField).Sublist fields :=
    (Json.erase_sublist versionField _).trans (Json.erase_sublist tokenField fields)
  have sorted' : (fields.erase tokenField).Pairwise (·.1 < ·.1) :=
    sorted.sublist (Json.erase_sublist tokenField fields)
  refine ⟨sorted.sublist part, fun field mem => ?_, ?_, ?_⟩
  · exact (members field (part.subset mem)).fits (Json.exactFields_iff.mp exact_ field mem)
  · rw [Json.get?_erase_of_ne (by decide), Json.get?_erase_self sorted]
  · exact Json.get?_erase_self sorted' versionField

/-! ## Requests -/

theorem Json.record_some {α : Type} {names : List String}
    {read : Nat → List (Option Written) → Option α} {depth : Nat} {w : Written} {x : α}
    (h : Json.record names read depth w = some x) :
    ∃ deep fields, depth = deep + 1 ∧ Json.entries? names w = some fields ∧
      read deep fields = some x := by
  cases depth with
  | zero => simp [Json.record] at h
  | succ deep =>
      rw [Json.record] at h
      obtain ⟨fields, entries, found⟩ := Option.bind_eq_some_iff.mp h
      exact ⟨deep, fields, rfl, entries, found⟩

theorem Json.required_some {α : Type} {read : Json.Reading α} {depth : Nat} {w? : Option Written}
    {x : α} (h : Json.required read depth w? = some x) :
    ∃ w, w? = some w ∧ read depth w = some x := by
  cases w? with
  | none => simp [Json.required] at h
  | some w => exact ⟨w, rfl, h⟩

theorem PutRequest.legible {depth : Nat} {w : Written} {r : PutRequest}
    (h : PutRequest.reading depth w = some r) : Json.Legible depth r.value := by
  obtain ⟨deep, fields, rfl, _, outer⟩ := Json.record_some h
  split at outer
  · obtain ⟨payload, _, inner⟩ := Json.required_some outer
    obtain ⟨deeper, fields, rfl, _, members⟩ := Json.record_some inner
    split at members
    · simp only [Option.bind_eq_bind, Option.bind_eq_some_iff, Option.pure_def,
        Option.some.injEq] at members
      obtain ⟨_, _, value, found, _, _, rfl⟩ := members
      obtain ⟨w, _, read⟩ := Json.required_some found
      exact ⟨deeper, by omega, w, read⟩
    · simp at members
  · simp at outer

/-- What a server takes out of the body of a write request has been submitted, if there are no
    doubles in it. -/
theorem Proposal.submitted {body : List UInt8} {n : Node} {p : Proposal}
    (h : readProposal body n = .ok p) (exact_ : p.submission.write.Exact) :
    p.submission.write.Submitted := by
  simp only [readProposal, bind_eq_ok] at h
  obtain ⟨request, decoded, _, _, _, _, submission, apart, same⟩ := h
  obtain rfl := Except.ok.inj same
  obtain ⟨w, _, read⟩ := Option.bind_eq_some_iff.mp (decodeBody_ok decoded)
  exact ⟨exact_, request.value, _, PutRequest.legible read, takeApart_ok apart⟩

end QuorumStore
