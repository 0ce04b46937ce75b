import QuorumStore.Proofs.DocumentText
/-! # What counts as a version

A write may replace only the version it says, so a text must not count as the version of another
one, nor may a numeral that is too long count as the number of its first digits. The grammar of
versions is written down here, and a version is read exactly if it is in the grammar. What a stored
text says about its own version is in the grammar, too.
-/

namespace QuorumStore

variable {j : Json} {n : Nat}

/-- A number as there are any: an integer has 64 bits, signed or not. What is written with more
    digits is read as a double, so every number that is read fits. -/
def Number.Fits : Number → Prop
  | .integer i => -9223372036854775808 ≤ i ∧ i < 18446744073709551616
  | .double _ => True

theorem Json.Legible.number_fits {limit : Nat} (h : Json.Legible limit j) :
    ∀ x, j = .number x → x.Fits := by
  rintro x rfl
  cases x with
  | integer i => exact h.integer
  | double x => trivial

/-! ## The grammar -/

/-- What a client may send for a version. -/
inductive IsVersion : Json → Nat → Prop where
  | number {n : Nat} (small : n < Decimal.limit64) : IsVersion (.ofNat n) n
  | text {s : String} {before sign digits after : List Char} {n : Nat}
      (letters : s.toList = before ++ (sign ++ digits) ++ after) (front : Text.Blanks before)
      (plus : Decimal.Plus sign) (denotes : Decimal.Denotes digits n) (back : Text.Blanks after)
      (small : n < Decimal.limit64) : IsVersion (.string s) n

/-- There is nothing to trim about a numeral. -/
theorem trim_numeral {sign digits : List Char} (plus : Decimal.Plus sign)
    (denotes : Decimal.Denotes digits n) : Text.trim (sign ++ digits) = sign ++ digits := by
  refine Text.trim_of_solid fun c mem => ?_
  cases List.mem_append.mp mem with
  | inl inSign =>
      cases plus with
      | inl none => simp [none] at inSign
      | inr one =>
          rw [one, List.mem_singleton] at inSign
          rw [inSign]
          decide
  | inr inDigits => exact Text.isBlank_of_isDigit (denotes.isDigit c inDigits)

theorem parseVersion_string_iff {s : String} :
    parseVersion (.string s) = .ok n ↔ IsVersion (.string s) n := by
  have read : parseVersion (.string s) = .ok n ↔
      Decimal.below? Decimal.limit64 (Text.trim s.toList) = some n := by
    rw [parseVersion]
    cases Decimal.below? Decimal.limit64 (Text.trim s.toList) <;> simp
  rw [read, Decimal.below?_eq_some_iff]
  constructor
  · rintro ⟨sign, digits, trimmed, plus, denotes, small⟩
    obtain ⟨before, after, front, back, whole⟩ := Text.exists_surround s.toList
    rw [trimmed] at whole
    exact .text whole.symm front plus denotes back small
  · intro version
    cases version with
    | text letters front plus denotes back small =>
        refine ⟨_, _, ?_, plus, denotes, small⟩
        rw [letters, Text.trim_surround front back, trim_numeral plus denotes]

theorem parseVersion_integer_iff {i : Int} (fits : (Number.integer i).Fits) :
    parseVersion (.number (.integer i)) = .ok n ↔ IsVersion (.number (.integer i)) n := by
  constructor
  · intro read
    cases i with
    | ofNat m =>
        obtain rfl := Except.ok.inj ((parseVersion_ofNat m).symm.trans read)
        exact .number (Int.ofNat_lt.mp fits.2)
    | negSucc m => simp [parseVersion, Number.natural?] at read
  · intro version
    cases version with
    | number small => exact parseVersion_ofNat n

/-- A version is read exactly if it is in the grammar. -/
theorem parseVersion_eq_ok_iff (fits : ∀ x, j = .number x → x.Fits) :
    parseVersion j = .ok n ↔ IsVersion j n := by
  cases j with
  | string s => exact parseVersion_string_iff
  | number x =>
      cases x with
      | integer i => exact parseVersion_integer_iff (fits _ rfl)
      | double x =>
          constructor
          · intro read
            simp [parseVersion, Number.natural?] at read
          · intro version
            cases version
  | _ =>
      constructor
      · intro read
        simp [parseVersion] at read
      · intro version
        cases version

/-! ## What is refused -/

/-- There is one way to refuse a version. -/
theorem parseVersion_cases (j : Json) :
    (∃ n, parseVersion j = .ok n) ∨ parseVersion j = .error .versionInvalid := by
  unfold parseVersion
  split
  · split
    · exact .inl ⟨_, rfl⟩
    · exact .inr rfl
  · split
    · exact .inl ⟨_, rfl⟩
    · exact .inr rfl
  · exact .inr rfl

theorem takeApart_refused {fields : Json.Fields} (sent : fields.get? versionField = some j)
    (refused : parseVersion j = .error .versionInvalid) :
    takeApart (.object fields) = .error (.malformedRequest .versionInvalid) := by
  have kept : (fields.erase tokenField).get? versionField = some j := by
    rw [Json.get?_erase_of_ne (by decide), sent]
  simp only [takeApart, Submission.ofValue, Submission.ofObject, Submission.ofFields, kept, refused]

/-- A version is read exactly if it is a natural number of 64 bits, or a string with one in it:
    blanks, a plus sign or none, digits that may begin with zeros, blanks. Whatever else a client
    sends for a version makes its request malformed. The string that stands in the text of a stored
    document is the numeral of its version, and is read as that version. -/
theorem accepted_versions_are_numerals (fits : ∀ x, j = .number x → x.Fits) :
    (∀ n, parseVersion j = .ok n ↔ IsVersion j n) ∧
    ((∀ n, ¬ IsVersion j n) → parseVersion j = .error .versionInvalid ∧
      ∀ fields : Json.Fields, fields.get? versionField = some j →
        takeApart (.object fields) = .error (.malformedRequest .versionInvalid)) ∧
    ∀ (d : Document) (version : Nat), version < Decimal.limit64 →
      d.render version = (Json.object (d.stored version)).compact ∧
      (d.Storable → Json.ofString (d.render version) = some (.object (d.stored version))) ∧
      ∃ s, (d.stored version).get? versionField = some (.string s) ∧
        Decimal.Denotes s.toList version ∧ parseVersion (.string s) = .ok version := by
  refine ⟨fun n => parseVersion_eq_ok_iff fits, ?_, ?_⟩
  · intro none
    have refused : parseVersion j = .error .versionInvalid := by
      cases parseVersion_cases j with
      | inl read =>
          obtain ⟨n, read⟩ := read
          exact absurd ((parseVersion_eq_ok_iff fits).mp read) (none n)
      | inr refused => exact refused
    exact ⟨refused, fun fields sent => takeApart_refused sent refused⟩
  · intro d version small
    refine ⟨rfl, fun storable => storable.ofString_render version, Decimal.text version,
      Document.Storable.get?_version version, ?_, parseVersion_text small⟩
    rw [Decimal.text, String.toList_ofList]
    exact Decimal.denotes_digits version

/-- The greatest version as a number, as a string and as it is stored. The number after it is a
    double where it is read from a text, and no version. -/
theorem accepted_versions_are_numerals_up_to_the_limit :
    (∃ j, Json.ofString "18446744073709551615" = some j ∧ IsVersion j 18446744073709551615) ∧
    (∃ j, Json.ofString "18446744073709551616" = some j ∧
      takeApart (.object [("version_number", j)]) = .error (.malformedRequest .versionInvalid)) ∧
    IsVersion (.string "\u2003+018446744073709551615\t") 18446744073709551615 ∧
    (Json.ofString (Document.render ⟨[]⟩ 18446744073709551615)).bind (Json.get? "version_number") =
      some (.string "18446744073709551615") := by
  have greatest : (Json.ofString "18446744073709551615").map parseVersion =
      some (.ok 18446744073709551615) := by decide +kernel
  have beyond : (Json.ofString "18446744073709551616").map parseVersion =
      some (.error .versionInvalid) := by decide +kernel
  obtain ⟨j, read, accepted⟩ := Option.map_eq_some_iff.mp greatest
  obtain ⟨j', read', refused⟩ := Option.map_eq_some_iff.mp beyond
  obtain ⟨versions, _, stored⟩ :=
    accepted_versions_are_numerals (Json.legible_of_ofString read).number_fits
  obtain ⟨versions', malformed, _⟩ :=
    accepted_versions_are_numerals (Json.legible_of_ofString read').number_fits
  obtain ⟨padded, _⟩ :=
    accepted_versions_are_numerals (j := .string "\u2003+018446744073709551615\t") nofun
  have none : ∀ n, ¬ IsVersion j' n := by
    intro n version
    have taken := (versions' n).mpr version
    rw [refused] at taken
    cases taken
  have storable : Document.Storable ⟨[]⟩ := ⟨.nil, nofun, rfl, rfl⟩
  obtain ⟨_, text, _⟩ := stored ⟨[]⟩ 18446744073709551615 (by decide)
  refine ⟨⟨j, read, (versions _).mp accepted⟩, ⟨j', read', (malformed none).2 _ rfl⟩,
    (padded _).mp (by decide +kernel), ?_⟩
  rw [text storable]
  rfl

end QuorumStore
