import QuorumStore.Client
import QuorumStore.Proofs.JsonText
import Mathlib.Data.String.Basic
/-! # Messages there and back

A message is sent as an object with its members in the order of its fields, and read as a record. A
record asks for its fields by name, so it does not matter in which order they come, as long as no
name stands twice.
-/

namespace QuorumStore

namespace Json

variable {depth : Nat} {key name : String} {j : Json} {fields pairs a b : Fields}

/-! ## Members -/

theorem get?_insert (key name : String) (j : Json) (fields : Fields) :
    (fields.insert key j).get? name = if key = name then some j else fields.get? name := by
  induction fields with
  | nil => rfl
  | cons field fields ih =>
      obtain ⟨k, v⟩ := field
      rw [Fields.insert]
      split
      · rfl
      split
      · rename_i same
        subst same
        simp only [Fields.get?]
        split <;> rfl
      · rename_i other
        simp only [Fields.get?, ih]
        by_cases same : k = name
        · rw [if_pos same, if_pos same, if_neg fun h => other (h.trans same.symm)]
        · rw [if_neg same, if_neg same]

theorem get?_eq_none (absent : ∀ field ∈ fields, field.1 ≠ key) : fields.get? key = none := by
  induction fields with
  | nil => rfl
  | cons field fields ih =>
      obtain ⟨k, v⟩ := field
      rw [Fields.get?, if_neg (absent (k, v) List.mem_cons_self)]
      exact ih fun field mem => absent field (List.mem_cons_of_mem _ mem)

theorem mem_insert {field : String × Json} (h : field ∈ fields.insert key j) :
    field = (key, j) ∨ field ∈ fields := by
  induction fields with
  | nil => exact .inl (List.mem_singleton.mp h)
  | cons first fields ih =>
      obtain ⟨k, v⟩ := first
      rw [Fields.insert] at h
      split at h
      · exact List.mem_cons.mp h
      split at h
      · exact (List.mem_cons.mp h).imp_right (List.mem_cons_of_mem _)
      · rcases List.mem_cons.mp h with rfl | h
        · exact .inr List.mem_cons_self
        · exact (ih h).imp_right (List.mem_cons_of_mem _)

theorem sorted_insert (sorted : fields.Pairwise (·.1 < ·.1)) :
    (fields.insert key j).Pairwise (·.1 < ·.1) := by
  induction fields with
  | nil => exact List.pairwise_singleton _ _
  | cons first fields ih =>
      obtain ⟨k, v⟩ := first
      obtain ⟨below, rest⟩ := List.pairwise_cons.mp sorted
      rw [Fields.insert]
      split
      · rename_i before
        refine List.pairwise_cons.mpr ⟨fun field h => ?_, sorted⟩
        rcases List.mem_cons.mp h with rfl | h
        · exact before
        · exact String.lt_trans before (below field h)
      split
      · rename_i same
        subst same
        exact List.pairwise_cons.mpr ⟨below, rest⟩
      · rename_i notBefore other
        refine List.pairwise_cons.mpr ⟨fun field h => ?_, ih rest⟩
        rcases mem_insert h with rfl | h
        · exact lt_of_le_of_ne (String.not_lt.mp notBefore) (Ne.symm other)
        · exact below field h

/-- The object of some members has them sorted, and every one of them is among those given. -/
theorem ofList_cases (pairs : Fields) : (Fields.ofList pairs).Pairwise (·.1 < ·.1) ∧
    ∀ field ∈ Fields.ofList pairs, field ∈ pairs := by
  induction pairs using List.reverseRecOn with
  | nil => exact ⟨List.Pairwise.nil, fun _ h => h⟩
  | append_singleton pairs pair ih =>
      obtain ⟨sorted, given⟩ := ih
      rw [ofList_concat]
      refine ⟨sorted_insert sorted, fun field h => ?_⟩
      rcases mem_insert h with rfl | h
      · exact List.mem_append_right _ (List.mem_singleton_self _)
      · exact List.mem_append_left _ (given field h)

theorem get?_ofList (pairs : Fields) (name : String) :
    (Fields.ofList pairs).get? name = Fields.get? name pairs.reverse := by
  induction pairs using List.reverseRecOn with
  | nil => rfl
  | append_singleton pairs pair ih =>
      rw [ofList_concat, get?_insert, ih, List.reverse_append]
      rfl

theorem fitsFields_iff : FitsFields depth fields ↔ ∀ field ∈ fields, Fits depth field.2 := by
  induction fields with
  | nil => simp [FitsFields]
  | cons field fields ih =>
      obtain ⟨k, v⟩ := field
      simp [FitsFields, ih]

theorem fits_ofFields (fit : ∀ pair ∈ pairs, Fits depth pair.2) :
    Fits (depth + 1) (ofFields pairs) := by
  obtain ⟨sorted, given⟩ := ofList_cases pairs
  rw [ofFields, Fits]
  exact ⟨sorted, fitsFields_iff.mpr fun field h => fit field (given field h)⟩

/-! ## Records -/

theorem named?_written (fields : Fields) :
    named? (writtenFields fields) = some (fields.map fun (key, j) => (key, written j)) := by
  induction fields with
  | nil => rfl
  | cons field fields ih =>
      obtain ⟨k, v⟩ := field
      rw [named?] at ih ⊢
      simp [writtenFields, string?_pieces, ih]

theorem distinct_of_sorted (sorted : fields.Pairwise (·.1 < ·.1)) :
    (fields.map Prod.fst).Nodup :=
  List.pairwise_map.mpr (sorted.imp String.ne_of_lt)

theorem single?_written (distinct : (fields.map Prod.fst).Nodup) (name : String) :
    single? (fields.map fun (key, j) => (key, written j)) name =
      some ((fields.get? name).map written) := by
  induction fields with
  | nil => rfl
  | cons field fields ih =>
      obtain ⟨k, v⟩ := field
      obtain ⟨fresh, rest⟩ := List.nodup_cons.mp distinct
      have others := ih rest
      by_cases same : k = name
      · subst same
        have none : (fields.map fun (key, j) => (key, written j)).filter (·.1 == k) = [] := by
          refine List.filter_eq_nil_iff.mpr fun field h => ?_
          obtain ⟨⟨k', j⟩, mem, rfl⟩ := List.mem_map.mp h
          intro again
          exact fresh (List.mem_map.mpr ⟨(k', j), mem, eq_of_beq again⟩)
        simp [single?, none, Fields.get?]
      · rw [single?] at others ⊢
        simp only [List.map_cons, Fields.get?, if_neg same]
        rw [List.filter_cons_of_neg (by simpa using same)]
        exact others

/-- A record finds under every name what the object has there. -/
theorem entries?_written (distinct : (fields.map Prod.fst).Nodup) (names : List String) :
    entries? names (written (.object fields)) =
      some (names.map fun name => (fields.get? name).map written) := by
  rw [written, entries?, named?_written, Option.bind_some]
  induction names with
  | nil => rfl
  | cons name names ih => simp [single?_written distinct, ih]

section Records

variable {α : Type} {names : List String} {members : List (String × Option Json)}

/-- A record reads what an object has under the names of its fields. -/
theorem record_object (read : Nat → List (Option Written) → Option α)
    (distinct : (fields.map Prod.fst).Nodup) :
    record names read (depth + 1) (written (.object fields)) =
      read depth (names.map fun name => (fields.get? name).map written) := by
  rw [record, entries?_written distinct, Option.bind_some]

theorem record_written (names : List String) (read : Nat → List (Option Written) → Option α)
    (pairs : Fields) :
    record names read (depth + 1) (written (ofFields pairs)) =
      read depth (names.map fun name => (Fields.get? name pairs.reverse).map written) := by
  have distinct := distinct_of_sorted (ofList_cases pairs).1
  simp only [ofFields, record_object read distinct, get?_ofList]

theorem keys_present (members : List (String × Option Json)) :
    ((Fields.present members).map Prod.fst).Sublist (members.map Prod.fst) := by
  induction members with
  | nil => exact .slnil
  | cons member members ih =>
      obtain ⟨name, value⟩ := member
      cases value with
      | none => exact ih.cons name
      | some j => exact ih.cons_cons name

theorem get?_present {value : Option Json} (distinct : (members.map Prod.fst).Nodup)
    (mem : (name, value) ∈ members) : (Fields.present members).get? name = value := by
  induction members with
  | nil => simp at mem
  | cons member members ih =>
      obtain ⟨first, value'⟩ := member
      obtain ⟨fresh, rest⟩ := List.nodup_cons.mp distinct
      cases List.mem_cons.mp mem with
      | inl same =>
          obtain ⟨rfl, rfl⟩ := Prod.mk.inj same
          cases value with
          | none =>
              refine get?_eq_none fun field there same => fresh ?_
              exact (keys_present members).subset (List.mem_map.mpr ⟨field, there, same⟩)
          | some j => exact if_pos rfl
      | inr later =>
          have other : first ≠ name := by
            rintro rfl
            exact fresh (List.mem_map.mpr ⟨_, later, rfl⟩)
          have found := ih rest later
          cases value' with
          | none => exact found
          | some j => exact (if_neg other).trans found

/-- A record reads its own fields, those without a value among them. -/
theorem record_present (read : Nat → List (Option Written) → Option α)
    (named : members.map Prod.fst = names) (distinct : names.Nodup) :
    record names read (depth + 1) (written (.object (Fields.present members))) =
      read depth (members.map fun member => member.2.map written) := by
  subst named
  rw [record_object read (distinct.sublist (keys_present members)), List.map_map]
  refine congrArg (read depth) (List.map_congr_left fun member mem => ?_)
  exact congrArg (Option.map written) (get?_present distinct mem)

theorem exact_present (exact_ : ∀ member ∈ members, ∀ j, member.2 = some j → Exact j) :
    Exact (.object (Fields.present members)) := by
  rw [Exact, exactFields_iff]
  intro field mem
  obtain ⟨member, listed, there⟩ := List.mem_filterMap.mp mem
  obtain ⟨j, found, rfl⟩ := Option.map_eq_some_iff.mp there
  exact exact_ member listed j found

end Records

theorem optional_some {α : Type} (read : Reading α) (default : α) (w : Written) :
    optional read default depth (some w) = read depth w := rfl

theorem optional_text (s : Option String) :
    optional (.nullable .string) none depth ((s.map Json.string).map written) = some s := by
  cases s with
  | none => rfl
  | some s => simp [optional, Reading.nullable, Reading.string, written, string?_pieces]

theorem exact_text (s : Option String) : ∀ j, s.map Json.string = some j → Exact j := by
  intro j found
  obtain ⟨s, _, rfl⟩ := Option.map_eq_some_iff.mp found
  trivial

theorem optional_any {j? : Option Json} (fits : ∀ j, j? = some j → j ≠ .null ∧ Fits depth j) :
    optional (.nullable .any) none depth (j?.map written) = some j? := by
  cases j? with
  | none => rfl
  | some j =>
      obtain ⟨notNull, fit⟩ := fits j rfl
      have value := json?_written j fit
      -- the reader takes a null for a missing member
      have other : written j ≠ .null := by
        cases j with
        | null => exact absurd rfl notNull
        | number n => cases n <;> simp [written, Fits] at fit ⊢
        | _ => simp [written]
      rw [Option.map_some, optional, Reading.nullable]
      · rw [Reading.any, value, Option.map_some]
      · exact other

/-! ## Plain values -/

theorem exact_ofNat (n : Nat) : Exact (ofNat n) := by
  rw [ofNat, Exact]
  trivial

theorem fits_ofNat {n : Nat} (small : n < Decimal.limit64) : Fits depth (ofNat n) := by
  rw [Decimal.limit64] at small
  rw [ofNat, Fits]
  omega

theorem natural_written {n : Nat} (small : n < Decimal.limit64) :
    Reading.natural depth (written (ofNat n)) = some n := by
  rw [Decimal.limit64] at small
  have number := number?_numeral (i := n) (by omega) (by omega)
  rw [ofNat, written, Reading.natural, number]
  simp [Number.natural?]

theorem string_written (s : String) : Reading.string depth (written (.string s)) = some s :=
  string?_pieces s

theorem nullable_text (s : String) :
    Reading.nullable .string depth (written (.string s)) = some (some s) :=
  optional_text (some s)

theorem bool_written (b : Bool) : Reading.bool depth (written (.bool b)) = some b := by
  rw [written, Reading.bool]

theorem writtenItems_eq (items : List Json) : writtenItems items = items.map written := by
  induction items with
  | nil => rfl
  | cons item items ih => rw [writtenItems, ih, List.map_cons]

theorem fitsItems_iff {items : List Json} :
    FitsItems depth items ↔ ∀ item ∈ items, Fits depth item := by
  induction items with
  | nil => simp [FitsItems]
  | cons item items ih => simp [FitsItems, ih]

theorem list_written {α : Type} {item : Reading α} {toJson : α → Json} {xs : List α}
    (read : ∀ x ∈ xs, item depth (written (toJson x)) = some x) :
    Reading.list item (depth + 1) (written (.array (xs.map toJson))) = some xs := by
  rw [written, writtenItems_eq, Reading.list]
  induction xs with
  | nil => rfl
  | cons x xs ih =>
      have rest := ih fun y mem => read y (List.mem_cons_of_mem x mem)
      simp only [List.map_cons, List.mapM_cons, read x List.mem_cons_self, rest]
      rfl

theorem oneOf_written {α : Type} (named : String → Option α) (s : String) :
    Reading.oneOf named depth (written (.string s)) = named s := by
  rw [written, Reading.oneOf, string?_pieces, Option.bind_some]

/-! ## Tagged values -/

theorem worth_string (s : String) : ∃ j, (written (.string s)).json? depth = some j :=
  ⟨.string s, json?_written _ (by trivial)⟩

theorem worth_ofNat {n : Nat} (small : n < Decimal.limit64) :
    ∃ j, (written (ofNat n)).json? depth = some j :=
  ⟨ofNat n, json?_written _ (fits_ofNat small)⟩

/-- What is printed of an object is worth something if everything in it is. -/
theorem worth_object
    (worth : ∀ field ∈ fields, ∃ j, (written field.2).json? depth = some j) :
    ∃ j, (written (.object fields)).json? (depth + 1) = some j := by
  suffices members : ∃ pairs, Written.jsonMembers? depth (writtenFields fields) = some pairs by
    obtain ⟨pairs, value⟩ := members
    exact ⟨ofFields pairs, by rw [written, Written.json?, value, Option.map_some]⟩
  induction fields with
  | nil => exact ⟨[], rfl⟩
  | cons field fields ih =>
      obtain ⟨key, v⟩ := field
      obtain ⟨j, value⟩ := worth (key, v) List.mem_cons_self
      obtain ⟨pairs, rest⟩ := ih fun field mem => worth field (List.mem_cons_of_mem _ mem)
      exact ⟨(key, j) :: pairs, by rw [writtenFields, Written.jsonMembers?, string?_pieces, value, rest]⟩

theorem writtenFields_eq (fields : Fields) :
    writtenFields fields = fields.map fun field => (pieces field.1, written field.2) := by
  induction fields with
  | nil => rfl
  | cons field fields ih => rw [writtenFields, ih, List.map_cons]

/-- A tagged value is read by its variant from the members after its tag. -/
theorem tagged_written {α : Type} {tag variant : String}
    (read : Nat → String → Written → Option α)
    (distinct : (((tag, .string variant) :: fields).map Prod.fst).Nodup)
    (worth : ∃ j, (written (.object ((tag, .string variant) :: fields))).json? (depth + 1) =
      some j) :
    tagged tag read (depth + 1) (written (.object ((tag, .string variant) :: fields))) =
      read depth variant (written (.object fields)) := by
  obtain ⟨j, value⟩ := worth
  have single := single?_written distinct tag
  have others : (writtenFields fields).filter (Piece.string? ·.1 != some tag) =
      writtenFields fields := by
    refine List.filter_eq_self.mpr fun member mem => ?_
    rw [writtenFields_eq] at mem
    obtain ⟨field, there, rfl⟩ := List.mem_map.mp mem
    have other : field.1 ≠ tag := by
      rintro rfl
      exact (List.nodup_cons.mp distinct).1 (List.mem_map.mpr ⟨field, there, rfl⟩)
    simp [string?_pieces, other]
  rw [written] at value ⊢
  simp only [tagged, value, named?_written, Option.bind_some, single, Fields.get?, if_pos,
    Option.map_some, written, string?_pieces]
  rw [writtenFields, List.filter_cons_of_neg (by simp [string?_pieces]), others]

end Json

/-! ## Replies to clients -/

namespace ClientReply

open Json

variable {r : ClientReply}

theorem exact_toJson (payload : ∀ j, r.payload = some j → Exact j) : Exact r.toJson := by
  apply exact_present
  simp only [List.forall_mem_cons]
  exact ⟨exact_text (some _), exact_text r.message, exact_text r.error, exact_text r.redirect,
    payload, List.forall_mem_nil _⟩

theorem codeNamed_codeName (code : ReplyCode) : codeNamed (codeName code) = some code := by
  cases code with
  | success => rfl
  | fail => rfl

/-- A reply is read back from what it is written as. -/
theorem reading_toJson (payload : ∀ j, r.payload = some j → j ≠ .null ∧ Fits 126 j) :
    reading Written.maxDepth (written r.toJson) = some r := by
  have rest := optional_any payload
  rw [toJson, reading, Written.maxDepth, record_present]
  · simp [required, oneOf_written, codeNamed_codeName, optional_text, rest, -Option.map_map]
  · rfl
  · decide

theorem payload_success (p : RecordPayload) :
    ∀ j, (success p).payload = some j → j ≠ .null ∧ Fits 126 j := by
  intro j found
  obtain rfl := Option.some.inj found
  refine ⟨by simp [RecordPayload.toJson, Json.ofFields], Json.fits_ofFields fun pair h => ?_⟩
  rcases List.mem_cons.mp h with rfl | h
  · trivial
  · obtain rfl := List.mem_singleton.mp h
    trivial

theorem payload_failure (e : NodeError) :
    ∀ j, (failure e).payload = some j → j ≠ .null ∧ Fits 126 j := by
  intro j found
  cases e with
  | notLeader leader =>
      obtain rfl := Option.some.inj found
      refine ⟨by simp [Json.ofFields], Json.fits_ofFields fun pair h => ?_⟩
      obtain rfl := List.mem_singleton.mp h
      cases leader <;> trivial
  | _ => simp [ClientReply.failure] at found

end ClientReply

theorem clientReply_bytes {r : ClientReply} (url : String) (status : Nat)
    (payload : ∀ j, r.payload = some j → j ≠ .null ∧ Json.Fits 126 j) :
    clientReply url (some ⟨status, r.toJson.bytes⟩) = .ok r := by
  have exact_ : Json.Exact r.toJson := ClientReply.exact_toJson fun j found =>
    (payload j found).2.exact j
  rw [clientReply, Json.decode?_bytes _ exact_, ClientReply.reading_toJson payload]

theorem clientReply_success (url : String) (status : Nat) (p : RecordPayload) :
    clientReply url (some ⟨status, (ClientReply.success p).toJson.bytes⟩) = .ok (.success p) :=
  clientReply_bytes url status (ClientReply.payload_success p)

theorem clientReply_failure (url : String) (status : Nat) (e : NodeError) :
    clientReply url (some ⟨status, (ClientReply.failure e).toJson.bytes⟩) = .ok (.failure e) :=
  clientReply_bytes url status (ClientReply.payload_failure e)

end QuorumStore
