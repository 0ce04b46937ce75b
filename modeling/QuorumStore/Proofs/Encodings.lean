import QuorumStore.Proofs.DocumentText
/-! # A value as an object and as a string

A client may send a document as it is or as a string that holds its text. Both are taken apart into
the same, down to what is wrong with them, as long as the text can be read at all: a reader of texts
goes only so deep, whereas the object has been read along with its request.
-/

namespace QuorumStore

namespace Json

mutual

/-- How deep arrays and objects stand in each other. -/
def nesting : Json → Nat
  | .null | .bool _ | .number _ | .string _ => 0
  | .array items => nestingItems items + 1
  | .object fields => nestingFields fields + 1

def nestingItems : List Json → Nat
  | [] => 0
  | item :: rest => max (nesting item) (nestingItems rest)

def nestingFields : List (String × Json) → Nat
  | [] => 0
  | (_, value) :: rest => max (nesting value) (nestingFields rest)

end

mutual

/-- Nothing but its nesting keeps a value from a reader that goes only so deep. -/
theorem Fits.of_nesting_le : ∀ (j : Json) {depth limit : Nat}, Fits depth j → nesting j ≤ limit →
    Fits limit j
  | .null, _, _, _, _ => by rw [Fits]; trivial
  | .bool _, _, _, _, _ => by rw [Fits]; trivial
  | .string _, _, _, _, _ => by rw [Fits]; trivial
  | .number (.integer _), _, _, fits, _ => by
      rw [Fits] at fits ⊢
      exact fits
  | .number (.double _), _, _, fits, _ => by
      rw [Fits] at fits
      exact fits.elim
  | .array items, depth + 1, limit, fits, le => by
      rw [Fits] at fits
      rw [nesting] at le
      obtain ⟨below, rfl⟩ := Nat.exists_eq_add_of_le' (Nat.le_of_add_left_le le)
      rw [Fits]
      exact fitsItems_of_nesting_le items fits (Nat.le_of_add_le_add_right le)
  | .object fields, depth + 1, limit, fits, le => by
      rw [Fits] at fits
      rw [nesting] at le
      obtain ⟨below, rfl⟩ := Nat.exists_eq_add_of_le' (Nat.le_of_add_left_le le)
      rw [Fits]
      exact ⟨fits.1, fitsFields_of_nesting_le fields fits.2 (Nat.le_of_add_le_add_right le)⟩

theorem fitsItems_of_nesting_le : ∀ (items : List Json) {depth limit : Nat},
    FitsItems depth items → nestingItems items ≤ limit → FitsItems limit items
  | [], _, _, _, _ => by rw [FitsItems]; trivial
  | item :: rest, _, _, fits, le => by
      rw [FitsItems] at fits ⊢
      rw [nestingItems, Nat.max_le] at le
      exact ⟨Fits.of_nesting_le item fits.1 le.1, fitsItems_of_nesting_le rest fits.2 le.2⟩

theorem fitsFields_of_nesting_le : ∀ (fields : List (String × Json)) {depth limit : Nat},
    FitsFields depth fields → nestingFields fields ≤ limit → FitsFields limit fields
  | [], _, _, _, _ => by rw [FitsFields]; trivial
  | (_, value) :: rest, _, _, fits, le => by
      rw [FitsFields] at fits ⊢
      rw [nestingFields, Nat.max_le] at le
      exact ⟨Fits.of_nesting_le value fits.1 le.1, fitsFields_of_nesting_le rest fits.2 le.2⟩

end

mutual

/-- What nests too deep is worth nothing to a reader. -/
theorem json?_written_of_deep : ∀ (j : Json) {depth : Nat}, depth < nesting j →
    (written j).json? depth = none
  | .null, _, deep | .bool _, _, deep | .number _, _, deep | .string _, _, deep => by
      rw [nesting] at deep
      exact absurd deep (Nat.not_lt_zero _)
  | .array items, 0, _ => by rw [written, Written.json?]
  | .object fields, 0, _ => by rw [written, Written.json?]
  | .array items, depth + 1, deep => by
      rw [nesting] at deep
      rw [written, Written.json?, jsonItems?_written_of_deep items (Nat.lt_of_succ_lt_succ deep)]
      rfl
  | .object fields, depth + 1, deep => by
      rw [nesting] at deep
      rw [written, Written.json?,
        jsonMembers?_written_of_deep fields (Nat.lt_of_succ_lt_succ deep)]
      rfl

theorem jsonItems?_written_of_deep : ∀ (items : List Json) {depth : Nat},
    depth < nestingItems items → Written.jsonItems? depth (writtenItems items) = none
  | [], _, deep => absurd deep (Nat.not_lt_zero _)
  | item :: rest, depth, deep => by
      rw [nestingItems, lt_max_iff] at deep
      rw [writtenItems, Written.jsonItems?]
      cases deep with
      | inl first => rw [json?_written_of_deep item first]
      | inr later =>
          rw [jsonItems?_written_of_deep rest later]
          cases (written item).json? depth <;> rfl

theorem jsonMembers?_written_of_deep : ∀ (fields : List (String × Json)) {depth : Nat},
    depth < nestingFields fields → Written.jsonMembers? depth (writtenFields fields) = none
  | [], _, deep => absurd deep (Nat.not_lt_zero _)
  | (key, value) :: rest, depth, deep => by
      rw [nestingFields, lt_max_iff] at deep
      rw [writtenFields, Written.jsonMembers?, string?_pieces]
      cases deep with
      | inl first => rw [json?_written_of_deep value first]
      | inr later =>
          rw [jsonMembers?_written_of_deep rest later]
          cases (written value).json? depth <;> rfl

end

/-- The text of a value is read back unless it nests too deep. -/
theorem ofString_compact {j : Json} {depth : Nat} (valid : Fits depth j) :
    ofString j.compact = if nesting j ≤ Written.maxDepth then some j else none := by
  rw [ofString, compact, String.toList_ofList, parse?, read?_print (valid.exact j), Option.bind_some]
  by_cases shallow : nesting j ≤ Written.maxDepth
  · rw [if_pos shallow]
    exact json?_written j (valid.of_nesting_le j shallow)
  · rw [if_neg shallow]
    exact json?_written_of_deep j (Nat.lt_of_not_le shallow)

end Json

/-! ## Taking values apart -/

variable {fields : Json.Fields} {depth : Nat}

theorem Submission.ofValue_compact (valid : Json.Fits depth (.object fields)) :
    Submission.ofValue (.string (Json.object fields).compact) =
      if (Json.object fields).nesting ≤ Written.maxDepth then Submission.ofValue (.object fields)
      else .error .valueText := by
  rw [Submission.ofValue, if_neg (Json.compact_object_ne_tombstoneText fields),
    Json.ofString_compact valid]
  by_cases shallow : (Json.object fields).nesting ≤ Written.maxDepth
  · rw [if_pos shallow, if_pos shallow]
    rfl
  · rw [if_neg shallow, if_neg shallow]

/-- Of a request nothing counts but what its body is read as, and of the value in it nothing but what
    it is taken apart into. -/
theorem stageValue_congr {key : String} {token : Option String} {value value' : Json}
    {body body' : List UInt8} (same : takeApart value = takeApart value')
    (read : decodeBody PutRequest.reading body = .ok ⟨key, value, token⟩)
    (read' : decodeBody PutRequest.reading body' = .ok ⟨key, value', token⟩) (verify : Verifier)
    (m : Member) : stageValue verify body m = stageValue verify body' m := by
  have proposals : readProposal body m.node = readProposal body' m.node := by
    simp only [readProposal, read, read', bind, Except.bind, same]
  rw [stageValue, stageValue, proposals]

/-- A document without doubles is taken apart into the same whether it is sent as an object or as a
    string with its text, and two requests that differ in nothing else are treated alike. Only where
    it nests deeper than a text may, the string is refused. -/
theorem encoded_values_count_as_inline (valid : Json.Fits depth (.object fields)) :
    ((Json.object fields).nesting ≤ 127 →
      takeApart (.string (Json.object fields).compact) = takeApart (.object fields) ∧
      ∀ (key : String) (token : Option String) (encoded inline : List UInt8),
        decodeBody PutRequest.reading encoded =
          .ok ⟨key, .string (Json.object fields).compact, token⟩ →
        decodeBody PutRequest.reading inline = .ok ⟨key, .object fields, token⟩ →
        ∀ (verify : Verifier) (m : Member),
          stageValue verify encoded m = stageValue verify inline m) ∧
    (127 < (Json.object fields).nesting →
      takeApart (.string (Json.object fields).compact) = .error (.malformedRequest .valueText)) := by
  have taken := Submission.ofValue_compact valid
  rw [Written.maxDepth] at taken
  constructor
  · intro shallow
    have same : takeApart (.string (Json.object fields).compact) = takeApart (.object fields) := by
      rw [takeApart, takeApart, taken, if_pos shallow]
    refine ⟨same, fun key token encoded inline read read' verify m => ?_⟩
    exact stageValue_congr same read read' verify m
  · intro deep
    rw [takeApart, taken, if_neg (Nat.not_le_of_lt deep)]

/-- A document with a token, with a version that takes some reading, and with more inside it. -/
def intricate : Json.Fields :=
  [("list", .array [.object [("q", .string "\"\\\u0001")], .number (.integer (-1))]),
    ("token", .string "t"), ("version_number", .string " +07 ")]

theorem encoded_values_count_as_inline_of_an_intricate_one :
    (Json.object intricate).nesting = 3 ∧
    takeApart (.string (Json.object intricate).compact) =
      .ok ⟨.upsert 7 ⟨[("list", .array [.object [("q", .string "\"\\\u0001")],
        .number (.integer (-1))])]⟩, some "t"⟩ := by
  have valid : Json.Fits 3 (.object intricate) :=
    ⟨by decide, by simp [intricate, Json.Fits, Json.FitsFields, Json.FitsItems]⟩
  have nested : (Json.object intricate).nesting = 3 := rfl
  have agree := (encoded_values_count_as_inline valid).1 (by rw [nested]; decide)
  refine ⟨nested, ?_⟩
  rw [agree.1]
  rfl

end QuorumStore
