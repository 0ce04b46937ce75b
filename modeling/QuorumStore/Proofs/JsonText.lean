import QuorumStore.Json.Printer
import QuorumStore.Json.Reading
import QuorumStore.Proofs.Utf8Text
import Mathlib.Data.List.Induction
import Mathlib.Data.String.Basic
/-! # JSON there and back

What is printed is read back: first as it was written, then as the value it was. The former holds for
values without doubles, in whatever order their members stand; the latter for those whose integers
fit 64 bits, whose members are sorted, and which nest no deeper than a reader goes.
-/

namespace QuorumStore.Json

variable {c e : Char} {rest : Source} {n : Nat}

/-! ## Strings -/

/-- What a printed character is read as. A control character without a short escape comes as a code
    point. -/
def piece (c : Char) : Piece :=
  if c.toNat < 0x20 ∧ c ∉ ['\x08', '\x0c', '\n', '\r', '\t'] then .unit c.toNat else .char c

def pieces (s : String) : List Piece := s.toList.map piece

theorem hexUnit?_hexDigit : ∀ n < 0x20, hexUnit? (some '0') (some '0') (some (hexDigit (n / 16)))
    (some (hexDigit (n % 16))) = some n := by
  decide

theorem stringTail_short (notUnit : e ≠ 'u') (means : unescape? e = some c) :
    stringTail (some '\\' :: some e :: rest) =
      (stringTail rest).map fun (ps, after) => (.char c :: ps, after) := by
  rw [stringTail.eq_def]
  simp only [if_neg notUnit, means]
  cases stringTail rest <;> rfl

theorem stringTail_unit {h₁ h₂ h₃ h₄ : Option Char} (means : hexUnit? h₁ h₂ h₃ h₄ = some n) :
    stringTail (some '\\' :: some 'u' :: h₁ :: h₂ :: h₃ :: h₄ :: rest) =
      (stringTail rest).map fun (ps, after) => (.unit n :: ps, after) := by
  rw [stringTail.eq_def]
  simp only [means]
  cases stringTail rest <;> rfl

theorem stringTail_plain (notQuote : c ≠ '"') (notBackslash : c ≠ '\\')
    (printed : ¬ c.toNat < 0x20) :
    stringTail (some c :: rest) =
      (stringTail rest).map fun (ps, after) => (.char c :: ps, after) := by
  rw [stringTail.eq_def]
  simp only [if_neg notQuote, if_neg notBackslash, if_neg printed]

theorem stringTail_escape (c : Char) (rest : Source) :
    stringTail ((escape c).map some ++ rest) =
      (stringTail rest).map fun (ps, after) => (piece c :: ps, after) := by
  by_cases short : c ∈ ['"', '\\', '\x08', '\x0c', '\n', '\r', '\t']
  · obtain ⟨e, escaped, notUnit, means, same⟩ : ∃ e, escape c = ['\\', e] ∧ e ≠ 'u' ∧
        unescape? e = some c ∧ piece c = .char c := by
      simp only [List.mem_cons, List.not_mem_nil, or_false] at short
      rcases short with rfl | rfl | rfl | rfl | rfl | rfl | rfl <;>
        exact ⟨_, rfl, by decide, rfl, rfl⟩
    rw [escaped, same]
    exact stringTail_short notUnit means
  · simp only [List.mem_cons, List.not_mem_nil, or_false, not_or] at short
    obtain ⟨notQuote, notBackslash, notB, notF, notN, notR, notT⟩ := short
    by_cases control : c.toNat < 0x20
    · have escaped : escape c =
          ['\\', 'u', '0', '0', hexDigit (c.toNat / 16), hexDigit (c.toNat % 16)] := by
        simp [escape, *]
      have same : piece c = .unit c.toNat := by simp [piece, *]
      rw [escaped, same]
      exact stringTail_unit (hexUnit?_hexDigit c.toNat control)
    · have escaped : escape c = [c] := by simp [escape, *]
      have same : piece c = .char c := by simp [piece, control]
      rw [escaped, same]
      exact stringTail_plain notQuote notBackslash control

theorem stringTail_escapes (cs : List Char) (rest : Source) :
    stringTail ((cs.flatMap escape).map some ++ some '"' :: rest) = some (cs.map piece, rest) := by
  induction cs with
  | nil => exact stringTail.eq_def _
  | cons c cs ih =>
      rw [List.flatMap_cons, List.map_append, List.append_assoc, stringTail_escape, ih]
      rfl

theorem quote_source (s : String) (rest : Source) : (quote s).map some ++ rest =
    some '"' :: ((s.toList.flatMap escape).map some ++ some '"' :: rest) := by
  simp [quote]

theorem text?_unit {ps : List Piece} (low : n < 0xD800) (means : Utf8.ofCode? n = some c) :
    Piece.text? (.unit n :: ps) = (Piece.text? ps).map (c :: ·) := by
  have noSurrogate : ¬ (0xD800 ≤ n ∧ n < 0xDC00) := by omega
  rw [Piece.text?.eq_def]
  simp only [if_neg noSurrogate, means]
  cases Piece.text? ps <;> rfl

theorem text?_piece (c : Char) (ps : List Piece) :
    Piece.text? (piece c :: ps) = (Piece.text? ps).map (c :: ·) := by
  by_cases control : c.toNat < 0x20 ∧ c ∉ ['\x08', '\x0c', '\n', '\r', '\t']
  · rw [piece, if_pos control]
    exact text?_unit (Nat.lt_trans control.1 (by decide)) (Utf8.ofCode?_toNat c)
  · rw [piece, if_neg control, Piece.text?]

theorem string?_pieces (s : String) : Piece.string? (pieces s) = some s := by
  have text : ∀ cs : List Char, Piece.text? (cs.map piece) = some cs := by
    intro cs
    induction cs with
    | nil => rfl
    | cons c cs ih => rw [List.map_cons, text?_piece, ih, Option.map_some]
  rw [Piece.string?, pieces, text, Option.map_some, String.ofList_toList]

/-! ## Integers -/

def numeral : Int → Numeral
  | .ofNat n => ⟨false, Nat.toDigits 10 n, [], none⟩
  | .negSucc n => ⟨true, Nat.toDigits 10 (n + 1), [], none⟩

/-- What comes next does not go on with a number. -/
def Closed (s : Source) : Prop :=
  ∀ c rest, s = some c :: rest → c.isDigit = false ∧ c ≠ '.' ∧ c ≠ 'e' ∧ c ≠ 'E'

theorem takeDigits_append {ds : List Char} (digits : ∀ d ∈ ds, d.isDigit = true)
    (closed : Closed rest) : takeDigits (ds.map some ++ rest) = (ds, rest) := by
  induction ds with
  | nil =>
      match rest with
      | [] => rfl
      | none :: _ => rfl
      | some c :: rest =>
          have other := (closed c rest rfl).1
          simp [takeDigits, other]
  | cons d ds ih =>
      have tail := ih fun x hx => digits x (List.mem_cons_of_mem _ hx)
      simp only [List.map_cons, List.cons_append, takeDigits, digits d List.mem_cons_self, if_pos,
        tail]

theorem toDigits_head (n : Nat) :
    ∃ d ds, Nat.toDigits 10 n = d :: ds ∧ d.isDigit = true ∧ (d = '0' → ds = []) := by
  suffices ∃ d ds, Nat.toDigits 10 n = d :: ds ∧ (d = '0' → ds = []) by
    obtain ⟨d, ds, same, alone⟩ := this
    refine ⟨d, ds, same, ?_, alone⟩
    exact Nat.isDigit_of_mem_toDigits (by decide) (by decide) (same ▸ List.mem_cons_self)
  induction n using Nat.strongRecOn with
  | _ n ih =>
      rcases Nat.lt_or_ge n 10 with small | large
      · exact ⟨n.digitChar, [], Nat.toDigits_of_lt_base small, fun _ => rfl⟩
      · obtain ⟨d, ds, digits, alone⟩ := ih (n / 10) (by omega)
        refine ⟨d, ds ++ [(n % 10).digitChar], ?_, fun zero => ?_⟩
        · rw [Nat.toDigits_of_base_le (by decide) large, digits, List.cons_append]
        · -- then the number without its last digit would be zero
          subst zero
          rw [alone rfl] at digits
          have value := congrArg (Nat.ofDigitChars 10 · 0) digits
          simp only [Nat.ofDigitChars_ten_toDigits] at value
          have : n / 10 = 0 := value
          omega

theorem wholePart_digits (n : Nat) (closed : Closed rest) :
    wholePart ((Nat.toDigits 10 n).map some ++ rest) = some (Nat.toDigits 10 n, rest) := by
  have digits : ∀ d ∈ Nat.toDigits 10 n, d.isDigit = true := fun d hd =>
    Nat.isDigit_of_mem_toDigits (by decide) (by decide) hd
  obtain ⟨d, ds, same, _, alone⟩ := toDigits_head n
  rw [wholePart, takeDigits_append digits closed, same]
  split
  · rename_i h; simp at h
  · rename_i h
    simp only [Prod.mk.injEq, List.cons.injEq] at h
    obtain ⟨⟨rfl, rfl⟩, _⟩ := h
    simp at alone
  · rename_i h
    rw [← h]

theorem numeralTail_digits (negative : Bool) (n : Nat) (closed : Closed rest) :
    numeralTail negative ((Nat.toDigits 10 n).map some ++ rest) =
      some (⟨negative, Nat.toDigits 10 n, [], none⟩, rest) := by
  have noFraction : fractionPart rest = some ([], rest) := by
    rw [fractionPart.eq_def]
    split
    · exact absurd rfl (closed _ _ rfl).2.1
    · rfl
  have noExponent : exponentPart rest = some (none, rest) := by
    rw [exponentPart.eq_def]
    split
    · rename_i c after
      obtain ⟨_, _, notE, notE'⟩ := closed c after rfl
      rw [if_neg (not_or.mpr ⟨notE, notE'⟩)]
    · rfl
  simp only [numeralTail, wholePart_digits n closed, noFraction, noExponent]

theorem significand_digits {ds : List Char} {start : Nat}
    (small : Nat.ofDigitChars 10 ds start < Decimal.limit64) :
    Numeral.significand ds start = (Nat.ofDigitChars 10 ds start, 0) := by
  induction ds generalizing start with
  | nil => rfl
  | cons d ds ih =>
      have next : 10 * start + Numeral.digit d ≤ Nat.ofDigitChars 10 (d :: ds) start := by
        rw [Nat.ofDigitChars_cons, Nat.ofDigitChars_eq_ofDigitChars_zero]
        exact Nat.le_trans (Nat.le_mul_of_pos_left _ (Nat.pow_pos (by decide)))
          (Nat.le_add_right _ _)
      rw [Numeral.significand, if_pos (Nat.lt_of_le_of_lt next small)]
      exact ih small

theorem significand_toDigits (small : n < Decimal.limit64) :
    Numeral.significand (Nat.toDigits 10 n) 0 = (n, 0) := by
  have value : Nat.ofDigitChars 10 (Nat.toDigits 10 n) 0 = n := Nat.ofDigitChars_ten_toDigits
  rw [significand_digits (value.symm ▸ small), value]

theorem number?_numeral {i : Int} (low : -9223372036854775808 ≤ i)
    (high : i < 18446744073709551616) : (numeral i).number? = some (.integer i) := by
  cases i with
  | ofNat n =>
      have small : n < Decimal.limit64 := by
        simp only [Int.ofNat_eq_natCast] at high
        simp only [Decimal.limit64]
        omega
      simp [numeral, Numeral.number?, significand_toDigits small]
  | negSucc n =>
      have small : n + 1 < Decimal.limit64 := by
        simp only [Decimal.limit64]
        omega
      have within : ¬ 9223372036854775808 < n + 1 := by omega
      simp [numeral, Numeral.number?, significand_toDigits small, within, Int.negSucc_eq]

/-! ## Values -/

mutual

/-- All numbers in the value are integers. -/
def Exact : Json → Prop
  | .null | .bool _ | .string _ => True
  | .number (.integer _) => True
  | .number (.double _) => False
  | .array items => ExactItems items
  | .object fields => ExactFields fields

def ExactItems : List Json → Prop
  | [] => True
  | item :: rest => Exact item ∧ ExactItems rest

def ExactFields : List (String × Json) → Prop
  | [] => True
  | (_, value) :: rest => Exact value ∧ ExactFields rest

end

theorem exactItems_iff {items : List Json} : ExactItems items ↔ ∀ item ∈ items, Exact item := by
  induction items with
  | nil => simp [ExactItems]
  | cons item items ih => simp [ExactItems, ih]

theorem exactFields_iff {fields : Fields} :
    ExactFields fields ↔ ∀ field ∈ fields, Exact field.2 := by
  induction fields with
  | nil => simp [ExactFields]
  | cons field fields ih =>
      obtain ⟨k, v⟩ := field
      simp [ExactFields, ih]

mutual

/-- A value that is read back by a reader which goes so deep: it has no doubles, its integers fit 64
    bits, and its members are sorted. -/
def Fits : Nat → Json → Prop
  | _, .null | _, .bool _ | _, .string _ => True
  | _, .number (.integer i) => -9223372036854775808 ≤ i ∧ i < 18446744073709551616
  | _, .number (.double _) => False
  | 0, .array _ | 0, .object _ => False
  | depth + 1, .array items => FitsItems depth items
  | depth + 1, .object fields => fields.Pairwise (·.1 < ·.1) ∧ FitsFields depth fields

def FitsItems : Nat → List Json → Prop
  | _, [] => True
  | depth, item :: rest => Fits depth item ∧ FitsItems depth rest

def FitsFields : Nat → List (String × Json) → Prop
  | _, [] => True
  | depth, (_, value) :: rest => Fits depth value ∧ FitsFields depth rest

end

mutual

theorem Fits.exact : ∀ (j : Json) {depth : Nat}, Fits depth j → Exact j
  | .null, _, _ => by rw [Exact]; trivial
  | .bool _, _, _ => by rw [Exact]; trivial
  | .string _, _, _ => by rw [Exact]; trivial
  | .number (.integer _), _, _ => by rw [Exact]; trivial
  | .number (.double _), _, fits => by simp [Fits] at fits
  | .array items, depth + 1, fits => by
      rw [Fits] at fits
      rw [Exact]
      exact exactItems_of_fits items fits
  | .object fields, depth + 1, fits => by
      rw [Fits] at fits
      rw [Exact]
      exact exactFields_of_fits fields fits.2

theorem exactItems_of_fits : ∀ (items : List Json) {depth : Nat}, FitsItems depth items →
    ExactItems items
  | [], _, _ => by rw [ExactItems]; trivial
  | item :: rest, _, fits => by
      rw [FitsItems] at fits
      rw [ExactItems]
      exact ⟨Fits.exact item fits.1, exactItems_of_fits rest fits.2⟩

theorem exactFields_of_fits : ∀ (fields : List (String × Json)) {depth : Nat},
    FitsFields depth fields → ExactFields fields
  | [], _, _ => by rw [ExactFields]; trivial
  | (_, value) :: rest, _, fits => by
      rw [FitsFields] at fits
      rw [ExactFields]
      exact ⟨Fits.exact value fits.1, exactFields_of_fits rest fits.2⟩

end

mutual

/-- What a printed value is read as. -/
def written : Json → Written
  | .null | .number (.double _) => .null
  | .bool b => .bool b
  | .number (.integer i) => .number (numeral i)
  | .string s => .string (pieces s)
  | .array items => .array (writtenItems items)
  | .object fields => .object (writtenFields fields)

def writtenItems : List Json → List Written
  | [] => []
  | item :: rest => written item :: writtenItems rest

def writtenFields : List (String × Json) → List (List Piece × Written)
  | [] => []
  | (key, value) :: rest => (pieces key, written value) :: writtenFields rest

end

variable {depth fuel : Nat}

theorem skipBlanks_of_ne (solid : ¬ (c = ' ' ∨ c = '\t' ∨ c = '\n' ∨ c = '\r')) :
    skipBlanks (some c :: rest) = some c :: rest := by
  rw [skipBlanks, if_neg solid]

/-- A text starts with a character that neither is blank nor closes a bracket. -/
def Opens (text : List Char) : Prop :=
  ∃ c cs, text = c :: cs ∧ ¬ (c = ' ' ∨ c = '\t' ∨ c = '\n' ∨ c = '\r') ∧ c ≠ ']'

theorem Opens.append {text : List Char} (h : Opens text) (more : List Char) :
    Opens (text ++ more) := by
  obtain ⟨c, cs, rfl, solid, opens⟩ := h
  exact ⟨c, cs ++ more, List.cons_append, solid, opens⟩

theorem opens_print (j : Json) (exact_ : Exact j) : Opens (print j) := by
  cases j with
  | null => exact ⟨'n', _, rfl, by decide, by decide⟩
  | bool b => cases b <;> exact ⟨_, _, rfl, by decide, by decide⟩
  | string s => exact ⟨'"', _, rfl, by decide, by decide⟩
  | array items => exact ⟨'[', _, rfl, by decide, by decide⟩
  | object fields => exact ⟨'\x7b', _, rfl, by decide, by decide⟩
  | number n =>
      cases n with
      | double x => simp [Exact] at exact_
      | integer i =>
          cases i with
          | negSucc n => exact ⟨'-', _, rfl, by decide, by decide⟩
          | ofNat n =>
              obtain ⟨d, ds, same, digit, _⟩ := toDigits_head n
              refine ⟨d, ds, same, ?_, ?_⟩
              · rintro (rfl | rfl | rfl | rfl) <;> simp at digit
              · rintro rfl
                simp at digit

theorem value_integer (i : Int) (closed : Closed rest) :
    value (fuel + 1) ((Number.integer i).print.map some ++ rest) =
      some (.number (numeral i), rest) := by
  cases i with
  | negSucc n =>
      have tail := numeralTail_digits true (n + 1) closed
      simp only [Number.print, List.map_cons, List.cons_append, value,
        skipBlanks_of_ne (c := '-') (by decide), tail]
      rfl
  | ofNat n =>
      have tail := numeralTail_digits false n closed
      obtain ⟨d, ds, same, digit, _⟩ := toDigits_head n
      have other : ∀ x : Char, x.isDigit = false → d ≠ x := by
        rintro x notDigit rfl
        simp [digit] at notDigit
      rw [same, List.map_cons, List.cons_append] at tail
      rw [Number.print, same, List.map_cons, List.cons_append, value, skipBlanks_of_ne]
      · simp only [if_neg (other '"' rfl), if_neg (other '[' rfl), if_neg (other '\x7b' rfl),
          if_neg (other 'n' rfl), if_neg (other 't' rfl), if_neg (other 'f' rfl),
          if_neg (other '-' rfl), tail, numeral, Option.map_some]
        simp only [same]
      · simp only [not_or]
        exact ⟨other ' ' rfl, other '\t' rfl, other '\n' rfl, other '\r' rfl⟩

theorem value_string (s : String) (rest : Source) :
    value (fuel + 1) ((quote s).map some ++ rest) = some (.string (pieces s), rest) := by
  rw [quote_source, value, skipBlanks_of_ne (by decide)]
  simp only [if_pos, stringTail_escapes, Option.map_some]
  rfl

theorem closed_of_mark (mark : c = ',' ∨ c = ']' ∨ c = '\x7d') : Closed (some c :: rest) := by
  intro c' rest' same
  obtain ⟨rfl, rfl⟩ : c = c' ∧ rest = rest' := by simpa using same
  rcases mark with rfl | rfl | rfl <;> decide

theorem printItems_cons (item next : Json) (items : List Json) :
    printItems (item :: next :: items) = print item ++ ',' :: printItems (next :: items) := by
  simp [printItems]

theorem opens_printItems (item : Json) (items : List Json) (exact_ : Exact item) :
    Opens (printItems (item :: items)) := by
  have opens := opens_print item exact_
  cases items with
  | nil => exact opens
  | cons next items => exact printItems_cons item next items ▸ opens.append _

theorem value_array {text : List Char} {xs : List Written} {after : Source}
    (head : Opens text)
    (read : items fuel (text.map some ++ rest) = some (xs, after)) :
    value (fuel + 1) (some '[' :: (text.map some ++ rest)) = some (.array xs, after) := by
  obtain ⟨c, cs, rfl, solid, opens⟩ := head
  have skipped : skipBlanks ((c :: cs).map some ++ rest) = some c :: (cs.map some ++ rest) :=
    skipBlanks_of_ne solid
  rw [value, skipBlanks_of_ne (by decide)]
  simp only [if_pos, skipped, read, Option.map_some]
  rw [if_neg (by decide)]
  split
  · rename_i same
    simp only [List.cons.injEq, Option.some.injEq] at same
    exact absurd same.1 opens
  · rfl

theorem value_object {text : List Char} {ms : List (List Piece × Written)} {after : Source}
    (head : ∃ cs, text = '"' :: cs)
    (read : members fuel (text.map some ++ rest) = some (ms, after)) :
    value (fuel + 1) (some '\x7b' :: (text.map some ++ rest)) = some (.object ms, after) := by
  obtain ⟨cs, rfl⟩ := head
  have skipped : skipBlanks (('"' :: cs).map some ++ rest) = some '"' :: (cs.map some ++ rest) :=
    skipBlanks_of_ne (by decide)
  rw [value, skipBlanks_of_ne (by decide)]
  simp only [skipped, read, Option.map_some]
  rfl

theorem printFields_cons (key : String) (j : Json) (next : String × Json)
    (fields : List (String × Json)) : printFields ((key, j) :: next :: fields) =
      quote key ++ ':' :: (print j ++ ',' :: printFields (next :: fields)) := by
  simp [printFields]

theorem printFields_head (field : String × Json) (fields : List (String × Json)) :
    ∃ cs, printFields (field :: fields) = '"' :: cs := by
  cases fields with
  | nil => exact ⟨_, rfl⟩
  | cons next fields => exact ⟨_, rfl⟩

theorem items_last {x : Written} {s : Source} (read : value fuel s = some (x, some ']' :: rest)) :
    items (fuel + 1) s = some ([x], rest) := by
  rw [items, read]
  rfl

theorem items_more {x : Written} {xs : List Written} {s after : Source}
    (read : value fuel s = some (x, some ',' :: rest)) (others : items fuel rest = some (xs, after)) :
    items (fuel + 1) s = some (x :: xs, after) := by
  rw [items, read]
  simp only [skipBlanks_of_ne (c := ',') (by decide), others]
  rfl

theorem members_last {key : String} {x : Written} {s : Source}
    (read : value fuel s = some (x, some '\x7d' :: rest)) :
    members (fuel + 1) ((quote key).map some ++ some ':' :: s) = some ([(pieces key, x)], rest) := by
  rw [quote_source, members, skipBlanks_of_ne (by decide)]
  simp only [stringTail_escapes, skipBlanks_of_ne (c := ':') (by decide), read]
  rfl

theorem members_more {key : String} {x : Written} {ms : List (List Piece × Written)}
    {s after : Source} (read : value fuel s = some (x, some ',' :: rest))
    (others : members fuel rest = some (ms, after)) :
    members (fuel + 1) ((quote key).map some ++ some ':' :: s) =
      some ((pieces key, x) :: ms, after) := by
  rw [quote_source, members, skipBlanks_of_ne (by decide)]
  simp only [stringTail_escapes, skipBlanks_of_ne (c := ':') (by decide), read,
    skipBlanks_of_ne (c := ',') (by decide), others]
  rfl

mutual

/-- A printed value is read as it was written, by a reader with two steps for each character: one for
    the value and one for what holds it. -/
theorem value_print : ∀ (j : Json) {fuel : Nat} {rest : Source}, Exact j →
    Closed rest → 2 * (print j).length ≤ fuel →
    value fuel ((print j).map some ++ rest) = some (written j, rest)
  | j, 0, _, exact_, _, enough => by
      obtain ⟨c, cs, same, _⟩ := opens_print j exact_
      simp [same] at enough
  | .null, _ + 1, _, _, _, _ => rfl
  | .bool true, _ + 1, _, _, _, _ => rfl
  | .bool false, _ + 1, _, _, _, _ => rfl
  | .number (.integer i), _ + 1, _, _, closed, _ => value_integer i closed
  | .string s, _ + 1, rest, _, _, _ => value_string s rest
  | .array [], _ + 1, _, _, _, _ => rfl
  | .array (item :: items), fuel + 1, rest, exact_, _, enough => by
      rw [Exact] at exact_
      simp only [print, List.cons_append, List.length_append, List.length_cons] at enough
      have read := @items_print item items fuel rest exact_ (by omega)
      rw [ExactItems] at exact_
      rw [written, ← value_array (opens_printItems item items exact_.1) read, print]
      simp
  | .object [], _ + 1, _, _, _, _ => rfl
  | .object (field :: fields), fuel + 1, rest, exact_, _, enough => by
      rw [Exact] at exact_
      simp only [print, List.cons_append, List.length_append, List.length_cons] at enough
      have read := @members_print field fields fuel rest exact_ (by omega)
      rw [written, ← value_object (printFields_head field fields) read, print]
      simp

theorem items_print : ∀ (item : Json) (rest : List Json) {fuel : Nat} {after : Source},
    ExactItems (item :: rest) → 2 * (printItems (item :: rest)).length + 1 ≤ fuel →
    items fuel ((printItems (item :: rest)).map some ++ some ']' :: after) =
      some (writtenItems (item :: rest), after)
  | item, [], fuel + 1, after, exact_, enough => by
      rw [ExactItems] at exact_
      rw [printItems] at enough ⊢
      exact items_last (value_print item exact_.1 (closed_of_mark (by decide)) (by omega))
  | item, next :: rest, fuel + 1, after, exact_, enough => by
      rw [ExactItems] at exact_
      rw [printItems_cons] at enough ⊢
      simp only [List.length_append, List.length_cons] at enough
      rw [List.map_append, List.append_assoc]
      exact items_more (value_print item exact_.1 (closed_of_mark (by decide)) (by omega))
          (items_print next rest exact_.2 (by omega))

theorem members_print : ∀ (field : String × Json) (rest : List (String × Json)) {fuel : Nat}
    {after : Source}, ExactFields (field :: rest) →
    2 * (printFields (field :: rest)).length + 1 ≤ fuel →
    members fuel ((printFields (field :: rest)).map some ++ some '\x7d' :: after) =
      some (writtenFields (field :: rest), after)
  | (key, j), [], fuel + 1, after, exact_, enough => by
      rw [ExactFields] at exact_
      rw [printFields] at enough ⊢
      simp only [List.length_append, List.length_cons] at enough
      rw [List.map_append, List.append_assoc]
      exact members_last (value_print j exact_.1 (closed_of_mark (by decide)) (by omega))
  | (key, j), next :: rest, fuel + 1, after, exact_, enough => by
      rw [ExactFields] at exact_
      rw [printFields_cons] at enough ⊢
      simp only [List.length_append, List.length_cons] at enough
      rw [List.map_append, List.append_assoc, List.map_cons, List.map_append, List.cons_append,
        List.append_assoc]
      exact members_more (value_print j exact_.1 (closed_of_mark (by decide)) (by omega))
          (members_print next rest exact_.2 (by omega))

end

theorem read?_print {j : Json} (exact_ : Exact j) :
    read? ((print j).map some) = some (written j) := by
  have read := @value_print j (2 * (print j).length + 2) [] exact_
    (fun _ _ h => by simp at h) (by omega)
  rw [List.append_nil] at read
  rw [read?, List.length_map, read]
  rfl

/-! ## Worth -/

theorem insert_last {key : String} {j : Json} {fields : Fields}
    (greater : ∀ field ∈ fields, field.1 < key) :
    Fields.insert key j fields = fields ++ [(key, j)] := by
  induction fields with
  | nil => rfl
  | cons field fields ih =>
      obtain ⟨k, v⟩ := field
      have below : k < key := greater (k, v) List.mem_cons_self
      rw [Fields.insert, if_neg (String.lt_asymm below), if_neg (String.ne_of_lt below).symm,
        ih fun field h => greater field (List.mem_cons_of_mem _ h), List.cons_append]

theorem ofList_concat (fields : Fields) (field : String × Json) :
    Fields.ofList (fields ++ [field]) = (Fields.ofList fields).insert field.1 field.2 := by
  simp only [Fields.ofList, List.foldl_append, List.foldl_cons, List.foldl_nil]

theorem ofList_sorted {fields : Fields} (sorted : fields.Pairwise (·.1 < ·.1)) :
    Fields.ofList fields = fields := by
  induction fields using List.reverseRecOn with
  | nil => rfl
  | append_singleton fields field ih =>
      obtain ⟨before, _, greater⟩ := List.pairwise_append.mp sorted
      rw [ofList_concat, ih before]
      exact insert_last fun f h => greater f h field List.mem_cons_self

mutual

/-- What was written is worth what was printed. -/
theorem json?_written : ∀ (j : Json) {depth : Nat}, Fits depth j →
    (written j).json? depth = some j
  | .null, _, _ => by rw [written, Written.json?]
  | .bool b, _, _ => by rw [written, Written.json?]
  | .number (.integer i), _, fits => by
      rw [Fits] at fits
      rw [written, Written.json?, number?_numeral fits.1 fits.2]
      rfl
  | .string s, _, _ => by
      rw [written, Written.json?, string?_pieces]
      rfl
  | .array items, depth + 1, fits => by
      rw [Fits] at fits
      rw [written, Written.json?, jsonItems?_written items fits]
      rfl
  | .object fields, depth + 1, fits => by
      rw [Fits] at fits
      rw [written, Written.json?, jsonMembers?_written fields fits.2, Option.map_some, ofFields,
        ofList_sorted fits.1]

theorem jsonItems?_written : ∀ (items : List Json) {depth : Nat}, FitsItems depth items →
    Written.jsonItems? depth (writtenItems items) = some items
  | [], _, _ => by rw [writtenItems, Written.jsonItems?]
  | item :: rest, _, fits => by
      rw [FitsItems] at fits
      rw [writtenItems, Written.jsonItems?, json?_written item fits.1,
        jsonItems?_written rest fits.2]

theorem jsonMembers?_written : ∀ (fields : List (String × Json)) {depth : Nat},
    FitsFields depth fields → Written.jsonMembers? depth (writtenFields fields) = some fields
  | [], _, _ => by rw [writtenFields, Written.jsonMembers?]
  | (key, value) :: rest, _, fits => by
      rw [FitsFields] at fits
      rw [writtenFields, Written.jsonMembers?, string?_pieces, json?_written value fits.1,
        jsonMembers?_written rest fits.2]

end

/-- A value is read back from its text. -/
theorem parse?_print {j : Json} (fits : Fits Written.maxDepth j) :
    parse? ((print j).map some) = some j := by
  rw [parse?, read?_print (fits.exact j), Option.bind_some, json?_written j fits]

/-- A message is read from the bytes of a value just as from what the value is written as. -/
theorem decode?_bytes {α : Type} (read : Reading α) {j : Json} (exact_ : Exact j) :
    decode? read (Utf8.scan j.bytes) = read Written.maxDepth (written j) := by
  rw [decode?, bytes, Utf8.scan_encode, read?_print exact_, Option.bind_some]

end QuorumStore.Json
