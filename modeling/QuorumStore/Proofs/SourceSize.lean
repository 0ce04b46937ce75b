import QuorumStore.Proofs.JsonSize
import QuorumStore.Proofs.DocumentText
/-! # How much has been written

A value that has been read takes no more room than what it was read from, if its doubles count for
nothing: strings may have been written with longer escapes than they need, objects may have had
members twice, but nothing can have been written shorter than it is printed.
-/

namespace QuorumStore

namespace Json

/-! ## Sources -/

/-- How many bytes a text has. A byte of no character is one. -/
def sourceSize (s : Source) : Nat := (s.map fun c? => c?.elim 1 Char.utf8Size).sum

@[simp] theorem sourceSize_nil : sourceSize [] = 0 := rfl

@[simp] theorem sourceSize_some (c : Char) (s : Source) :
    sourceSize (some c :: s) = c.utf8Size + sourceSize s := rfl

@[simp] theorem sourceSize_none (s : Source) : sourceSize (none :: s) = 1 + sourceSize s := rfl

theorem sourceSize_cons (c? : Option Char) (s : Source) :
    sourceSize s + 1 ≤ sourceSize (c? :: s) := by
  cases c? with
  | none => rw [sourceSize_none, Nat.add_comm]
  | some c =>
      have := c.utf8Size_pos
      rw [sourceSize_some]
      omega

theorem sourceSize_text (cs : List Char) : sourceSize (cs.map some) = (Utf8.encode cs).length := by
  induction cs with
  | nil => rfl
  | cons c cs ih => rw [List.map_cons, sourceSize_some, ih, Utf8.length_encode_cons]

end Json

namespace Utf8

open Json

theorem toNat_of_ofCode? {n : Nat} {c : Char} (h : ofCode? n = some c) : c.toNat = n := by
  rw [ofCode?] at h
  split at h
  · rename_i valid
    rw [← Option.some.inj h, Char.ofNat, dif_pos valid]
    rfl
  · simp at h

variable {a b c d : UInt8} {ch : Char}

theorem continuation?_lt {n : Nat} (h : continuation? b = some n) : n < 64 := by
  rw [continuation?] at h
  split at h
  · obtain rfl := Option.some.inj h
    omega
  · simp at h

theorem utf8Size_le_two (small : ch.toNat ≤ 0x7ff) : ch.utf8Size ≤ 2 := by
  rcases ch.utf8Size_eq with one | two | three | four
  · omega
  · omega
  · have large : 0x7ff < ch.toNat := (Char.utf8Size_eq_three_iff.mp three).1
    omega
  · have large : 0xffff < ch.toNat := Char.utf8Size_eq_four_iff.mp four
    omega

theorem utf8Size_le_three (small : ch.toNat ≤ 0xffff) : ch.utf8Size ≤ 3 := by
  rcases ch.utf8Size_eq with one | two | three | four
  · omega
  · omega
  · omega
  · have large : 0xffff < ch.toNat := Char.utf8Size_eq_four_iff.mp four
    omega

theorem utf8Size_of_two? (h : two? a b = some ch) : ch.utf8Size ≤ 2 := by
  rw [two?] at h
  split at h
  · rename_i y continues
    have low := continuation?_lt continues
    simp only at h
    split at h
    · have code := toNat_of_ofCode? h
      exact utf8Size_le_two (by omega)
    · simp at h
  · simp at h

theorem utf8Size_of_three? (h : three? a b c = some ch) : ch.utf8Size ≤ 3 := by
  rw [three?] at h
  split at h
  · rename_i y z continues continues'
    have middle := continuation?_lt continues
    have low := continuation?_lt continues'
    simp only at h
    split at h
    · have code := toNat_of_ofCode? h
      exact utf8Size_le_three (by omega)
    · simp at h
  · simp at h

/-- The characters that bytes hold have no more bytes than these. -/
theorem sourceSize_scan (bytes : List UInt8) : sourceSize (scan bytes) ≤ bytes.length := by
  fun_induction scan bytes with
  | case1 => exact Nat.le_refl 0
  | case2 a rest ascii ih =>
      have valid : a.toNat.isValidChar := .inl (by omega)
      have code : (Char.ofNat a.toNat).toNat = a.toNat :=
        toNat_of_ofCode? (if_pos valid)
      have one := utf8Size_le_one (c := Char.ofNat a.toNat) (by omega)
      rw [sourceSize_some, List.length_cons]
      omega
  | case3 => exact Nat.le_refl 1
  | case4 _ _ _ _ _ found ih =>
      have two := utf8Size_of_two? found
      simp only [sourceSize_some, List.length_cons]
      omega
  | case6 _ _ _ _ _ _ _ found ih =>
      have three := utf8Size_of_three? found
      simp only [sourceSize_some, List.length_cons]
      omega
  | case8 _ _ _ _ _ _ _ _ ch _ ih =>
      have four := ch.utf8Size_le_four
      simp only [sourceSize_some, List.length_cons]
      omega
  | case5 _ _ _ _ ih =>
      simp only [sourceSize_none, List.length_cons] at ih ⊢
      omega
  | case7 _ _ _ _ _ _ ih =>
      simp only [sourceSize_none, List.length_cons] at ih ⊢
      omega
  | case9 _ _ _ _ _ _ _ _ _ ih =>
      simp only [sourceSize_none, List.length_cons] at ih ⊢
      omega

end Utf8

/-! ## Written values -/

/-- How many bytes a part of a string has at least been written with. -/
def Piece.extent : Piece → Nat
  | .char c => Json.escapeSize c
  | .unit _ => 6
  | .stray => 0

def Piece.extents (s : List Piece) : Nat := (s.map extent).sum

/-- Doubles count for nothing. -/
def Numeral.extent (n : Numeral) : Nat :=
  match n.number? with
  | some (.integer i) => (Number.integer i).print.length
  | _ => 0

namespace Written

mutual

def extent : Written → Nat
  | .null | .bool true => 4
  | .bool false => 5
  | .number n => n.extent
  | .string s => Piece.extents s + 2
  | .array items => max 1 (extentItems items) + 1
  | .object members => max 1 (extentMembers members) + 1

def extentItems : List Written → Nat
  | [] => 0
  | item :: rest => extent item + 1 + extentItems rest

def extentMembers : List (List Piece × Written) → Nat
  | [] => 0
  | (key, value) :: rest => Piece.extents key + 2 + extent value + 2 + extentMembers rest

end

end Written

namespace Piece

open Json

theorem extents_cons (p : Piece) (s : List Piece) : extents (p :: s) = p.extent + extents s := rfl

/-- A text has escapes no longer than those it has been written with. -/
theorem escapesSize_text? {s : List Piece} {cs : List Char} (h : text? s = some cs) :
    escapesSize cs ≤ extents s := by
  fun_induction text? s generalizing cs with
  | case1 =>
      rw [← Option.some.inj h]
      exact Nat.le_refl 0
  | case2 c rest ih =>
      obtain ⟨others, read, rfl⟩ := Option.map_eq_some_iff.mp h
      exact Nat.add_le_add_left (ih read) (escapeSize c)
  | case4 _ _ _ _ _ c others read _ ih =>
      have six := escapeSize_le c
      have less := ih read
      rw [← Option.some.inj h]
      simp only [escapesSize_cons, extents_cons, extent]
      omega
  | case8 _ _ _ c others read _ ih =>
      have six := escapeSize_le c
      have less := ih read
      rw [← Option.some.inj h]
      simp only [escapesSize_cons, extents_cons, extent]
      omega
  | case3 | case5 | case6 | case7 | case9 => simp at h

theorem quoteSize_string? {s : List Piece} {text : String} (h : string? s = some text) :
    quoteSize text ≤ extents s + 2 := by
  obtain ⟨cs, read, rfl⟩ := Option.map_eq_some_iff.mp h
  have le := escapesSize_text? read
  rw [quoteSize_eq, String.toList_ofList]
  omega

end Piece

namespace Json

/-! ## Members -/

theorem roomFields_append (given : Binary64 → Nat) (a b : Fields) :
    roomFields given (a ++ b) = roomFields given a + roomFields given b := by
  induction a with
  | nil => simp [roomFields]
  | cons field a ih =>
      obtain ⟨key, j⟩ := field
      simp only [List.cons_append, roomFields, ih]
      omega

theorem roomFields_sublist (given : Binary64 → Nat) {a b : Fields} (part : a.Sublist b) :
    roomFields given a ≤ roomFields given b := by
  induction part with
  | slnil => exact Nat.le_refl _
  | cons field _ ih =>
      rw [roomFields]
      omega
  | cons_cons field _ ih =>
      rw [roomFields, roomFields]
      omega

theorem roomFields_insert (given : Binary64 → Nat) (key : String) (j : Json) (fields : Fields) :
    roomFields given (fields.insert key j) ≤
      quoteSize key + room given j + 2 + roomFields given fields := by
  induction fields with
  | nil => exact Nat.le_refl _
  | cons field fields ih =>
      obtain ⟨k, v⟩ := field
      rw [Fields.insert]
      split
      · exact Nat.le_refl _
      split
      · simp only [roomFields]
        omega
      · simp only [roomFields]
        omega

/-- Members that stand twice take room once. -/
theorem roomFields_ofList (given : Binary64 → Nat) (pairs : Fields) :
    roomFields given (Fields.ofList pairs) ≤ roomFields given pairs := by
  induction pairs using List.reverseRecOn with
  | nil => exact Nat.le_refl _
  | append_singleton pairs pair ih =>
      have le := roomFields_insert given pair.1 pair.2 (Fields.ofList pairs)
      rw [ofList_concat, roomFields_append]
      simp only [roomFields]
      omega

end Json

namespace Written

open Json

mutual

theorem room_json? : ∀ {w : Written} {depth : Nat} {j : Json}, w.json? depth = some j →
    room (fun _ => 0) j ≤ w.extent
  | .null, _, _, h | .bool true, _, _, h | .bool false, _, _, h => by
      rw [json?] at h
      rw [← Option.some.inj h]
      exact Nat.le_refl _
  | .number n, _, _, h => by
      rw [json?] at h
      obtain ⟨number, worth, rfl⟩ := Option.map_eq_some_iff.mp h
      rw [extent, Numeral.extent, worth]
      cases number <;> exact Nat.le_refl _
  | .string s, _, _, h => by
      rw [json?] at h
      obtain ⟨text, read, rfl⟩ := Option.map_eq_some_iff.mp h
      exact Piece.quoteSize_string? read
  | .array items, depth + 1, _, h => by
      rw [json?] at h
      obtain ⟨js, read, rfl⟩ := Option.map_eq_some_iff.mp h
      have le := roomItems_jsonItems? read
      rw [room, extent]
      omega
  | .object members, depth + 1, _, h => by
      rw [json?] at h
      obtain ⟨pairs, read, rfl⟩ := Option.map_eq_some_iff.mp h
      have le := roomFields_jsonMembers? read
      have once := roomFields_ofList (fun _ => 0) pairs
      rw [ofFields, room, extent]
      omega

theorem roomItems_jsonItems? : ∀ {items : List Written} {depth : Nat} {js : List Json},
    jsonItems? depth items = some js → roomItems (fun _ => 0) js ≤ extentItems items
  | [], _, _, h => by
      rw [jsonItems?] at h
      rw [← Option.some.inj h]
      exact Nat.le_refl _
  | item :: rest, _, _, h => by
      rw [jsonItems?] at h
      split at h
      · rename_i j js first others
        have le := room_json? first
        have more := roomItems_jsonItems? others
        rw [← Option.some.inj h, roomItems, extentItems]
        omega
      · simp at h

theorem roomFields_jsonMembers? : ∀ {members : List (List Piece × Written)} {depth : Nat}
    {pairs : List (String × Json)}, jsonMembers? depth members = some pairs →
    roomFields (fun _ => 0) pairs ≤ extentMembers members
  | [], _, _, h => by
      rw [jsonMembers?] at h
      rw [← Option.some.inj h]
      exact Nat.le_refl _
  | (key, value) :: rest, _, _, h => by
      rw [jsonMembers?] at h
      split at h
      · rename_i k j js named first others
        have name := Piece.quoteSize_string? named
        have le := room_json? first
        have more := roomFields_jsonMembers? others
        rw [← Option.some.inj h, roomFields, extentMembers]
        omega
      · simp at h

end

end Written

namespace Json

/-! ## Reading -/

variable {s rest : Source} {fuel : Nat}

theorem sourceSize_skipBlanks (s : Source) : sourceSize (skipBlanks s) ≤ sourceSize s := by
  fun_induction skipBlanks s with
  | case1 c rest blank ih => exact Nat.le_trans ih (Nat.le_add_left ..)
  | case2 => exact Nat.le_refl _
  | case3 => exact Nat.le_refl _

theorem takeDigits_size {ds : List Char} (h : takeDigits s = (ds, rest)) :
    (∀ d ∈ ds, d.isDigit = true) ∧ ds.length + sourceSize rest ≤ sourceSize s := by
  fun_induction takeDigits s generalizing ds rest with
  | case1 c others digit more after read ih =>
      obtain ⟨rfl, rfl⟩ := Prod.mk.inj h
      obtain ⟨digits, size⟩ := ih read
      have least := c.utf8Size_pos
      refine ⟨?_, ?_⟩
      · intro d mem
        rcases List.mem_cons.mp mem with rfl | mem
        · exact digit
        · exact digits d mem
      · rw [List.length_cons, sourceSize_some]
        omega
  | case2 =>
      obtain ⟨rfl, rfl⟩ := Prod.mk.inj h
      simp
  | case3 =>
      obtain ⟨rfl, rfl⟩ := Prod.mk.inj h
      simp

/-- A reader that makes something of what another reads leaves what that one leaves. -/
theorem eq_some_of_map {α β : Type} {read : Option (α × Source)} {make : α → β} {b : β}
    (h : read.map (fun (a, after) => (make a, after)) = some (b, rest)) :
    ∃ a, make a = b ∧ read = some (a, rest) := by
  obtain ⟨⟨a, after⟩, found, same⟩ := Option.map_eq_some_iff.mp h
  obtain ⟨rfl, rfl⟩ := Prod.mk.inj same
  exact ⟨a, rfl, found⟩

theorem escapeSize_unescape? {e c : Char} (h : unescape? e = some c) : escapeSize c ≤ 2 := by
  by_cases known : e ∈ ['"', '\\', '/', 'b', 'f', 'n', 'r', 't']
  · have size : (unescape? e).elim 0 escapeSize ≤ 2 := by
      simp only [List.mem_cons, List.not_mem_nil, or_false] at known
      rcases known with rfl | rfl | rfl | rfl | rfl | rfl | rfl | rfl <;> decide
    rwa [h] at size
  · simp only [List.mem_cons, List.not_mem_nil, or_false, not_or] at known
    simp [unescape?, known] at h

theorem stringTail_size {ps : List Piece} (h : stringTail s = some (ps, rest)) :
    Piece.extents ps + 1 + sourceSize rest ≤ sourceSize s := by
  fun_induction stringTail s generalizing ps rest with
  | case2 others ih =>
      obtain ⟨ps, rfl, read⟩ := eq_some_of_map h
      have size := ih read
      rw [sourceSize_none, Piece.extents_cons, Piece.extent]
      omega
  | case3 =>
      obtain ⟨rfl, rfl⟩ := Prod.mk.inj (Option.some.inj h)
      exact Nat.le_refl _
  | case4 h₁ h₂ h₃ h₄ others n ps after read _ _ ih =>
      obtain ⟨rfl, rfl⟩ := Prod.mk.inj (Option.some.inj h)
      have size := ih read
      have first := sourceSize_cons h₁ (h₂ :: h₃ :: h₄ :: others)
      have second := sourceSize_cons h₂ (h₃ :: h₄ :: others)
      have third := sourceSize_cons h₃ (h₄ :: others)
      have fourth := sourceSize_cons h₄ others
      have marks : ('\\' : Char).utf8Size = 1 ∧ ('u' : Char).utf8Size = 1 := by decide
      rw [sourceSize_some, sourceSize_some, Piece.extents_cons, Piece.extent]
      omega
  | case7 e others _ c ps after read short _ ih =>
      obtain ⟨rfl, rfl⟩ := Prod.mk.inj (Option.some.inj h)
      have size := ih read
      have two := escapeSize_unescape? short
      have mark : ('\\' : Char).utf8Size = 1 := by decide
      have least := e.utf8Size_pos
      rw [sourceSize_some, sourceSize_some, Piece.extents_cons, Piece.extent]
      omega
  | case11 c others notQuote notBackslash solid ih =>
      obtain ⟨ps, rfl, read⟩ := eq_some_of_map h
      have size := ih read
      have plain := escapeSize_plain notQuote notBackslash solid
      rw [sourceSize_some, Piece.extents_cons, Piece.extent]
      omega
  | case1 | case5 | case6 | case8 | case9 | case10 => simp at h

theorem significand_le {ds : List Char} {start : Nat} (digits : ∀ d ∈ ds, d.isDigit = true)
    {size : Nat} (below : start < 10 ^ size) :
    (Numeral.significand ds start).1 < 10 ^ (size + ds.length) := by
  induction ds generalizing start size with
  | nil => exact below
  | cons d ds ih =>
      obtain ⟨low, high⟩ := Char.isDigit_iff_toNat.mp (digits d List.mem_cons_self)
      simp only [Char.reduceToNat] at low high
      rw [Numeral.significand]
      split
      · have next : 10 * start + Numeral.digit d < 10 ^ (size + 1) := by
          have value : Numeral.digit d = d.toNat - 48 := rfl
          rw [Nat.pow_succ]
          omega
        have rest := ih (fun e mem => digits e (List.mem_cons_of_mem _ mem)) next
        rwa [List.length_cons, Nat.add_comm ds.length 1, ← Nat.add_assoc]
      · exact Nat.lt_of_lt_of_le below (Nat.pow_le_pow_right (by decide) (Nat.le_add_right ..))

theorem length_print_integer {i : Int} {size : Nat} (some : 0 < size)
    (below : i.natAbs < 10 ^ size) :
    (Number.integer i).print.length ≤ size + if i < 0 then 1 else 0 := by
  cases i with
  | ofNat n => exact (Nat.length_toDigits_le_iff (by decide) some).mpr below
  | negSucc n =>
      have below : n + 1 < 10 ^ size := below
      have digits := (Nat.length_toDigits_le_iff (by decide) some).mpr below
      rw [if_pos (Int.negSucc_lt_zero n), Number.print, List.length_cons]
      omega

/-- An integer has been written with all its digits. -/
theorem extent_le {n : Numeral} (digits : ∀ d ∈ n.whole, d.isDigit = true)
    (some : n.whole ≠ []) : n.extent ≤ n.whole.length + if n.negative then 1 else 0 := by
  have below : (Numeral.significand n.whole 0).1 < 10 ^ (0 + n.whole.length) :=
    significand_le digits (by decide)
  have length := List.length_pos_iff.mpr some
  rw [Nat.zero_add] at below
  rw [Numeral.extent]
  split
  · rename_i i worth
    simp only [Numeral.number?] at worth
    split at worth
    · split at worth
      · have same : ((Numeral.significand n.whole 0).1 : Int) = i := by simpa using worth
        have size := length_print_integer (i := i) length (by omega)
        rw [if_neg (by omega)] at size
        omega
      · rename_i negative
        split at worth
        · simp at worth
        · have same : -((Numeral.significand n.whole 0).1 : Int) = i := by simpa using worth
          have size := length_print_integer (i := i) length (by omega)
          have sign : (if i < 0 then 1 else 0) ≤ 1 := by split <;> omega
          simp only [Bool.not_eq_true', Bool.not_eq_false] at negative
          rw [if_pos negative]
          omega
    · simp at worth
  · exact Nat.zero_le _

theorem wholePart_size {ds : List Char} (h : wholePart s = some (ds, rest)) :
    (∀ d ∈ ds, d.isDigit = true) ∧ ds ≠ [] ∧ ds.length + sourceSize rest ≤ sourceSize s := by
  rw [wholePart] at h
  split at h
  · simp at h
  · simp at h
  · rename_i ds' rest' some _ read
    obtain ⟨rfl, rfl⟩ := Prod.mk.inj (Option.some.inj h)
    obtain ⟨digits, size⟩ := takeDigits_size read
    exact ⟨digits, some, size⟩

theorem fractionPart_size {ds : List Char} (h : fractionPart s = some (ds, rest)) :
    sourceSize rest ≤ sourceSize s := by
  rw [fractionPart.eq_def] at h
  split at h
  · split at h
    · simp at h
    · rename_i read
      obtain ⟨rfl, rfl⟩ := Prod.mk.inj (Option.some.inj h)
      have size := (takeDigits_size read).2
      rw [sourceSize_some]
      omega
  · obtain ⟨rfl, rfl⟩ := Prod.mk.inj (Option.some.inj h)
    exact Nat.le_refl _

theorem exponentPart_size {e : Option (Bool × List Char)} (h : exponentPart s = some (e, rest)) :
    sourceSize rest ≤ sourceSize s := by
  rw [exponentPart.eq_def] at h
  split at h
  · split at h
    · simp only at h
      split at h
      · simp at h
      · rename_i read
        have size := (takeDigits_size read).2
        obtain ⟨_, rfl⟩ := Prod.mk.inj (Option.some.inj h)
        -- the sign of the exponent takes a byte if there is one
        split at size
        · simp only [sourceSize_some] at size ⊢
          omega
        · simp only [sourceSize_some] at size ⊢
          omega
        · simp only [sourceSize_some] at size ⊢
          omega
    · obtain ⟨rfl, rfl⟩ := Prod.mk.inj (Option.some.inj h)
      exact Nat.le_refl _
  · obtain ⟨rfl, rfl⟩ := Prod.mk.inj (Option.some.inj h)
    exact Nat.le_refl _

theorem numeralTail_size {negative : Bool} {n : Numeral}
    (h : numeralTail negative s = some (n, rest)) :
    n.extent + sourceSize rest ≤ sourceSize s + if negative then 1 else 0 := by
  rw [numeralTail] at h
  split at h
  · simp at h
  rename_i whole s₁ wholeRead
  split at h
  · simp at h
  rename_i fraction s₂ fractionRead
  split at h
  · simp at h
  rename_i exponent s₃ exponentRead
  obtain ⟨rfl, rfl⟩ := Prod.mk.inj (Option.some.inj h)
  obtain ⟨digits, some, size⟩ := wholePart_size wholeRead
  have less := fractionPart_size fractionRead
  have least := exponentPart_size exponentRead
  have extent := extent_le (n := ⟨negative, whole, fraction, exponent⟩) digits some
  simp only at extent
  omega

theorem word_size {letters : List Char} {result w : Written}
    (literal : result.extent = letters.length + 1) (h : word letters result s = some (w, rest)) :
    w.extent + sourceSize rest ≤ sourceSize s + 1 := by
  have left : w = result ∧ letters.length + sourceSize rest ≤ sourceSize s := by
    clear literal
    fun_induction word letters result s with
    | case1 =>
        obtain ⟨rfl, rfl⟩ := Prod.mk.inj (Option.some.inj h)
        exact ⟨rfl, Nat.le_of_eq (Nat.zero_add _)⟩
    | case2 _ l others ih =>
        obtain ⟨same, size⟩ := ih h
        have least := l.utf8Size_pos
        refine ⟨same, ?_⟩
        rw [sourceSize_some, List.length_cons]
        omega
    | case3 => simp at h
    | case4 => simp at h
  obtain ⟨rfl, size⟩ := left
  omega

/-- What readers with some fuel leave of a text, besides what they have read. The items of an array come
    with the bracket that closes it, and the members of an object with its brace. -/
structure Measured (fuel : Nat) : Prop where
  value : ∀ s w rest, value fuel s = some (w, rest) → w.extent + sourceSize rest ≤ sourceSize s
  items : ∀ s xs rest, items fuel s = some (xs, rest) →
    max 1 (Written.extentItems xs) + sourceSize rest ≤ sourceSize s
  members : ∀ s ms rest, members fuel s = some (ms, rest) →
    max 1 (Written.extentMembers ms) + sourceSize rest ≤ sourceSize s

theorem sourceSize_of_skipBlanks {c : Char} {after : Source} (found : skipBlanks s = some c :: after) :
    sourceSize after + 1 ≤ sourceSize s := by
  have blanks := sourceSize_skipBlanks s
  have least := c.utf8Size_pos
  rw [found, sourceSize_some] at blanks
  omega

variable {w : Written} {xs : List Written} {ms : List (List Piece × Written)}

theorem Measured.value_succ (h : Measured fuel) (read : Json.value (fuel + 1) s = some (w, rest)) :
    w.extent + sourceSize rest ≤ sourceSize s := by
  rw [Json.value] at read
  split at read
  · rename_i c after found
    have blanks := sourceSize_of_skipBlanks found
    split at read
    · obtain ⟨ps, rfl, tail⟩ := eq_some_of_map read
      have size := stringTail_size tail
      rw [Written.extent]
      omega
    split at read
    · split at read
      · rename_i closes
        obtain ⟨rfl, rfl⟩ := Prod.mk.inj (Option.some.inj read)
        have size := sourceSize_of_skipBlanks closes
        simp only [Written.extent, Written.extentItems]
        omega
      · obtain ⟨xs, rfl, inside⟩ := eq_some_of_map read
        have size := h.items _ _ _ inside
        rw [Written.extent]
        omega
    split at read
    · split at read
      · rename_i closes
        obtain ⟨rfl, rfl⟩ := Prod.mk.inj (Option.some.inj read)
        have size := sourceSize_of_skipBlanks closes
        simp only [Written.extent, Written.extentMembers]
        omega
      · obtain ⟨ms, rfl, inside⟩ := eq_some_of_map read
        have size := h.members _ _ _ inside
        rw [Written.extent]
        omega
    split at read
    · exact Nat.le_trans (word_size rfl read) blanks
    split at read
    · exact Nat.le_trans (word_size rfl read) blanks
    split at read
    · exact Nat.le_trans (word_size rfl read) blanks
    split at read
    · obtain ⟨n, rfl, tail⟩ := eq_some_of_map read
      have size := numeralTail_size tail
      rw [Written.extent]
      simp only [if_true] at size
      omega
    · obtain ⟨n, rfl, tail⟩ := eq_some_of_map read
      have size := numeralTail_size tail
      have whole := sourceSize_skipBlanks s
      rw [found] at whole
      rw [Written.extent]
      simp only [Bool.false_eq_true, if_false] at size
      omega
  · simp at read

theorem Measured.items_succ (h : Measured fuel) (read : Json.items (fuel + 1) s = some (xs, rest)) :
    max 1 (Written.extentItems xs) + sourceSize rest ≤ sourceSize s := by
  rw [Json.items] at read
  split at read
  · simp at read
  rename_i x s₁ first
  have item := h.value _ _ _ first
  split at read
  · rename_i c after found
    have blanks := sourceSize_of_skipBlanks found
    split at read
    · obtain ⟨rfl, rfl⟩ := Prod.mk.inj (Option.some.inj read)
      simp only [Written.extentItems]
      omega
    split at read
    · obtain ⟨xs, rfl, others⟩ := eq_some_of_map read
      have size := h.items _ _ _ others
      simp only [Written.extentItems]
      omega
    · simp at read
  · simp at read

theorem Measured.members_succ (h : Measured fuel)
    (read : Json.members (fuel + 1) s = some (ms, rest)) :
    max 1 (Written.extentMembers ms) + sourceSize rest ≤ sourceSize s := by
  rw [Json.members] at read
  split at read
  · rename_i s₁ opens
    have quote := sourceSize_of_skipBlanks opens
    split at read
    · simp at read
    rename_i key s₂ named
    have name := stringTail_size named
    split at read
    · rename_i s₃ colon
      have mark := sourceSize_of_skipBlanks colon
      split at read
      · simp at read
      rename_i x s₄ first
      have member := h.value _ _ _ first
      split at read
      · rename_i c after found
        have blanks := sourceSize_of_skipBlanks found
        split at read
        · obtain ⟨rfl, rfl⟩ := Prod.mk.inj (Option.some.inj read)
          simp only [Written.extentMembers]
          omega
        split at read
        · obtain ⟨ms, rfl, others⟩ := eq_some_of_map read
          have size := h.members _ _ _ others
          simp only [Written.extentMembers]
          omega
        · simp at read
      · simp at read
    · simp at read
  · simp at read

theorem measured (fuel : Nat) : Measured fuel := by
  induction fuel with
  | zero => exact ⟨fun _ _ _ h => by simp [Json.value] at h,
      fun _ _ _ h => by simp [Json.items] at h, fun _ _ _ h => by simp [Json.members] at h⟩
  | succ fuel ih => exact ⟨fun _ _ _ => ih.value_succ, fun _ _ _ => ih.items_succ,
      fun _ _ _ => ih.members_succ⟩

/-- Nothing that is written takes more than the text it stands in. -/
theorem extent_read? (h : read? s = some w) : w.extent ≤ sourceSize s := by
  rw [read?] at h
  split at h
  · rename_i rest read
    split at h
    · obtain rfl := Option.some.inj h
      have size := (measured _).value _ _ _ read
      omega
    · simp at h
  · simp at h

theorem room_ofString {text : String} {j : Json} (h : ofString text = some j) :
    room (fun _ => 0) j ≤ (Utf8.encode text.toList).length := by
  rw [ofString, parse?] at h
  obtain ⟨w, read, worth⟩ := Option.bind_eq_some_iff.mp h
  have size := extent_read? read
  rw [sourceSize_text] at size
  exact Nat.le_trans (Written.room_json? worth) size

/-! ## Fields of messages -/

/-- How much has been written for a field that may be missing. -/
def fieldExtent (w? : Option Written) : Nat := w?.elim 0 Written.extent

def namedExtent (ms : List (String × Written)) : Nat := (ms.map (·.2.extent)).sum

theorem namedExtent_cons (m : String × Written) (ms : List (String × Written)) :
    namedExtent (m :: ms) = m.2.extent + namedExtent ms := rfl

theorem namedExtent_named? {members : List (List Piece × Written)} {named : List (String × Written)}
    (h : named? members = some named) : namedExtent named ≤ Written.extentMembers members := by
  induction members generalizing named with
  | nil =>
      obtain rfl : [] = named := by simpa [named?] using h
      exact Nat.le_refl 0
  | cons member members ih =>
      obtain ⟨key, w⟩ := member
      simp only [named?, List.mapM_cons, Option.bind_eq_bind, Option.bind_eq_some_iff,
        Option.pure_def, Option.some.injEq, Option.map_eq_some_iff] at h
      obtain ⟨_, ⟨_, _, rfl⟩, others, rest, rfl⟩ := h
      have le := ih rest
      simp only [namedExtent_cons, Written.extentMembers]
      omega

/-- Members of different names are different members. -/
theorem namedExtent_filter_add {p q r : String → Bool} (apart : ∀ name, ¬ (p name ∧ q name))
    (left : ∀ name, p name → r name) (right : ∀ name, q name → r name)
    (ms : List (String × Written)) :
    namedExtent (ms.filter (p ·.1)) + namedExtent (ms.filter (q ·.1)) ≤
      namedExtent (ms.filter (r ·.1)) := by
  induction ms with
  | nil => exact Nat.le_refl 0
  | cons m ms ih =>
      have apart := apart m.1
      have left := left m.1
      have right := right m.1
      simp only [List.filter_cons]
      cases isLeft : p m.1 <;> cases isRight : q m.1 <;> cases isBoth : r m.1 <;>
        simp_all [namedExtent_cons] <;> omega

theorem single?_extent {ms : List (String × Written)} {name : String} {w? : Option Written}
    (h : single? ms name = some w?) :
    fieldExtent w? ≤ namedExtent (ms.filter (·.1 == name)) := by
  rw [single?] at h
  split at h
  · rw [← Option.some.inj h]
    exact Nat.zero_le _
  · rename_i w only
    rw [← Option.some.inj h, only]
    exact Nat.le_refl _
  · simp at h

theorem mapM_single?_extent {names : List String} (nodup : names.Nodup)
    {ms : List (String × Written)} {fields : List (Option Written)}
    (h : names.mapM (single? ms) = some fields) :
    (fields.map fieldExtent).sum ≤ namedExtent (ms.filter (names.contains ·.1)) := by
  induction names generalizing fields with
  | nil =>
      obtain rfl : [] = fields := by simpa using h
      exact Nat.zero_le _
  | cons name names ih =>
      simp only [List.mapM_cons, Option.bind_eq_bind, Option.bind_eq_some_iff, Option.pure_def,
        Option.some.injEq] at h
      obtain ⟨w?, one, others, rest, rfl⟩ := h
      obtain ⟨new, nodup⟩ := List.nodup_cons.mp nodup
      have le := single?_extent one
      have more := ih nodup rest
      have apart : ∀ other, ¬ ((other == name) = true ∧ names.contains other = true) := by
        rintro other ⟨same, mem⟩
        rw [beq_iff_eq] at same
        subst same
        exact new (List.contains_iff_mem.mp mem)
      have parts := namedExtent_filter_add (r := (name :: names).contains) apart
        (fun other same => by simp_all) (fun other mem => by simp_all) ms
      rw [List.map_cons, List.sum_cons]
      exact Nat.le_trans (Nat.add_le_add le more) parts

theorem fieldExtent_items (items : List Written) :
    ((items.map some).map fieldExtent).sum ≤ Written.extentItems items := by
  induction items with
  | nil => exact Nat.le_refl 0
  | cons item items ih =>
      simp only [List.map_cons, List.sum_cons, fieldExtent, Option.elim_some, Written.extentItems]
        at ih ⊢
      omega

/-- The fields of a message have not been written with more than the message. -/
theorem entries?_extent {names : List String} (nodup : names.Nodup) {fields : List (Option Written)}
    (h : entries? names w = some fields) : (fields.map fieldExtent).sum ≤ w.extent := by
  cases w with
  | object members =>
      rw [entries?] at h
      obtain ⟨ms, named, single⟩ := Option.bind_eq_some_iff.mp h
      have le := mapM_single?_extent nodup single
      have part := namedExtent_filter_add (p := names.contains) (q := fun _ => false)
        (r := fun _ => true) (by simp) (by simp) (by simp) ms
      have all := namedExtent_named? named
      simp only [List.filter_true] at part
      rw [Written.extent]
      omega
  | array items =>
      rw [entries?] at h
      split at h
      · have le := fieldExtent_items items
        have missing : ((List.replicate (names.length - items.length) none).map fieldExtent).sum = 0 := by
          simp [fieldExtent]
        rw [← Option.some.inj h, List.map_append, List.sum_append, missing, Written.extent]
        omega
      · simp at h
  | _ => simp [entries?] at h

end Json

open Json

/-- The key and the value of a write request take no more than the request. -/
theorem PutRequest.extent_reading {depth : Nat} {w : Written} {r : PutRequest}
    (h : PutRequest.reading depth w = some r) :
    quoteSize r.key + room (fun _ => 0) r.value ≤ w.extent := by
  obtain ⟨deep, fields, rfl, entries, outer⟩ := Json.record_some h
  have whole := entries?_extent (by simp) entries
  split at outer
  · rename_i payload
    obtain ⟨payload, rfl, inner⟩ := Json.required_some outer
    obtain ⟨deeper, fields, rfl, entries, members⟩ := Json.record_some inner
    have parts := entries?_extent (by decide) entries
    split at members
    · simp only [Option.bind_eq_bind, Option.bind_eq_some_iff, Option.pure_def,
        Option.some.injEq] at members
      obtain ⟨key, keyFound, value, valueFound, _, _, rfl⟩ := members
      obtain ⟨wk, rfl, keyRead⟩ := Json.required_some keyFound
      obtain ⟨wv, rfl, valueRead⟩ := Json.required_some valueFound
      have valueSize := Written.room_json? valueRead
      have keySize : quoteSize key ≤ wk.extent := by
        rw [Reading.string.eq_def] at keyRead
        split at keyRead
        · exact Piece.quoteSize_string? keyRead
        · simp at keyRead
      simp only [List.map_cons, List.map_nil, List.sum_cons, List.sum_nil, fieldExtent,
        Option.elim_some] at whole parts
      simp only
      omega
    · simp at members
  · simp at outer

theorem Submission.room_ofObject {j : Json} {s : Submission} {expected : Nat} {d : Document}
    (h : Submission.ofObject j = .ok s) (write : s.write = .upsert expected d) :
    room (fun _ => 0) (.object d.fields) ≤ room (fun _ => 0) j := by
  obtain ⟨fields, _, rfl, same⟩ := Submission.ofObject_upsert h
  rw [write] at same
  obtain ⟨_, rfl⟩ := Write.upsert.inj same
  have part : ((fields.erase tokenField).erase versionField).Sublist fields :=
    (erase_sublist versionField _).trans (erase_sublist tokenField fields)
  have le := roomFields_sublist (fun _ => 0) part
  simp only [room]
  exact Nat.succ_le_succ (max_le_max_left 1 le)

/-- The document in a value takes no more than the value. -/
theorem Submission.room_ofValue {value : Json} {s : Submission} {expected : Nat} {d : Document}
    (h : Submission.ofValue value = .ok s) (write : s.write = .upsert expected d) :
    room (fun _ => 0) (.object d.fields) ≤ room (fun _ => 0) value := by
  rw [Submission.ofValue.eq_def] at h
  split at h
  · rename_i text
    split at h
    · rw [← Except.ok.inj h] at write
      simp at write
    split at h
    · simp at h
    · rename_i j read
      have inside := room_ofObject h write
      have size := room_ofString read
      have quoted := length_encode_le_escapesSize text.toList
      rw [room, quoteSize_eq]
      omega
  · exact room_ofObject h write

end QuorumStore
