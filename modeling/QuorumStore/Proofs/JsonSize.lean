import QuorumStore.Proofs.DoubleText
import QuorumStore.Proofs.MessageText
/-! # How long JSON texts are

No value is printed longer than it may have been written, apart from its doubles, which may be written
shortly and printed at length. If a text of a value is quoted once more, it at most doubles.
-/

namespace QuorumStore

namespace Utf8

theorem length_encode_cons (c : Char) (cs : List Char) :
    (encode (c :: cs)).length = c.utf8Size + (encode cs).length := by
  rw [encode, List.flatMap_cons, List.length_append, String.length_utf8EncodeChar, encode]

theorem length_encode_append (a b : List Char) :
    (encode (a ++ b)).length = (encode a).length + (encode b).length := by
  rw [encode, List.flatMap_append, List.length_append, encode, encode]

theorem utf8Size_le_one {c : Char} (ascii : c.toNat ≤ 127) : c.utf8Size = 1 :=
  Char.utf8Size_eq_one_iff.mpr ascii

theorem length_encode_ascii {cs : List Char} (ascii : ∀ c ∈ cs, c.toNat ≤ 127) :
    (encode cs).length = cs.length := by
  induction cs with
  | nil => rfl
  | cons c cs ih =>
      rw [length_encode_cons, utf8Size_le_one (ascii c List.mem_cons_self),
        ih fun c mem => ascii c (List.mem_cons_of_mem _ mem), List.length_cons, Nat.add_comm]

end Utf8

namespace Json

/-! ## Escapes -/

/-- How many bytes a character takes in a string. -/
def escapeSize (c : Char) : Nat := (Utf8.encode (escape c)).length

/-- How many bytes a string takes, with its quotes. -/
def quoteSize (s : String) : Nat := (Utf8.encode (quote s)).length

def escapesSize (cs : List Char) : Nat := (cs.map escapeSize).sum

theorem escapesSize_cons (c : Char) (cs : List Char) :
    escapesSize (c :: cs) = escapeSize c + escapesSize cs := rfl

theorem escapesSize_append (a b : List Char) :
    escapesSize (a ++ b) = escapesSize a + escapesSize b := by
  rw [escapesSize, List.map_append, List.sum_append, escapesSize, escapesSize]

theorem quoteSize_eq (s : String) : quoteSize s = escapesSize s.toList + 2 := by
  have escapes : ∀ cs : List Char,
      (Utf8.encode (cs.flatMap escape)).length = escapesSize cs := by
    intro cs
    induction cs with
    | nil => rfl
    | cons c cs ih =>
        rw [List.flatMap_cons, Utf8.length_encode_append, ih]
        rfl
  rw [quoteSize, quote, Utf8.length_encode_append, Utf8.length_encode_cons, escapes]
  have quotes : ('"' : Char).utf8Size = 1 ∧ (Utf8.encode ['"']).length = 1 := by decide
  omega

def shortEscapes : List Char := ['"', '\\', '\x08', '\x0c', '\n', '\r', '\t']

theorem escape_of_not_mem {c : Char} (long : c ∉ shortEscapes) :
    escape c = if c.toNat < 0x20 then
      ['\\', 'u', '0', '0', hexDigit (c.toNat / 16), hexDigit (c.toNat % 16)] else [c] := by
  simp only [shortEscapes, List.mem_cons, List.not_mem_nil, or_false, not_or] at long
  simp only [escape, long, if_false]

theorem escapeSize_plain {c : Char} (notQuote : c ≠ '"') (notBackslash : c ≠ '\\')
    (solid : ¬ c.toNat < 0x20) : escapeSize c = c.utf8Size := by
  have long : c ∉ shortEscapes := by
    simp only [shortEscapes, List.mem_cons, List.not_mem_nil, or_false, not_or]
    refine ⟨notQuote, notBackslash, ?_⟩
    refine ⟨?_, ?_, ?_, ?_, ?_⟩ <;> (rintro rfl; exact solid (by decide))
  rw [escapeSize, escape_of_not_mem long, if_neg solid, Utf8.length_encode_cons]
  rfl

theorem escapeSize_cases (c : Char) :
    escapeSize c = c.utf8Size ∨ escapeSize c = 2 ∧ c.utf8Size = 1 ∨
      escapeSize c = 6 ∧ c.utf8Size = 1 ∧ c.toNat < 0x20 := by
  by_cases short : c ∈ shortEscapes
  · have sizes : escapeSize c = 2 ∧ c.utf8Size = 1 := by
      simp only [shortEscapes, List.mem_cons, List.not_mem_nil, or_false] at short
      rcases short with rfl | rfl | rfl | rfl | rfl | rfl | rfl <;> decide
    exact .inr (.inl sizes)
  · rw [escapeSize, escape_of_not_mem short]
    split
    · rename_i control
      have sizes : ∀ n < 0x20, (Utf8.encode ['\\', 'u', '0', '0', hexDigit (n / 16),
          hexDigit (n % 16)]).length = 6 := by decide
      exact .inr (.inr ⟨sizes c.toNat control, Utf8.utf8Size_le_one (by omega), control⟩)
    · exact .inl (by rw [Utf8.length_encode_cons]; rfl)

theorem utf8Size_le_escapeSize (c : Char) : c.utf8Size ≤ escapeSize c := by
  rcases escapeSize_cases c with same | two | six
  · omega
  · omega
  · omega

theorem escapeSize_le (c : Char) : escapeSize c ≤ 6 := by
  have most := c.utf8Size_le_four
  rcases escapeSize_cases c with same | two | six
  · omega
  · omega
  · omega

theorem escapeSize_le_mul (c : Char) : escapeSize c ≤ 6 * c.utf8Size := by
  rcases escapeSize_cases c with same | two | six
  · omega
  · omega
  · omega

/-- Whatever is no control character takes at most twice its own bytes. -/
theorem escapeSize_le_double {c : Char} (solid : 0x20 ≤ c.toNat) :
    escapeSize c ≤ 2 * c.utf8Size := by
  have least := c.utf8Size_pos
  rcases escapeSize_cases c with same | two | six
  · omega
  · omega
  · omega

/-! ## Values -/

mutual

/-- How many bytes a value takes if each of its doubles takes as many as it is given. -/
def room (given : Binary64 → Nat) : Json → Nat
  | .null | .bool true => 4
  | .bool false => 5
  | .number (.integer i) => (Number.integer i).print.length
  | .number (.double x) => given x
  | .string s => quoteSize s
  | .array items => max 1 (roomItems given items) + 1
  | .object fields => max 1 (roomFields given fields) + 1

/-- Every item takes a comma or the closing bracket besides itself. -/
def roomItems (given : Binary64 → Nat) : List Json → Nat
  | [] => 0
  | item :: rest => room given item + 1 + roomItems given rest

def roomFields (given : Binary64 → Nat) : Fields → Nat
  | [] => 0
  | (key, value) :: rest => quoteSize key + room given value + 2 + roomFields given rest

end

mutual

/-- How many doubles there are in a value. -/
def doubles : Json → Nat
  | .null | .bool _ | .string _ => 0
  | .number (.integer _) => 0
  | .number (.double _) => 1
  | .array items => doublesItems items
  | .object fields => doublesFields fields

def doublesItems : List Json → Nat
  | [] => 0
  | item :: rest => doubles item + doublesItems rest

def doublesFields : Fields → Nat
  | [] => 0
  | (_, value) :: rest => doubles value + doublesFields rest

end

variable {given : Binary64 → Nat}

mutual

/-- A double that takes at most some number of bytes counts that much more than nothing. -/
theorem room_le {most : Nat} (bound : ∀ x, given x ≤ most) :
    ∀ j : Json, room given j ≤ room (fun _ => 0) j + most * doubles j
  | .null | .bool true | .bool false | .string _ | .number (.integer _) => Nat.le_add_right ..
  | .number (.double x) => by
      have le := bound x
      simp only [room, doubles]
      omega
  | .array items => by
      have le := roomItems_le bound items
      simp only [room, doubles]
      omega
  | .object fields => by
      have le := roomFields_le bound fields
      simp only [room, doubles]
      omega

theorem roomItems_le {most : Nat} (bound : ∀ x, given x ≤ most) : ∀ items : List Json,
    roomItems given items ≤ roomItems (fun _ => 0) items + most * doublesItems items
  | [] => Nat.le_add_right ..
  | item :: rest => by
      have le := room_le bound item
      have more := roomItems_le bound rest
      simp only [roomItems, doublesItems, Nat.mul_add]
      omega

theorem roomFields_le {most : Nat} (bound : ∀ x, given x ≤ most) : ∀ fields : Fields,
    roomFields given fields ≤ roomFields (fun _ => 0) fields + most * doublesFields fields
  | [] => Nat.le_add_right ..
  | (key, value) :: rest => by
      have le := room_le bound value
      have more := roomFields_le bound rest
      simp only [roomFields, doublesFields, Nat.mul_add]
      omega

end

/-! ## Printed values -/

theorem marks_ascii {cs : List Char} (marks : Binary64.Marks cs) :
    ∀ c ∈ cs, 0x20 ≤ c.toNat ∧ c.toNat ≤ 127 := by
  intro c mem
  rcases marks c mem with digit | rfl | rfl | rfl | rfl
  · obtain ⟨low, high⟩ := Char.isDigit_iff_toNat.mp digit
    simp only [Char.reduceToNat] at low high
    omega
  · decide
  · decide
  · decide
  · decide

theorem marks_number (n : Number) : Binary64.Marks n.print := by
  cases n with
  | double x => exact Binary64.marks_text x
  | integer i =>
      cases i with
      | ofNat n => exact Binary64.marks_digits n
      | negSucc n =>
          exact .append (a := ['-']) (by simp [Binary64.Marks]) (Binary64.marks_digits (n + 1))

theorem length_encode_number (n : Number) : (Utf8.encode n.print).length = n.print.length :=
  Utf8.length_encode_ascii fun c mem => (marks_ascii (marks_number n) c mem).2

/-- How many bytes a double takes. -/
def doubleSize (x : Binary64) : Nat := (doubleLayout.text x).length

theorem length_encode_mark {c : Char} (mark : c.toNat ≤ 127) (cs : List Char) :
    (Utf8.encode (c :: cs)).length = (Utf8.encode cs).length + 1 := by
  rw [Utf8.length_encode_cons, Utf8.utf8Size_le_one mark, Nat.add_comm]

theorem length_encode_closed {first last : Char} (opens : first.toNat ≤ 127)
    (closes : last.toNat ≤ 127) (cs : List Char) :
    (Utf8.encode (first :: cs ++ [last])).length = (Utf8.encode cs).length + 2 := by
  rw [Utf8.length_encode_append, length_encode_mark opens, length_encode_mark closes]
  rfl

mutual

theorem length_print : ∀ j : Json, (Utf8.encode (print j)).length = room doubleSize j
  | .null | .bool true | .bool false => rfl
  | .number (.integer i) => length_encode_number (.integer i)
  | .number (.double x) => length_encode_number (.double x)
  | .string _ => rfl
  | .array items => by
      have inside := length_printItems items
      rw [print, room, length_encode_closed (by decide) (by decide)]
      omega
  | .object fields => by
      have inside := length_printFields fields
      rw [print, room, length_encode_closed (by decide) (by decide)]
      omega

theorem length_printItems : ∀ items : List Json,
    (Utf8.encode (printItems items)).length + 1 = max 1 (roomItems doubleSize items)
  | [] => rfl
  | [item] => by
      have size := length_print item
      simp only [printItems, roomItems]
      omega
  | item :: next :: rest => by
      have size := length_print item
      have others := length_printItems (next :: rest)
      rw [printItems_cons, Utf8.length_encode_append, length_encode_mark (by decide), size,
        roomItems]
      simp only [roomItems] at others ⊢
      omega

theorem length_printFields : ∀ fields : Fields,
    (Utf8.encode (printFields fields)).length + 1 = max 1 (roomFields doubleSize fields)
  | [] => rfl
  | [(key, value)] => by
      have size := length_print value
      rw [printFields, Utf8.length_encode_append, length_encode_mark (by decide), size]
      simp only [roomFields, quoteSize]
      omega
  | (key, value) :: next :: rest => by
      have size := length_print value
      have others := length_printFields (next :: rest)
      rw [printFields_cons, Utf8.length_encode_append, length_encode_mark (by decide),
        Utf8.length_encode_append, length_encode_mark (by decide), size]
      simp only [roomFields, quoteSize] at others ⊢
      omega

end

theorem length_bytes (j : Json) : j.bytes.length = room doubleSize j := length_print j

/-! ## Quoted values -/

/-- A text without control characters. -/
def Solid (cs : List Char) : Prop := ∀ c ∈ cs, 0x20 ≤ c.toNat

theorem Solid.append {a b : List Char} (front : Solid a) (back : Solid b) : Solid (a ++ b) :=
  fun c mem => (List.mem_append.mp mem).elim (front c) (back c)

theorem Solid.cons {c : Char} {cs : List Char} (front : 0x20 ≤ c.toNat) (back : Solid cs) :
    Solid (c :: cs) :=
  fun _ mem => (List.mem_cons.mp mem).elim (fun same => same ▸ front) (back _)

theorem Solid.closed {first last : Char} {cs : List Char} (inside : Solid cs)
    (opens : 0x20 ≤ first.toNat) (closes : 0x20 ≤ last.toNat) : Solid (first :: cs ++ [last]) :=
  .append (.cons opens inside) (.cons closes (by simp [Solid]))

theorem solid_escape (c : Char) : Solid (escape c) := by
  have nil : Solid [] := by simp [Solid]
  by_cases short : c ∈ shortEscapes
  · simp only [shortEscapes, List.mem_cons, List.not_mem_nil, or_false] at short
    rcases short with rfl | rfl | rfl | rfl | rfl | rfl | rfl <;>
      exact .cons (by decide) (.cons (by decide) nil)
  · rw [escape_of_not_mem short]
    split
    · rename_i control
      have digit : ∀ n < 16, 0x20 ≤ (hexDigit n).toNat := by decide
      have high := digit (c.toNat / 16) (by omega)
      have low := digit (c.toNat % 16) (by omega)
      have front : ∀ {cs}, Solid cs → Solid (['\\', 'u', '0', '0'] ++ cs) := fun back =>
        .cons (by decide) (.cons (by decide) (.cons (by decide) (.cons (by decide) back)))
      exact front (.cons high (.cons low nil))
    · rename_i solid
      exact .cons (Nat.not_lt.mp solid) nil

theorem solid_quote (s : String) : Solid (quote s) := by
  refine .closed ?_ (by decide) (by decide)
  intro c mem
  obtain ⟨d, _, inside⟩ := List.mem_flatMap.mp mem
  exact solid_escape d c inside

mutual

theorem solid_print : ∀ j : Json, Solid (print j)
  | .null | .bool true | .bool false => by simp [print, Solid]
  | .number n => fun c mem => (marks_ascii (marks_number n) c mem).1
  | .string s => solid_quote s
  | .array items => (solid_printItems items).closed (by decide) (by decide)
  | .object fields => (solid_printFields fields).closed (by decide) (by decide)

theorem solid_printItems : ∀ items : List Json, Solid (printItems items)
  | [] => by simp [printItems, Solid]
  | [item] => solid_print item
  | item :: next :: rest =>
      (solid_print item).append (.cons (by decide) (solid_printItems (next :: rest)))

theorem solid_printFields : ∀ fields : Fields, Solid (printFields fields)
  | [] => by simp [printFields, Solid]
  | [(key, value)] => (solid_quote key).append (.cons (by decide) (solid_print value))
  | (key, value) :: next :: rest => by
      rw [printFields_cons]
      exact (solid_quote key).append (.cons (by decide)
        ((solid_print value).append (.cons (by decide) (solid_printFields (next :: rest)))))

end

theorem escapesSize_le {factor : Nat} {cs : List Char}
    (each : ∀ c ∈ cs, escapeSize c ≤ factor * c.utf8Size) :
    escapesSize cs ≤ factor * (Utf8.encode cs).length := by
  induction cs with
  | nil => exact Nat.zero_le _
  | cons c cs ih =>
      have first := each c List.mem_cons_self
      have others := ih fun d mem => each d (List.mem_cons_of_mem _ mem)
      rw [escapesSize_cons, Utf8.length_encode_cons, Nat.mul_add]
      exact Nat.add_le_add first others

/-- Only control characters take more than twice their own bytes, and no character more than six
    times. -/
theorem quoteSize_le (s : String) : quoteSize s ≤ 6 * (Utf8.ofString s).length + 2 := by
  have each : escapesSize s.toList ≤ 6 * (Utf8.encode s.toList).length :=
    escapesSize_le fun c _ => escapeSize_le_mul c
  rw [quoteSize_eq, Utf8.ofString]
  omega

theorem length_encode_le_escapesSize (cs : List Char) :
    (Utf8.encode cs).length ≤ escapesSize cs := by
  induction cs with
  | nil => exact Nat.le_refl 0
  | cons c cs ih =>
      have first := utf8Size_le_escapeSize c
      rw [escapesSize_cons, Utf8.length_encode_cons]
      omega

/-- The text of a value takes at most twice as many bytes in a string as by itself. -/
theorem quoteSize_compact_le (j : Json) : quoteSize j.compact ≤ 2 * j.bytes.length + 2 := by
  have double := escapesSize_le fun c mem => escapeSize_le_double (solid_print j c mem)
  rw [quoteSize_eq, compact, String.toList_ofList, bytes]
  omega

end Json

end QuorumStore
