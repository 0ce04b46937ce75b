import QuorumStore.Text.Decimal
import Mathlib.Data.List.Induction
/-! # Numerals

What digits denote is said digit by digit from the left, and a numeral is read exactly if it denotes
something. One plus sign may stand in front, and a limit cuts nothing off: what does not fit is not
read.
-/

namespace QuorumStore.Decimal

variable {cs : List Char} {n limit : Nat}

/-- Digits that denote a number. Zeros may stand in front. -/
inductive Denotes : List Char → Nat → Prop where
  | digit {d : Nat} (small : d < 10) : Denotes [Nat.digitChar d] d
  | next {cs : List Char} {n d : Nat} (front : Denotes cs n) (small : d < 10) :
      Denotes (cs ++ [Nat.digitChar d]) (10 * n + d)

theorem exists_digitChar {c : Char} (digit : c.isDigit = true) :
    ∃ d < 10, c = Nat.digitChar d := by
  obtain ⟨low, high⟩ := Char.isDigit_iff_toNat.mp digit
  have low : 48 ≤ c.toNat := low
  have high : c.toNat ≤ 57 := high
  refine ⟨c.toNat - 48, by omega, ?_⟩
  apply Char.toNat_inj.mp
  rw [Nat.toNat_digitChar_of_lt_ten (by omega)]
  omega

namespace Denotes

theorem ne_nil (h : Denotes cs n) : cs ≠ [] := by
  cases h with
  | digit small => exact List.cons_ne_nil _ _
  | next front small => exact List.concat_ne_nil _ _

theorem isDigit (h : Denotes cs n) : ∀ c ∈ cs, c.isDigit = true := by
  have digit : ∀ {d : Nat}, d < 10 → (Nat.digitChar d).isDigit = true :=
    fun small => Nat.isDigit_digitChar.trans (decide_eq_true small)
  induction h with
  | digit small =>
      intro c mem
      rw [List.mem_singleton.mp mem]
      exact digit small
  | next front small ih =>
      intro c mem
      cases List.mem_append.mp mem with
      | inl inFront => exact ih c inFront
      | inr last =>
          rw [List.mem_singleton.mp last]
          exact digit small

theorem value (h : Denotes cs n) : Nat.ofDigitChars 10 cs 0 = n := by
  have worth : ∀ {d : Nat}, d < 10 → (Nat.digitChar d).toNat - '0'.toNat = d :=
    fun small => Nat.toNat_digitChar_sub_48_of_lt_ten small
  induction h with
  | digit small => rw [Nat.ofDigitChars_cons, worth small, Nat.ofDigitChars_nil, Nat.zero_add]
  | next front small ih =>
      rw [Nat.ofDigitChars_append, ih, Nat.ofDigitChars_cons, worth small, Nat.ofDigitChars_nil]

end Denotes

/-- Any digits denote a number. -/
theorem denotes_ofDigitChars (filled : cs ≠ []) (digits : ∀ c ∈ cs, c.isDigit = true) :
    Denotes cs (Nat.ofDigitChars 10 cs 0) := by
  induction cs using List.reverseRecOn with
  | nil => contradiction
  | append_singleton front c ih =>
      obtain ⟨d, small, rfl⟩ := exists_digitChar (digits c List.mem_concat_self)
      by_cases alone : front = []
      · have single : Denotes [Nat.digitChar d] d := .digit small
        rw [alone, List.nil_append, single.value]
        exact single
      · have before : Denotes front (Nat.ofDigitChars 10 front 0) :=
          ih alone fun c mem => digits c (List.mem_append_left _ mem)
        have whole := before.next small
        rw [whole.value]
        exact whole

theorem natural?_eq_some_iff : natural? cs = some n ↔ Denotes cs n := by
  constructor
  · intro found
    rw [natural?] at found
    split at found
    · rename_i shape
      rw [Bool.and_eq_true, Bool.not_eq_true', List.isEmpty_eq_false_iff, List.all_eq_true] at shape
      obtain ⟨filled, digits⟩ := shape
      exact Option.some.inj found ▸ denotes_ofDigitChars filled digits
    · contradiction
  · intro denotes
    have filled : cs.isEmpty = false := List.isEmpty_eq_false_iff.mpr denotes.ne_nil
    have digits : cs.all Char.isDigit = true := List.all_eq_true.mpr denotes.isDigit
    rw [natural?, filled, digits, denotes.value]
    rfl

theorem denotes_digits (n : Nat) : Denotes (digits n) n := by
  have filled : digits n ≠ [] := List.ne_nil_of_length_pos Nat.length_toDigits_pos
  have denotes := denotes_ofDigitChars filled fun c mem =>
    Nat.isDigit_of_mem_toDigits (by decide) (by decide) mem
  rw [digits, Nat.ofDigitChars_ten_toDigits] at denotes
  exact denotes

/-- A plus sign that may be missing. -/
def Plus (sign : List Char) : Prop := sign = [] ∨ sign = ['+']

theorem exists_plus (cs : List Char) : ∃ sign, Plus sign ∧ sign ++ unsigned cs = cs := by
  unfold unsigned
  split
  · exact ⟨['+'], .inr rfl, rfl⟩
  · exact ⟨[], .inl rfl, rfl⟩

theorem unsigned_of_denotes {sign : List Char} (plus : Plus sign) (h : Denotes cs n) :
    unsigned (sign ++ cs) = cs := by
  cases plus with
  | inl none =>
      rw [none, List.nil_append, unsigned]
      rintro rest rfl
      exact absurd (h.isDigit '+' List.mem_cons_self) (by decide)
  | inr one =>
      rw [one]
      rfl

/-- Below a limit, a numeral is read exactly if it is digits, with one plus sign or none. -/
theorem below?_eq_some_iff : below? limit cs = some n ↔
    ∃ sign digits, cs = sign ++ digits ∧ Plus sign ∧ Denotes digits n ∧ n < limit := by
  constructor
  · intro found
    obtain ⟨sign, plus, whole⟩ := exists_plus cs
    rw [below?] at found
    split at found
    · rename_i m digits
      split at found
      · rename_i small
        obtain rfl := Option.some.inj found
        exact ⟨sign, unsigned cs, whole.symm, plus, natural?_eq_some_iff.mp digits, small⟩
      · contradiction
    · contradiction
  · rintro ⟨sign, digits, rfl, plus, denotes, small⟩
    rw [below?, unsigned_of_denotes plus denotes, natural?_eq_some_iff.mpr denotes]
    exact if_pos small

theorem below?_digits (small : n < limit) : below? limit (digits n) = some n :=
  below?_eq_some_iff.mpr ⟨[], digits n, rfl, .inl rfl, denotes_digits n, small⟩

end QuorumStore.Decimal
