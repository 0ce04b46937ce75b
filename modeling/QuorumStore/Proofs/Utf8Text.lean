import QuorumStore.Text.Utf8
/-! # Text as bytes

What is encoded is found again, character by character and with nothing left over.
-/

namespace QuorumStore.Utf8

variable {a b c d : UInt8} {ch : Char} {rest : List UInt8}

theorem ofCode?_toNat (ch : Char) : ofCode? ch.toNat = some ch := by
  have valid : ch.toNat.isValidChar := ch.valid
  rw [ofCode?, if_pos valid, Char.ofNat_toNat]

theorem ofCode?_of_eq {n : Nat} (same : n = ch.toNat) : ofCode? n = some ch :=
  same ▸ ofCode?_toNat ch

theorem toNat_ofNat {n : Nat} (small : n < 256) : (UInt8.ofNat n).toNat = n :=
  UInt8.toNat_ofNat_of_lt' small

theorem continuation?_ofNat (n : Nat) :
    continuation? (UInt8.ofNat (n % 64 + 128)) = some (n % 64) := by
  rw [continuation?, toNat_ofNat (by omega), if_pos (by omega)]
  exact congrArg some (by omega)

/-! ## One character -/

theorem scan_one (small : a.toNat < 0x80) :
    scan (a :: rest) = some (Char.ofNat a.toNat) :: scan rest := by
  rw [scan.eq_def]
  simp only [if_pos small]

theorem scan_two (large : ¬ a.toNat < 0x80) (found : two? a b = some ch) :
    scan (a :: b :: rest) = some ch :: scan rest := by
  rw [scan.eq_def]
  simp only [if_neg large, found]

theorem scan_three (large : ¬ a.toNat < 0x80) (notTwo : two? a b = none)
    (found : three? a b c = some ch) : scan (a :: b :: c :: rest) = some ch :: scan rest := by
  rw [scan.eq_def]
  simp only [if_neg large, notTwo, found]

theorem scan_four (large : ¬ a.toNat < 0x80) (notTwo : two? a b = none)
    (notThree : three? a b c = none) (found : four? a b c d = some ch) :
    scan (a :: b :: c :: d :: rest) = some ch :: scan rest := by
  rw [scan.eq_def]
  simp only [if_neg large, notTwo, notThree, found]

theorem two?_eq_none (lead : a.toNat / 32 ≠ 6) : two? a b = none := by
  rw [two?]
  split
  · exact if_neg fun h => lead h.1
  · rfl

theorem three?_eq_none (lead : a.toNat / 16 ≠ 14) : three? a b c = none := by
  rw [three?]
  split
  · exact if_neg fun h => lead h.1
  · rfl

theorem scan_encodeChar (ch : Char) (rest : List UInt8) :
    scan (String.utf8EncodeChar ch ++ rest) = some ch :: scan rest := by
  have highest : ch.toNat < 0x110000 := by
    rcases ch.valid with low | ⟨_, high⟩
    · exact Nat.lt_trans low (by decide)
    · exact high
  have same : ch.val.toNat = ch.toNat := rfl
  rw [String.utf8EncodeChar, same]
  -- as many bytes as the code point takes
  by_cases one : ch.toNat ≤ 127
  · have byte : (UInt8.ofNat ch.toNat).toNat = ch.toNat := toNat_ofNat (by omega)
    rw [if_pos one, List.singleton_append, scan_one (by omega), byte, Char.ofNat_toNat]
  rw [if_neg one]
  by_cases two : ch.toNat ≤ 2047
  · have lead := toNat_ofNat (n := ch.toNat / 64 % 32 + 192) (by omega)
    rw [if_pos two]
    refine scan_two (by omega) ?_
    rw [two?, continuation?_ofNat]
    simp only [lead]
    rw [if_pos (by omega)]
    exact ofCode?_of_eq (by omega)
  rw [if_neg two]
  by_cases three : ch.toNat ≤ 65535
  · have lead := toNat_ofNat (n := ch.toNat / 4096 % 16 + 224) (by omega)
    rw [if_pos three]
    refine scan_three (by omega) (two?_eq_none (by omega)) ?_
    rw [three?, continuation?_ofNat, continuation?_ofNat]
    simp only [lead]
    rw [if_pos (by omega)]
    exact ofCode?_of_eq (by omega)
  · have lead := toNat_ofNat (n := ch.toNat / 262144 % 8 + 240) (by omega)
    rw [if_neg three]
    refine scan_four (by omega) (two?_eq_none (by omega)) (three?_eq_none (by omega)) ?_
    rw [four?, continuation?_ofNat, continuation?_ofNat, continuation?_ofNat]
    simp only [lead]
    rw [if_pos (by omega)]
    exact ofCode?_of_eq (by omega)

/-- A text is found again in its bytes. -/
theorem scan_encode (cs : List Char) : scan (encode cs) = cs.map some := by
  induction cs with
  | nil => rfl
  | cons ch cs ih =>
      rw [encode, List.flatMap_cons, scan_encodeChar, List.map_cons, ← ih, encode]

theorem decode?_encode (cs : List Char) : decode? (encode cs) = some cs := by
  rw [decode?, scan_encode]
  induction cs with
  | nil => rfl
  | cons ch cs ih => simp [ih]

end QuorumStore.Utf8
