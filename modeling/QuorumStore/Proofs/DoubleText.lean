import QuorumStore.Json.Printer
import Mathlib.Tactic.Ring
/-! # How long the text of a double is

The shortest decimal of a double has at most seventeen digits or is a power of ten, and its point is
at most a few hundred places away. So there is room for any double in 25 characters.
-/

namespace QuorumStore.Binary64

/-! ## Powers of ten -/

theorem lt_pow_toDigits (n : Nat) : n < 10 ^ (Nat.toDigits 10 n).length :=
  (Nat.length_toDigits_le_iff (by decide) Nat.length_toDigits_pos).mp (Nat.le_refl _)

theorem pow_toDigits_le {n : Nat} (pos : 0 < n) : 10 ^ ((Nat.toDigits 10 n).length - 1) ≤ n := by
  by_contra short
  have some : 0 < (Nat.toDigits 10 n).length := Nat.length_toDigits_pos
  by_cases one : (Nat.toDigits 10 n).length = 1
  · rw [one] at short
    omega
  · have fewer := (Nat.length_toDigits_le_iff (by decide) (by omega)).mpr (Nat.not_le.mp short)
    omega

theorem Ratio.decimal_one (e : Int) :
    Ratio.decimal 1 e = ⟨10 ^ e.toNat, 10 ^ (-e).toNat⟩ := by
  rw [decimal]
  split
  · rename_i up
    rw [Int.toNat_of_nonpos (by omega : -e ≤ 0), Nat.one_mul]
    rfl
  · rename_i down
    rw [Int.toNat_of_nonpos (by omega : e ≤ 0)]
    rfl

/-- A fraction is below a power of ten. -/
def Ratio.Below (r : Ratio) (point : Int) : Prop :=
  r.num * 10 ^ (-point).toNat < r.den * 10 ^ point.toNat

variable {r : Ratio} {point : Int}

theorem below_pointPosition (positive : 0 < r.den) : r.Below (pointPosition r) := by
  rw [pointPosition]
  split
  · have quotient := lt_pow_toDigits (r.num / r.den)
    rw [Ratio.Below, Int.toNat_natCast, Int.toNat_of_nonpos (by omega), Nat.pow_zero, Nat.mul_one,
      Nat.mul_comm]
    exact (Nat.div_lt_iff_lt_mul positive).mp quotient
  · simp only
    split
    · rw [Ratio.Below]
      simp
      omega
    · rename_i long
      -- the fraction is below one over `short - 1`, which has a digit more than the zeros it means
      let short := (r.den + r.num - 1) / r.num
      let count := (Nat.toDigits 10 (short - 1)).length
      have some : 0 < count := Nat.length_toDigits_pos
      have least : 10 ^ (count - 1) ≤ short - 1 := pow_toDigits_le (by omega)
      have product : r.num * short ≤ r.den + r.num - 1 := Nat.mul_div_le _ _
      have reduced : r.num * (short - 1) < r.den := by
        rw [Nat.mul_sub, Nat.mul_one]
        have numerator : 0 < r.num := by
          by_contra none
          have zero : short = 0 := by simp [short, Nat.eq_zero_of_not_pos none]
          omega
        omega
      rw [Ratio.Below, Int.toNat_of_nonpos (by omega : 1 - (count : Int) ≤ 0), Nat.pow_zero,
        Nat.mul_one, (by omega : (-(1 - (count : Int))).toNat = count - 1)]
      exact Nat.lt_of_le_of_lt (Nat.mul_le_mul_left r.num least) reduced

/-- The point is not further away than the numerator and the denominator have digits. -/
theorem pointPosition_bounds {whole parts : Nat} (num : r.num < 10 ^ whole)
    (den : r.den < 10 ^ parts) (positive : 0 < r.den) (some : 0 < whole) (some' : 0 < parts) :
    1 - (parts : Int) ≤ pointPosition r ∧ pointPosition r ≤ whole := by
  rw [pointPosition]
  split
  · have below : r.num / r.den < 10 ^ whole := Nat.lt_of_le_of_lt (Nat.div_le_self ..) num
    have digits := (Nat.length_toDigits_le_iff (by decide) some).mpr below
    omega
  · rename_i small
    simp only
    split
    · omega
    · have quotient : (r.den + r.num - 1) / r.num - 1 < 10 ^ parts := by
        have le : (r.den + r.num - 1) / r.num ≤ r.den := by
          by_cases none : r.num = 0
          · rw [none, Nat.div_zero]
            omega
          · refine Nat.div_le_of_le_mul ?_
            have split : r.den + r.num ≤ r.num * r.den + 1 := by
              obtain ⟨n, same⟩ := Nat.exists_eq_succ_of_ne_zero none
              obtain ⟨d, same'⟩ := Nat.exists_eq_succ_of_ne_zero (Nat.ne_of_gt positive)
              rw [same, same', Nat.succ_mul_succ]
              have : 0 ≤ n * d := Nat.zero_le _
              omega
            omega
        omega
      have digits := (Nat.length_toDigits_le_iff (by decide) some').mpr quotient
      omega

/-! ## Values -/

theorem mantissa_lt (code : Nat) : mantissa code < 2 ^ 53 := by
  have size : binade = 2 ^ 52 := rfl
  rw [mantissa]
  split
  · rename_i low
    have below := Nat.lt_of_div_eq_zero (by decide) low
    omega
  · have rest : code % binade < binade := Nat.mod_lt _ (by decide)
    omega

theorem exponent_bounds {code : Nat} (small : code < signBit) :
    -1074 ≤ exponent code ∧ exponent code ≤ 972 := by
  have few : code / binade < 2048 := Nat.div_lt_of_lt_mul small
  rw [exponent]
  generalize code / binade = field at few
  split
  · omega
  · omega

theorem value_bounds {code : Nat} (small : code < signBit) :
    (value code).num < 10 ^ 309 ∧ (value code).den < 10 ^ 324 ∧ 0 < (value code).den := by
  have mantissa := mantissa_lt code
  obtain ⟨low, high⟩ := exponent_bounds small
  rw [value, Ratio.scaled]
  split
  · refine ⟨?_, (by decide +kernel : 1 < 10 ^ 324), Nat.one_pos⟩
    have bounded : (exponent code).toNat ≤ 972 := by omega
    have power := Nat.pow_le_pow_right Nat.two_pos bounded
    refine Nat.lt_of_le_of_lt (Nat.mul_le_mul (Nat.le_of_lt mantissa) power) ?_
    decide +kernel
  · refine ⟨Nat.lt_trans mantissa (by decide +kernel), ?_, Nat.pow_pos (by decide)⟩
    have bounded : (-exponent code).toNat ≤ 1074 := by omega
    have power := Nat.pow_le_pow_right Nat.two_pos bounded
    exact Nat.lt_of_le_of_lt power (by decide +kernel)

/-! ## Shortest decimals -/

/-- What is below a power of ten has at most as many digits on a grid as the grid has. -/
theorem floor_lt (below : r.Below point) (count : Nat) :
    (r.num * (Ratio.decimal 1 (point - count)).den) /
      (r.den * (Ratio.decimal 1 (point - count)).num) < 10 ^ count := by
  rw [Ratio.decimal_one]
  refine Nat.div_lt_of_lt_mul ?_
  simp only
  have balance : (-(point - (count : Int))).toNat + point.toNat =
      count + (-point).toNat + (point - (count : Int)).toNat := by omega
  refine Nat.lt_of_mul_lt_mul_right (a := 10 ^ point.toNat) ?_
  calc r.num * 10 ^ (-(point - (count : Int))).toNat * 10 ^ point.toNat
      = r.num * 10 ^ (-point).toNat * 10 ^ (count + (point - (count : Int)).toNat) := by
        rw [Nat.mul_assoc, ← Nat.pow_add, balance, Nat.mul_assoc, ← Nat.pow_add]
        congr 2
        omega
    _ < r.den * 10 ^ point.toNat * 10 ^ (count + (point - (count : Int)).toNat) :=
        Nat.mul_lt_mul_of_pos_right below (Nat.pow_pos (by decide))
    _ = r.den * 10 ^ (point - (count : Int)).toNat * 10 ^ count * 10 ^ point.toNat := by
        rw [Nat.pow_add]
        ring

theorem nearer_le (r : Ratio) (floor : Nat) (e : Int) :
    (nearer r floor e).digits ≤ floor + 1 ∧ (nearer r floor e).exponent = e := by
  simp only [nearer]
  split
  · exact ⟨by simp, rfl⟩
  · split
    · exact ⟨Nat.le_refl _, rfl⟩
    · exact ⟨by simp only; omega, rfl⟩

theorem onGrid?_le {b : Basin} {count : Nat} {d : Decimal} (below : r.Below point)
    (found : onGrid? r b point count = some d) :
    d.digits ≤ 10 ^ count ∧ d.exponent = point - count := by
  have floor := floor_lt below count
  simp only [onGrid?] at found
  split at found
  · obtain rfl := Option.some.inj found
    obtain ⟨digits, exponent⟩ := nearer_le r _ (point - count)
    exact ⟨by omega, exponent⟩
  · obtain rfl := Option.some.inj found
    exact ⟨Nat.le_of_lt floor, rfl⟩
  · obtain rfl := Option.some.inj found
    exact ⟨floor, rfl⟩
  · simp at found

theorem shortestFrom_le (b : Basin) (below : r.Below point) (more count : Nat)
    (few : count + more ≤ 17) :
    (shortestFrom r b point more count).digits ≤ 10 ^ 17 ∧
      point - 17 ≤ (shortestFrom r b point more count).exponent ∧
      (shortestFrom r b point more count).exponent ≤ point := by
  have grows : 10 ^ count ≤ 10 ^ 17 := Nat.pow_le_pow_right (by decide) (by omega)
  induction more generalizing count with
  | zero =>
      have floor := floor_lt below count
      obtain ⟨digits, exponent⟩ := nearer_le r _ (point - count)
      rw [shortestFrom, exponent]
      exact ⟨by omega, by omega, by omega⟩
  | succ more ih =>
      rw [shortestFrom]
      split
      · rename_i d found
        obtain ⟨digits, exponent⟩ := onGrid?_le below found
        exact ⟨by omega, by omega, by omega⟩
      · exact ih (count + 1) (by omega) (Nat.pow_le_pow_right (by decide) (by omega))

theorem shortest_le {code : Nat} (small : code < signBit) :
    (shortest code).digits ≤ 10 ^ 17 ∧ -340 ≤ (shortest code).exponent ∧
      (shortest code).exponent ≤ 309 := by
  obtain ⟨num, den, positive⟩ := value_bounds small
  obtain ⟨low, high⟩ := pointPosition_bounds num den positive (by decide) (by decide)
  obtain ⟨digits, least, most⟩ :=
    shortestFrom_le (basin code) (below_pointPosition positive) 16 1 (by decide)
  exact ⟨digits, Int.le_trans (by omega) least, Int.le_trans most high⟩

theorem Decimal.strip_le (fuel : Nat) (d : Decimal) : (d.strip fuel).digits ≤ d.digits ∧
    d.exponent ≤ (d.strip fuel).exponent ∧ (d.strip fuel).exponent ≤ d.exponent + fuel := by
  induction fuel generalizing d with
  | zero => exact ⟨Nat.le_refl _, Int.le_refl _, by simp [strip]⟩
  | succ fuel ih =>
      rw [strip]
      split
      · obtain ⟨digits, least, most⟩ := ih ⟨d.digits / 10, d.exponent + 1⟩
        simp only at digits least most
        exact ⟨by omega, by omega, by omega⟩
      · exact ⟨Nat.le_refl _, Int.le_refl _, by omega⟩

/-! ## Texts -/

theorem length_write_le {d : Decimal} (digits : d.digits ≤ 10 ^ 17) (low : -340 ≤ d.exponent)
    (high : d.exponent ≤ 709) : (Json.doubleLayout.write d).length ≤ 24 := by
  have count : (Nat.toDigits 10 d.digits).length ≤ 18 :=
    (Nat.length_toDigits_le_iff (by decide) (by decide)).mpr (by omega)
  rw [Layout.write, Json.doubleLayout]
  simp only
  generalize Nat.toDigits 10 d.digits = ds at count
  by_cases plain : -5 ≤ (ds.length : Int) + d.exponent - 1 ∧ (ds.length : Int) + d.exponent - 1 < 16
  · rw [if_pos plain]
    by_cases whole : 0 ≤ d.exponent
    · rw [if_pos whole]
      simp only [List.length_append, List.length_replicate, List.length_cons, List.length_nil]
      omega
    · rw [if_neg whole]
      by_cases inside : 0 < (ds.length : Int) + d.exponent
      · rw [if_pos inside]
        simp only [List.length_append, List.length_cons, List.length_take, List.length_drop]
        omega
      · rw [if_neg inside]
        simp only [List.length_append, List.length_cons, List.length_replicate]
        omega
  · rw [if_neg plain]
    have power : (Nat.toDigits 10 ((ds.length : Int) + d.exponent - 1).natAbs).length ≤ 3 :=
      (Nat.length_toDigits_le_iff (by decide) (by decide)).mpr (by omega)
    have sign : (if (ds.length : Int) + d.exponent - 1 < 0 then ['-'] else ['+']).length = 1 := by
      split <;> rfl
    simp only [List.length_append, List.length_cons, List.length_take, sign]
    by_cases single : ds.length = 1
    · rw [if_pos single, List.length_nil]
      omega
    · rw [if_neg single, List.length_cons, List.length_drop]
      omega

/-- Any double is written with at most 25 characters. -/
theorem length_text_le (x : Binary64) : (Json.doubleLayout.text x).length ≤ 25 := by
  have sign : (if x.isNegative then ['-'] else []).length ≤ 1 := by
    split
    · exact Nat.le_refl 1
    · exact Nat.zero_le 1
  simp only [Layout.text]
  split
  · simp only [List.length_append, List.length_cons, Json.doubleLayout, List.length_nil]
    omega
  · have small : x.magnitude < signBit := Nat.mod_lt _ (by decide)
    obtain ⟨digits, low, high⟩ := shortest_le small
    obtain ⟨fewer, least, most⟩ := (shortest x.magnitude).strip_le 400
    have written := length_write_le (Nat.le_trans fewer digits) (by omega) (by omega)
    rw [List.length_append]
    omega

/-- Text of the characters that doubles have: digits, the point, the letter before an exponent, and
    signs. -/
def Marks (cs : List Char) : Prop :=
  ∀ c ∈ cs, c.isDigit = true ∨ c = '.' ∨ c = 'e' ∨ c = '-' ∨ c = '+'

theorem Marks.append {a b : List Char} (front : Marks a) (back : Marks b) : Marks (a ++ b) :=
  fun c mem => (List.mem_append.mp mem).elim (front c) (back c)

theorem Marks.of_subset {a b : List Char} (whole : Marks b) (part : a ⊆ b) : Marks a :=
  fun c mem => whole c (part mem)

theorem marks_digits (n : Nat) : Marks (Nat.toDigits 10 n) :=
  fun _ mem => .inl (Nat.isDigit_of_mem_toDigits (by decide) (by decide) mem)

theorem marks_zeros (n : Nat) : Marks (List.replicate n '0') :=
  fun _ mem => .inl (List.eq_of_mem_replicate mem ▸ by decide)

theorem marks_write (d : Decimal) : Marks (Json.doubleLayout.write d) := by
  have digits := marks_digits d.digits
  rw [Layout.write, Json.doubleLayout]
  simp only
  generalize Nat.toDigits 10 d.digits = ds at digits
  have point : ∀ n, Marks ('.' :: ds.drop n) := fun n =>
    .append (a := ['.']) (by simp [Marks]) (digits.of_subset (List.drop_subset n ds))
  split
  · split
    · exact (digits.append (marks_zeros _)).append (by simp [Marks])
    · split
      · exact (digits.of_subset (List.take_subset ..)).append (point _)
      · exact .append (a := ['0', '.']) (by simp [Marks]) ((marks_zeros _).append digits)
  · refine ((digits.of_subset (List.take_subset ..)).append ?_).append
      (.append (a := ['e']) (by simp [Marks]) (.append ?_ (marks_digits _)))
    · split
      · simp [Marks]
      · exact point 1
    · split
      · simp [Marks]
      · simp [Marks]

theorem marks_text (x : Binary64) : Marks (Json.doubleLayout.text x) := by
  have sign : Marks (if x.isNegative then ['-'] else []) := by
    split
    · simp [Marks]
    · simp [Marks]
  simp only [Layout.text]
  split
  · exact sign.append (by simp [Marks, Json.doubleLayout])
  · exact sign.append (marks_write _)

end QuorumStore.Binary64
