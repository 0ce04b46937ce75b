import QuorumStore.Text.Blank
import Mathlib.Data.List.TakeWhile
/-! # Trimming and lines

Trimming takes away nothing but blanks, and blanks that are put around a text do not show in the
trimmed text. A carriage return is a blank, so it makes no difference to a trimmed line whether it
is counted as part of the line end.
-/

namespace QuorumStore.Text

variable {cs before after line : List Char}

/-- Nothing but blanks. -/
def Blanks (cs : List Char) : Prop := ∀ c ∈ cs, isBlank c = true

theorem Blanks.reverse (blank : Blanks cs) : Blanks cs.reverse :=
  fun c mem => blank c (List.mem_reverse.mp mem)

theorem Blanks.append (front : Blanks before) (back : Blanks after) : Blanks (before ++ after) := by
  intro c mem
  cases List.mem_append.mp mem with
  | inl inFront => exact front c inFront
  | inr inBack => exact back c inBack

theorem blanks_return : Blanks ['\r'] := by
  intro c mem
  rw [List.mem_singleton.mp mem]
  rfl

theorem isBlank_of_isDigit {d : Char} (digit : d.isDigit = true) : isBlank d = false := by
  simp only [Char.isDigit, Bool.and_eq_true, decide_eq_true_eq, UInt32.le_iff_toNat_le] at digit
  have low : 48 ≤ d.toNat := digit.1
  have high : d.toNat ≤ 57 := digit.2
  simp only [isBlank, Bool.or_eq_false_iff, Bool.and_eq_false_iff, decide_eq_false_iff_not,
    beq_eq_false_iff_ne]
  omega

/-! ## What is taken away -/

theorem trimLeft_of_blanks (blank : Blanks cs) : trimLeft cs = [] :=
  List.dropWhile_eq_nil_iff.mpr blank

theorem trimRight_append_blanks (blank : Blanks after) :
    trimRight (cs ++ after) = trimRight cs := by
  simp only [trimRight, List.reverse_append, List.dropWhile_append_of_pos blank.reverse]

theorem trim_append_blanks (blank : Blanks after) : trim (cs ++ after) = trim cs := by
  simp only [trim, trimLeft, List.dropWhile_append]
  split
  · rename_i empty
    have nothing : cs.dropWhile isBlank = [] := List.isEmpty_iff.mp empty
    have gone : after.dropWhile isBlank = [] := trimLeft_of_blanks blank
    rw [nothing, gone]
  · exact trimRight_append_blanks blank

/-- Blanks around a text do not show when it is trimmed. -/
theorem trim_surround (front : Blanks before) (back : Blanks after) :
    trim (before ++ cs ++ after) = trim cs := by
  rw [trim_append_blanks back, trim, trimLeft, List.dropWhile_append_of_pos front]
  rfl

theorem exists_trimLeft (cs : List Char) : ∃ before, Blanks before ∧ before ++ trimLeft cs = cs :=
  ⟨cs.takeWhile isBlank, fun _ mem => List.mem_takeWhile_imp mem, List.takeWhile_append_dropWhile⟩

theorem exists_trimRight (cs : List Char) : ∃ after, Blanks after ∧ trimRight cs ++ after = cs := by
  obtain ⟨front, blank, whole⟩ := exists_trimLeft cs.reverse
  refine ⟨front.reverse, blank.reverse, ?_⟩
  calc
    trimRight cs ++ front.reverse = (front ++ trimLeft cs.reverse).reverse :=
      List.reverse_append.symm
    _ = cs := by rw [whole, List.reverse_reverse]

/-- A text is what is left of it when it is trimmed, with blanks around it. -/
theorem exists_surround (cs : List Char) :
    ∃ before after, Blanks before ∧ Blanks after ∧ before ++ trim cs ++ after = cs := by
  obtain ⟨before, front, left⟩ := exists_trimLeft cs
  obtain ⟨after, back, right⟩ := exists_trimRight (trimLeft cs)
  refine ⟨before, after, front, back, ?_⟩
  rw [List.append_assoc, trim, right, left]

theorem trim_trim (cs : List Char) : trim (trim cs) = trim cs := by
  obtain ⟨before, after, front, back, whole⟩ := exists_surround cs
  calc
    trim (trim cs) = trim (before ++ trim cs ++ after) := (trim_surround front back).symm
    _ = trim cs := by rw [whole]

/-- The first character that is no blank stays in front. -/
theorem head?_trim {c : Char} (front : Blanks before) (solid : isBlank c = false) :
    (trim (before ++ c :: cs)).head? = some c := by
  have left : trimLeft (before ++ c :: cs) = c :: cs := by
    rw [trimLeft, List.dropWhile_append_of_pos front, List.dropWhile_cons, solid]
    rfl
  rw [trim, left]
  obtain ⟨after, back, right⟩ := exists_trimRight (c :: cs)
  cases kept : trimRight (c :: cs) with
  | nil =>
      rw [kept, List.nil_append] at right
      have blank : isBlank c = true := back c (right ▸ List.mem_cons_self)
      rw [solid] at blank
      contradiction
  | cons d ds =>
      rw [kept, List.cons_append] at right
      exact congrArg some (List.cons.inj right).1

theorem trim_eq_nil_iff : trim cs = [] ↔ Blanks cs := by
  constructor
  · intro nothing
    obtain ⟨before, after, front, back, whole⟩ := exists_surround cs
    rw [nothing, List.append_nil] at whole
    exact whole ▸ front.append back
  · intro blank
    rw [trim, trimLeft_of_blanks blank]
    rfl

theorem trim_of_solid (solid : ∀ c ∈ cs, isBlank c = false) : trim cs = cs := by
  have kept : ∀ cs : List Char, (∀ c ∈ cs, isBlank c = false) →
      cs.dropWhile isBlank = cs := by
    intro cs solid
    cases cs with
    | nil => rfl
    | cons c cs => rw [List.dropWhile_cons, solid c List.mem_cons_self, if_neg (by simp)]
  rw [trim, trimLeft, kept cs solid, trimRight,
    kept cs.reverse fun c mem => solid c (List.mem_reverse.mp mem), List.reverse_reverse]

/-! ## Lines -/

/-- A character stays in its line unless it belongs to a line end. -/
theorem lines_cons {c : Char} {rest : List Char} (plain : c ≠ '\n')
    (open_ : c = '\r' → rest.head? ≠ some '\n') : lines (c :: rest) =
      match lines rest with
      | [] => [[c]]
      | line :: others => (c :: line) :: others := by
  have stays : ∀ rest', c = '\r' → rest = '\n' :: rest' → False := by
    rintro rest' rfl rfl
    exact open_ rfl rfl
  exact lines.eq_4 c rest plain stays

/-- A line feed ends a line, and takes a carriage return before it away. -/
theorem lines_append (one : '\n' ∉ line) (rest : List Char) :
    ∃ front, (front = line ∨ front ++ ['\r'] = line) ∧
      lines (line ++ '\n' :: rest) = front :: lines rest := by
  induction line with
  | nil => exact ⟨[], .inl rfl, by rw [List.nil_append, lines]⟩
  | cons c line ih =>
      have plain : c ≠ '\n' := fun feed => one (feed ▸ List.mem_cons_self)
      have later : '\n' ∉ line := fun feed => one (List.mem_cons_of_mem c feed)
      by_cases ending : c = '\r' ∧ line = []
      · obtain ⟨rfl, rfl⟩ := ending
        exact ⟨[], .inr rfl, by rw [List.singleton_append, lines]⟩
      · obtain ⟨front, kept, cut⟩ := ih later
        have open_ : c = '\r' → (line ++ '\n' :: rest).head? ≠ some '\n' := by
          intro return_ feed
          cases line with
          | nil => exact ending ⟨return_, rfl⟩
          | cons d line => exact later (Option.some.inj feed ▸ List.mem_cons_self)
        refine ⟨c :: front, ?_, ?_⟩
        · exact kept.imp (congrArg (c :: ·)) (congrArg (c :: ·))
        · rw [List.cons_append, lines_cons plain open_, cut]

/-- Without a line end there is one line, or none. -/
theorem lines_of_one (one : '\n' ∉ line) : lines line = if line = [] then [] else [line] := by
  induction line with
  | nil => rw [lines, if_pos rfl]
  | cons c line ih =>
      have plain : c ≠ '\n' := fun feed => one (feed ▸ List.mem_cons_self)
      have later : '\n' ∉ line := fun feed => one (List.mem_cons_of_mem c feed)
      have open_ : c = '\r' → line.head? ≠ some '\n' := by
        intro _ feed
        exact later (List.mem_of_mem_head? feed)
      rw [if_neg (List.cons_ne_nil c line), lines_cons plain open_, ih later]
      cases line with
      | nil => rfl
      | cons d line => rfl

/-- Whether a carriage return ends a line or is part of it, it is trimmed away. -/
theorem trim_lines_append (one : '\n' ∉ line) (rest : List Char) :
    (lines (line ++ '\n' :: rest)).map trim = trim line :: (lines rest).map trim := by
  obtain ⟨front, kept, cut⟩ := lines_append one rest
  rw [cut, List.map_cons]
  cases kept with
  | inl same => rw [same]
  | inr return_ => rw [← return_, trim_append_blanks blanks_return]

end QuorumStore.Text
