/-
  Blanks: the characters that separate words and that trimming takes off the ends of a text.
  The class is the `White_Space` property of Unicode, 25 code points in all.

  Main statements: every blank of ASCII is in the class, and a trimmed text neither starts nor
  ends with a blank.
-/

namespace FirmwareMatch.Text

/-! ## The class -/

/-- A character with the property `White_Space`. -/
def isBlank (c : Char) : Bool :=
  let n := c.toNat
  (9 ≤ n && n ≤ 13) || n == 0x20 || n == 0x85 || n == 0xA0 || n == 0x1680 ||
    (0x2000 ≤ n && n ≤ 0x200A) || n == 0x2028 || n == 0x2029 || n == 0x202F ||
    n == 0x205F || n == 0x3000

/-- A blank of ASCII that also separates a comment sign from what stands before it: space, tab,
line feed, form feed and carriage return, but not the vertical tab. -/
def isAsciiBlank (c : Char) : Bool :=
  c == ' ' || c == '\t' || c == '\n' || c == '\x0c' || c == '\r'

theorem isBlank_of_isAsciiBlank {c : Char} (h : isAsciiBlank c) : isBlank c := by
  simp only [isAsciiBlank, Bool.or_eq_true, beq_iff_eq] at h
  rcases h with (((h | h) | h) | h) | h <;> subst h <;> decide

/-! ## Trimming -/

/-- `cs` without the blanks at its start. -/
def trimStart (cs : List Char) : List Char :=
  cs.dropWhile isBlank

/-- `cs` without the blanks at its end. -/
def trimEnd (cs : List Char) : List Char :=
  (cs.reverse.dropWhile isBlank).reverse

/-- `cs` without the blanks at both ends. -/
def trim (cs : List Char) : List Char :=
  trimEnd (trimStart cs)

@[simp] theorem trim_nil : trim [] = [] := rfl

theorem trimEnd_append_solid (cs : List Char) {c : Char} (h : isBlank c = false) :
    trimEnd (cs ++ [c]) = cs ++ [c] := by
  simp [trimEnd, h]

theorem trimStart_cons_blank (cs : List Char) {c : Char} (h : isBlank c) :
    trimStart (c :: cs) = trimStart cs := by
  simp [trimStart, h]

theorem trimStart_cons_solid (cs : List Char) {c : Char} (h : isBlank c = false) :
    trimStart (c :: cs) = c :: cs := by
  simp [trimStart, h]

/-- A trimmed start is no blank. -/
theorem isBlank_of_trimStart_eq_cons {cs : List Char} {c : Char} {rest : List Char}
    (h : trimStart cs = c :: rest) : isBlank c = false := by
  induction cs with
  | nil => simp [trimStart] at h
  | cons d ds ih =>
    cases hd : isBlank d with
    | true => exact ih (by rwa [trimStart_cons_blank ds hd] at h)
    | false =>
      rw [trimStart_cons_solid ds hd] at h
      simp only [List.cons.injEq] at h
      exact h.1 ▸ hd

theorem trimEnd_prefix (cs : List Char) : trimEnd cs <+: cs := by
  have h : cs.reverse.dropWhile isBlank <:+ cs.reverse := List.dropWhile_suffix isBlank
  have hr := List.reverse_prefix.mpr h
  rwa [List.reverse_reverse] at hr

/-- A trimmed text does not start with a blank. -/
theorem isBlank_of_head?_trim {cs : List Char} {c : Char} (h : (trim cs).head? = some c) :
    isBlank c = false := by
  obtain ⟨rest, hrest⟩ := trimEnd_prefix (trimStart cs)
  cases htrim : trimEnd (trimStart cs) with
  | nil => simp [trim, htrim] at h
  | cons d ds =>
    have hd : d = c := by simpa [trim, htrim] using h
    subst hd
    rw [htrim] at hrest
    exact isBlank_of_trimStart_eq_cons hrest.symm

/-- A trimmed text does not end with a blank. -/
theorem isBlank_of_getLast?_trim {cs : List Char} {c : Char}
    (h : (trim cs).getLast? = some c) : isBlank c = false := by
  unfold trim trimEnd at h
  rw [List.getLast?_reverse] at h
  have hdrop := List.head?_dropWhile_not isBlank (trimStart cs).reverse
  rwa [h] at hdrop

end FirmwareMatch.Text
