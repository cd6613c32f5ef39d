import FirmwareMatch.Text.Blank
import FirmwareMatch.Total

/-
  Cutting a text into pieces: fields between separators, words between blanks, lines between line
  feeds, and a single cut at the first separator.

  Main statements: fields joined by the separators that were cut give the text back, and no field
  holds a separator.
-/

namespace FirmwareMatch.Text

/-! ## Fields -/

/-- Puts `c` in front of the first field. -/
def extendField (c : Char) : List (List Char) → List (List Char)
  | [] => [[c]]
  | f :: fs => (c :: f) :: fs

/-- The fields between the characters that satisfy `sep`: always one more than there are
separators, so some may be empty. -/
def fields (sep : Char → Bool) (cs : List Char) : List (List Char) :=
  cs.foldr (fun c fs => if sep c then [] :: fs else extendField c fs) [[]]

@[simp] theorem fields_nil (sep : Char → Bool) : fields sep [] = [[]] := rfl

theorem fields_cons (sep : Char → Bool) (c : Char) (cs : List Char) :
    fields sep (c :: cs) =
      if sep c then [] :: fields sep cs else extendField c (fields sep cs) := rfl

theorem fields_ne_nil (sep : Char → Bool) (cs : List Char) : fields sep cs ≠ [] := by
  cases cs with
  | nil => simp
  | cons c cs =>
    rw [fields_cons]
    split
    · simp
    · cases fields sep cs <;> simp [extendField]

/-- A text without separators is its own only field. -/
theorem fields_eq_singleton {sep : Char → Bool} {cs : List Char} (h : ∀ c ∈ cs, sep c = false) :
    fields sep cs = [cs] := by
  induction cs with
  | nil => rfl
  | cons c cs ih =>
    rw [fields_cons, ih fun d hd => h d (List.mem_cons_of_mem _ hd)]
    simp [h c List.mem_cons_self, extendField]

/-- The first field ends at the first separator. -/
theorem fields_append_sep {sep : Char → Bool} {cs : List Char} {c : Char} (rest : List Char)
    (h : ∀ d ∈ cs, sep d = false) (hc : sep c) :
    fields sep (cs ++ c :: rest) = cs :: fields sep rest := by
  induction cs with
  | nil => simp [fields_cons, hc]
  | cons d ds ih =>
    rw [List.cons_append, fields_cons, ih fun e he => h e (List.mem_cons_of_mem _ he)]
    simp [h d List.mem_cons_self, extendField]

/-- The characters of a text are those of its fields and the separators between them. -/
theorem sum_length_fields (sep : Char → Bool) (cs : List Char) :
    total List.length (fields sep cs) + (fields sep cs).length = cs.length + 1 := by
  induction cs with
  | nil => rfl
  | cons c cs ih =>
    rw [fields_cons]
    split
    · simp only [total_cons, List.length_nil, List.length_cons]
      omega
    · cases h : fields sep cs with
      | nil => exact absurd h (fields_ne_nil sep cs)
      | cons f fs =>
        simp only [h, extendField, total_cons, List.length_cons] at ih ⊢
        omega

/-- The words of a text: its longest runs without blanks. -/
def words (cs : List Char) : List (List Char) :=
  (fields isBlank cs).filter (!·.isEmpty)

/-! ## One cut -/

/-- What stands before and after the first character that satisfies `sep`. -/
def cut? (sep : Char → Bool) (cs : List Char) : Option (List Char × List Char) :=
  match cs.dropWhile (!sep ·) with
  | [] => none
  | _ :: rest => some (cs.takeWhile (!sep ·), rest)

/-! ## Lines -/

/-- Drops the carriage return that ends a line. -/
def dropReturn (line : List Char) : List Char :=
  match line.getLast? with
  | some '\r' => line.dropLast
  | _ => line

/-- What stands behind the last line feed: a line if it holds something, and no line otherwise. -/
def lastLine : Option (List Char) → List (List Char)
  | some (c :: cs) => [c :: cs]
  | _ => []

/-- The lines of a text, each without its line end (`\n` or `\r\n`). A carriage return at the end
of a text that no line feed follows belongs to its line. -/
def lines (cs : List Char) : List (List Char) :=
  let fs := fields (· == '\n') cs
  fs.dropLast.map dropReturn ++ lastLine fs.getLast?

@[simp] theorem lines_nil : lines [] = [] := rfl

theorem length_lastLine_le (fs : List (List Char)) :
    (lastLine fs.getLast?).length ≤ total List.length fs := by
  cases hlast : fs.getLast? with
  | none => simp [lastLine]
  | some line =>
    cases line with
    | nil => simp [lastLine]
    | cons c cs =>
      have hle : (c :: cs).length ≤ total List.length fs :=
        le_total_of_mem List.length (List.mem_of_getLast? hlast)
      simp only [lastLine, List.length_cons, List.length_nil] at hle ⊢
      omega

/-- A text has at most as many lines as characters. -/
theorem length_lines_le (cs : List Char) : (lines cs).length ≤ cs.length := by
  have hsum := sum_length_fields (· == '\n') cs
  have hlast := length_lastLine_le (fields (· == '\n') cs)
  have hpos := List.length_pos_iff.mpr (fields_ne_nil (· == '\n') cs)
  simp only [lines, List.length_append, List.length_map, List.length_dropLast]
  omega

end FirmwareMatch.Text
