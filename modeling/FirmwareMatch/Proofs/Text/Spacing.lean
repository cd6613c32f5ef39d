import FirmwareMatch.Proofs.Text.Pieces

/-
  Texts whose words were joined again by single spaces.

  Going from character to character, every run of blanks becomes one space (`squeeze`). Without the
  space that may be left at an end this is the same as joining the words (`singleSpaced`); so what
  is done character by character can be compared with what is done to the words.

  Proved:
  * `words_append_blank`, `words_trim`: the words of the two sides of a blank, and of a trimmed text.
  * `trim_squeeze`, `squeeze_trim`: squeezing a text and joining its words.
-/

namespace FirmwareMatch.Text

/-- The words of a text with a space between any two of them. -/
def singleSpaced (cs : List Char) : List Char :=
  [' '].intercalate (words cs)

/-- A text with one space for every run of blanks. -/
def squeeze : List Char → List Char
  | [] => []
  | c :: cs =>
    if isBlank c then if cs.head?.any isBlank then squeeze cs else ' ' :: squeeze cs
    else c :: squeeze cs

/-! ## Words -/

theorem words_append_blank {b : Char} (h : isBlank b) (cs rest : List Char) :
    words (cs ++ b :: rest) = words cs ++ words rest := by
  unfold words
  rw [fields_append h, List.filter_append]

theorem words_cons_blank {b : Char} (h : isBlank b) (cs : List Char) :
    words (b :: cs) = words cs :=
  words_append_blank h [] cs

theorem words_append_right_gap {gap : List Char} (h : IsGap gap) (cs : List Char) :
    words (cs ++ gap) = words cs := by
  cases gap with
  | nil => rw [List.append_nil]
  | cons b gap =>
    have hgap : words gap = [] := by
      have hwords := words_gap_append (fun c hc => h c (List.mem_cons_of_mem b hc)) []
      rwa [List.append_nil] at hwords
    rw [words_append_blank (h b List.mem_cons_self), hgap, List.append_nil]

theorem words_trim (cs : List Char) : words (trim cs) = words cs := by
  obtain ⟨lead, tail, hlead, htail, hcs⟩ := exists_gaps_trim cs
  conv_rhs => rw [hcs, words_gap_append hlead, words_append_right_gap htail]

/-- A character that is no blank extends the first word if the word starts next to it, and is a word
    of its own if a blank or nothing follows. -/
theorem words_cons_of_solid {c : Char} (hc : isBlank c = false) (cs : List Char) :
    words (c :: cs) = if cs.head?.any (!isBlank ·) then extendField c (words cs)
      else [c] :: words cs := by
  cases cs with
  | nil => exact words_eq_singleton (List.cons_ne_nil _ _) (by simpa using hc)
  | cons d cs =>
    cases hd : isBlank d with
    | true =>
      have hwords := words_append_blank hd [c] cs
      rw [words_eq_singleton (List.cons_ne_nil _ _) (by simpa using hc)] at hwords
      rw [words_cons_blank hd]
      simpa [hd] using hwords
    | false =>
      rw [if_pos (by simp [hd])]
      unfold words
      rw [fields_cons isBlank c, hc, if_neg Bool.false_ne_true, fields_cons, hd,
        if_neg Bool.false_ne_true]
      cases fields isBlank cs <;> rfl

theorem ne_nil_of_mem_words {cs w : List Char} (h : w ∈ words cs) : w ≠ [] := by
  simp only [words, List.mem_filter] at h
  rintro rfl
  simp at h

/-! ## Squeezing -/

theorem squeeze_cons_solid {c : Char} (h : isBlank c = false) (cs : List Char) :
    squeeze (c :: cs) = c :: squeeze cs := by
  rw [squeeze, h, if_neg Bool.false_ne_true]

/-- A text that does not start with a blank does not when it is squeezed. -/
theorem trimStart_squeeze_of_solid {cs : List Char} (h : cs.head?.any isBlank = false) :
    trimStart (squeeze cs) = squeeze cs := by
  cases cs with
  | nil => rfl
  | cons c cs =>
    have hc : isBlank c = false := by simpa using h
    rw [squeeze_cons_solid hc, trimStart_cons_solid _ hc]

/-- A text that starts with a blank starts with one space when it is squeezed. -/
theorem squeeze_of_blank {cs : List Char} (h : cs.head?.any isBlank) :
    squeeze cs = ' ' :: trimStart (squeeze cs) := by
  induction cs with
  | nil => simp at h
  | cons c cs ih =>
    have hc : isBlank c := by simpa using h
    rw [squeeze, if_pos hc]
    split
    · rename_i hnext
      exact ih hnext
    · rename_i hnext
      rw [trimStart_cons_blank _ (by decide),
        trimStart_squeeze_of_solid (Bool.eq_false_iff.mpr hnext)]

theorem trimEnd_cons (c : Char) (cs : List Char) :
    trimEnd (c :: cs) =
      if trimEnd cs = [] then if isBlank c then [] else [c] else c :: trimEnd cs := by
  unfold trimEnd
  rw [List.reverse_cons, List.dropWhile_append]
  simp only [List.isEmpty_iff, List.reverse_eq_nil_iff]
  split
  · cases hc : isBlank c <;> simp [hc]
  · simp

theorem trimEnd_cons_solid {c : Char} (h : isBlank c = false) (cs : List Char) :
    trimEnd (c :: cs) = c :: trimEnd cs := by
  rw [trimEnd_cons, h]
  split
  · rename_i hnil
    rw [hnil]
    rfl
  · rfl

theorem intercalate_extendField (c : Char) {fs : List (List Char)} (hne : fs ≠ []) :
    [' '].intercalate (extendField c fs) = c :: [' '].intercalate fs := by
  cases fs with
  | nil => exact absurd rfl hne
  | cons f fs =>
    cases fs with
    | nil => simp [extendField]
    | cons g fs => simp [extendField, List.intercalate_cons_cons]

theorem singleSpaced_eq_nil_iff {cs : List Char} : singleSpaced cs = [] ↔ words cs = [] := by
  unfold singleSpaced
  constructor
  · intro h
    cases hwords : words cs with
    | nil => rfl
    | cons w ws =>
      have hne : w ≠ [] := ne_nil_of_mem_words (hwords ▸ List.mem_cons_self)
      rw [hwords] at h
      cases ws with
      | nil => exact absurd (by simpa using h) hne
      | cons v ws => simp [List.intercalate_cons_cons] at h
  · intro h
    rw [h]
    rfl

/-- The end of a squeezed text, by whether a blank stands at its start. -/
theorem trimEnd_squeeze (cs : List Char) (h : trim (squeeze cs) = singleSpaced cs) :
    trimEnd (squeeze cs) =
      if cs.head?.any isBlank && !(words cs).isEmpty then ' ' :: singleSpaced cs
      else singleSpaced cs := by
  unfold trim at h
  cases hhead : cs.head?.any isBlank with
  | false => rw [← h, trimStart_squeeze_of_solid hhead, Bool.false_and, if_neg Bool.false_ne_true]
  | true =>
    rw [squeeze_of_blank hhead, trimEnd_cons, h]
    by_cases hwords : words cs = []
    · simp [hwords, singleSpaced, show isBlank ' ' from by decide]
    · simp [hwords, singleSpaced_eq_nil_iff]

/-- A squeezed text has the words of the text with one space between any two of them. -/
theorem trim_squeeze (cs : List Char) : trim (squeeze cs) = singleSpaced cs := by
  induction cs with
  | nil => rfl
  | cons c cs ih =>
    cases hc : isBlank c with
    | true =>
      have hskip : trim (squeeze (c :: cs)) = trim (squeeze cs) := by
        rw [squeeze, if_pos hc]
        split
        · rfl
        · exact trim_gap_append (show IsGap [' '] by decide) _
      rw [hskip, ih, singleSpaced, singleSpaced, words_cons_blank hc]
    | false =>
      rw [squeeze_cons_solid hc, trim, trimStart_cons_solid _ hc, trimEnd_cons_solid hc,
        trimEnd_squeeze cs ih]
      unfold singleSpaced
      rw [words_cons_of_solid hc]
      cases cs with
      | nil => simp [words]
      | cons d cs =>
        cases hd : isBlank d with
        | true =>
          cases hwords : words (d :: cs) with
          | nil => simp [hd]
          | cons w ws => simp [hd, List.intercalate_cons_cons]
        | false =>
          obtain ⟨w, ws, hwords⟩ := words_cons_solid hd cs
          simp [hd, hwords, intercalate_extendField]

/-! ## Trimmed texts -/

theorem getLast?_squeeze (cs : List Char) :
    (squeeze cs).getLast? = cs.getLast?.map fun c => if isBlank c then ' ' else c := by
  induction cs with
  | nil => rfl
  | cons c cs ih =>
    cases cs with
    | nil => cases hc : isBlank c <;> simp [squeeze, hc]
    | cons d cs =>
      have hcons : ∀ e, (e :: squeeze (d :: cs)).getLast? = (squeeze (d :: cs)).getLast? := by
        intro e
        rw [List.getLast?_cons, ih, List.getLast?_eq_some_getLast (List.cons_ne_nil d cs)]
        rfl
      rw [List.getLast?_cons_cons, ← ih, squeeze]
      split
      · split
        · rfl
        · exact hcons ' '
      · exact hcons c

theorem squeeze_eq_nil_iff {cs : List Char} : squeeze cs = [] ↔ cs = [] := by
  rw [← List.getLast?_eq_none_iff, getLast?_squeeze, Option.map_eq_none_iff,
    List.getLast?_eq_none_iff]

/-- Of a trimmed text nothing has to be trimmed when it is squeezed. -/
theorem squeeze_trim (cs : List Char) : squeeze (trim cs) = singleSpaced cs := by
  obtain ⟨hhead, hlast⟩ := isSolid_trim cs
  have hstart : (trim cs).head?.any isBlank = false := by
    cases h : (trim cs).head? with
    | none => rfl
    | some c => exact hhead c h
  have hend : ∀ c ∈ (squeeze (trim cs)).getLast?, isBlank c = false := by
    intro c hc
    rw [getLast?_squeeze] at hc
    obtain ⟨d, hd, rfl⟩ := Option.map_eq_some_iff.mp hc
    rw [if_neg (Bool.eq_false_iff.mp (hlast d hd))]
    exact hlast d hd
  have htrim : trim (squeeze (trim cs)) = squeeze (trim cs) :=
    (congrArg trimEnd (trimStart_squeeze_of_solid hstart)).trans (trimEnd_of_solid hend)
  rw [singleSpaced, ← words_trim, ← singleSpaced, ← trim_squeeze, htrim]

theorem trim_trimStart (cs : List Char) : trim (trimStart cs) = trim cs := by
  unfold trim trimStart
  rw [List.dropWhile_idempotent]

theorem trimStart_squeeze_cons_blank {b : Char} (h : isBlank b) (cs : List Char) :
    trimStart (squeeze (b :: cs)) = trimStart (squeeze cs) := by
  rw [squeeze, if_pos h]
  split
  · rfl
  · exact trimStart_cons_blank _ (by decide)

/-- The first word of a squeezed text is that of the text. -/
theorem cut?_squeeze (cs : List Char) :
    cut? isBlank (squeeze cs) =
      (cut? isBlank cs).map fun sides => (sides.1, trimStart (squeeze sides.2)) := by
  induction cs with
  | nil => rfl
  | cons c cs ih =>
    cases hc : isBlank c with
    | true =>
      rw [squeeze_of_blank (by simpa using hc), trimStart_squeeze_cons_blank hc]
      simp [cut?, hc, show isBlank ' ' from by decide]
    | false =>
      have hcons : ∀ ds, cut? isBlank (c :: ds) =
          (cut? isBlank ds).map fun sides => (c :: sides.1, sides.2) := by
        intro ds
        unfold cut?
        simp only [List.dropWhile_cons, List.takeWhile_cons, hc, Bool.not_false, if_true]
        cases ds.dropWhile (!isBlank ·) <;> rfl
      rw [squeeze_cons_solid hc, hcons, hcons, ih]
      cases cut? isBlank cs <;> rfl

/-- A single word stays as it is. -/
theorem squeeze_of_cut?_eq_none {cs : List Char} (h : cut? isBlank cs = none) :
    squeeze cs = cs := by
  have hsolid : ∀ c ∈ cs, isBlank c = false := by
    unfold cut? at h
    split at h
    · rename_i hdrop
      simpa using List.dropWhile_eq_nil_iff.mp hdrop
    · cases h
  clear h
  induction cs with
  | nil => rfl
  | cons c cs ih =>
    obtain ⟨hc, hcs⟩ := List.forall_mem_cons.mp hsolid
    rw [squeeze_cons_solid hc, ih hcs]

end FirmwareMatch.Text
