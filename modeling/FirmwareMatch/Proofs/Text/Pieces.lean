import Mathlib
import FirmwareMatch.Text.Fields
import FirmwareMatch.Text.Hex

/-
  Cutting texts that were put together.

  A text is written as pieces with blanks between them; trimming, cutting and splitting find the
  pieces again, however many blanks there are.

  Proved:
  * `trim_gap_append`, `trim_append_gap`, `trim_of_solid`: blanks around a text do not matter.
  * `exists_gaps_trim`: where the blanks were that trimming took off.
  * `words_append_gap`, `words_cons_solid`: the first word of a text.
  * `cut?_append`, `cut?_append_gap`, `cut?_eq_none`: the cut at the first separator.
  * `fields_append`, `getLast?_fields_ne`: fields around a separator, and the last one.
  * `fields_intercalate`: fields that were joined.
  * `length_fields`, `length_lines`: how many fields and lines a text has.
-/

namespace FirmwareMatch.Text

/-! ## Trimming -/

/-- A run of blanks, possibly empty. -/
def IsGap (cs : List Char) : Prop :=
  ∀ c ∈ cs, isBlank c

/-- A text that neither starts nor ends with a blank. -/
def IsSolid (cs : List Char) : Prop :=
  (∀ c ∈ cs.head?, isBlank c = false) ∧ ∀ c ∈ cs.getLast?, isBlank c = false

instance (cs : List Char) : Decidable (IsGap cs) :=
  decidable_of_iff (cs.all isBlank) (by simp [IsGap])

theorem isGap_nil : IsGap [] := by
  simp [IsGap]

theorem isGap_append_cons {gap gap' : List Char} {b : Char} (hgap : IsGap gap) (hb : isBlank b)
    (hgap' : IsGap gap') : IsGap (gap ++ b :: gap') :=
  List.forall_mem_append.mpr ⟨hgap, List.forall_mem_cons.mpr ⟨hb, hgap'⟩⟩

theorem trimStart_gap_append {gap : List Char} (h : IsGap gap) (cs : List Char) :
    trimStart (gap ++ cs) = trimStart cs :=
  List.dropWhile_append_of_pos h

theorem trimEnd_append_gap {gap : List Char} (h : IsGap gap) (cs : List Char) :
    trimEnd (cs ++ gap) = trimEnd cs := by
  unfold trimEnd
  rw [List.reverse_append, List.dropWhile_append_of_pos]
  intro c hc
  exact h c (List.mem_reverse.mp hc)

theorem trim_gap_append {gap : List Char} (h : IsGap gap) (cs : List Char) :
    trim (gap ++ cs) = trim cs := by
  unfold trim
  rw [trimStart_gap_append h]

theorem trim_of_gap {gap : List Char} (h : IsGap gap) : trim gap = [] := by
  have happend := trim_gap_append h []
  rwa [List.append_nil] at happend

theorem trim_append_gap {gap : List Char} (h : IsGap gap) (cs : List Char) :
    trim (cs ++ gap) = trim cs := by
  unfold trim trimStart
  rw [List.dropWhile_append]
  split
  · rename_i hempty
    rw [List.isEmpty_iff.mp hempty]
    exact trim_of_gap h
  · exact trimEnd_append_gap h _

theorem trimStart_of_solid {cs : List Char} (h : ∀ c ∈ cs.head?, isBlank c = false) :
    trimStart cs = cs := by
  cases cs with
  | nil => rfl
  | cons c cs => exact trimStart_cons_solid cs (h c rfl)

theorem trimEnd_of_solid {cs : List Char} (h : ∀ c ∈ cs.getLast?, isBlank c = false) :
    trimEnd cs = cs := by
  unfold trimEnd
  have hreverse : trimStart cs.reverse = cs.reverse :=
    trimStart_of_solid (by rwa [List.head?_reverse])
  unfold trimStart at hreverse
  rw [hreverse, List.reverse_reverse]

theorem trim_of_solid {cs : List Char} (h : IsSolid cs) : trim cs = cs := by
  unfold trim
  rw [trimStart_of_solid h.1, trimEnd_of_solid h.2]

theorem mem_of_mem_trim {cs : List Char} {c : Char} (h : c ∈ trim cs) : c ∈ cs := by
  have hend := trimEnd_prefix (trimStart cs)
  exact (List.dropWhile_suffix isBlank).subset (hend.subset h)

theorem isSolid_trim (cs : List Char) : IsSolid (trim cs) :=
  ⟨fun _ hc => isBlank_of_head?_trim hc, fun _ hc => isBlank_of_getLast?_trim hc⟩

/-- A text is what trimming leaves of it, between blanks. -/
theorem exists_gaps_trim (cs : List Char) :
    ∃ lead tail, IsGap lead ∧ IsGap tail ∧ cs = lead ++ (trim cs ++ tail) := by
  refine ⟨cs.takeWhile isBlank, ((trimStart cs).reverse.takeWhile isBlank).reverse,
    fun c hc => List.mem_takeWhile_imp hc,
    fun c hc => List.mem_takeWhile_imp (List.mem_reverse.mp hc), ?_⟩
  have htail : trim cs ++ ((trimStart cs).reverse.takeWhile isBlank).reverse = trimStart cs := by
    unfold trim trimEnd
    rw [← List.reverse_append, List.takeWhile_append_dropWhile, List.reverse_reverse]
  rw [htail]
  exact List.takeWhile_append_dropWhile.symm

theorem mem_trim_of_mem {cs : List Char} {c : Char} (h : c ∈ cs) (hc : isBlank c = false) :
    c ∈ trim cs := by
  obtain ⟨lead, tail, hlead, htail, hcs⟩ := exists_gaps_trim cs
  rw [hcs, List.mem_append, List.mem_append] at h
  rcases h with h | h | h
  · exact absurd (hlead c h) (Bool.eq_false_iff.mp hc)
  · exact h
  · exact absurd (htail c h) (Bool.eq_false_iff.mp hc)

/-- Two texts that are not empty are solid together if the ends are. -/
theorem isSolid_append {cs ds : List Char} (hcs : cs ≠ []) (hds : ds ≠ [])
    (hhead : ∀ c ∈ cs.head?, isBlank c = false) (hlast : ∀ c ∈ ds.getLast?, isBlank c = false) :
    IsSolid (cs ++ ds) := by
  constructor
  · obtain ⟨c, rest, rfl⟩ := List.exists_cons_of_ne_nil hcs
    exact hhead
  · intro c hc
    rw [List.getLast?_append, List.getLast?_eq_some_getLast hds] at hc
    exact hlast c (by rw [List.getLast?_eq_some_getLast hds]; exact hc)

theorem isSolid_of_forall {cs : List Char} (h : ∀ c ∈ cs, isBlank c = false) : IsSolid cs :=
  ⟨fun c hc => h c (List.mem_of_head? hc), fun c hc => h c (List.mem_of_getLast? hc)⟩

/-- What follows the characters that are no blanks starts with a blank. -/
theorem isBlank_of_head?_dropWhile (cs : List Char) :
    ∀ c ∈ (cs.dropWhile (!isBlank ·)).head?, isBlank c := by
  intro c hc
  have h := List.head?_dropWhile_not (!isBlank ·) cs
  rw [Option.mem_def.mp hc] at h
  simpa using h

/-! ## Letters and digits -/

theorem isAlphanum_iff_toNat {c : Char} :
    c.isAlphanum ↔ (48 ≤ c.toNat ∧ c.toNat ≤ 57) ∨ (65 ≤ c.toNat ∧ c.toNat ≤ 90) ∨
      (97 ≤ c.toNat ∧ c.toNat ≤ 122) := by
  simp only [Char.isAlphanum, Char.isAlpha, Char.isUpper, Char.isLower, Char.isDigit,
    Bool.or_eq_true, Bool.and_eq_true, decide_eq_true_eq, ge_iff_le, UInt32.le_iff_toNat_le]
  change (((65 ≤ c.toNat ∧ c.toNat ≤ 90) ∨ (97 ≤ c.toNat ∧ c.toNat ≤ 122)) ∨
    (48 ≤ c.toNat ∧ c.toNat ≤ 57)) ↔ _
  omega

theorem isAlphanum_of_isHexDigit {c : Char} (h : isHexDigit c) : c.isAlphanum := by
  rw [isAlphanum_iff_toNat]
  simp only [isHexDigit, Bool.or_eq_true, Bool.and_eq_true, decide_eq_true_eq, Char.le_def,
    UInt32.le_iff_toNat_le, Char.toNat_val] at h
  have hbounds : '0'.toNat = 48 ∧ '9'.toNat = 57 ∧ 'a'.toNat = 97 ∧ 'f'.toNat = 102 ∧
      'A'.toNat = 65 ∧ 'F'.toNat = 70 := by decide
  omega

theorem isBlank_of_isAlphanum {c : Char} (h : c.isAlphanum) : isBlank c = false := by
  rw [isAlphanum_iff_toNat] at h
  simp only [isBlank, Bool.or_eq_false_iff, Bool.and_eq_false_iff, decide_eq_false_iff_not,
    beq_eq_false_iff_ne]
  omega

/-! ## Words -/

theorem words_gap_append {gap : List Char} (h : IsGap gap) (cs : List Char) :
    words (gap ++ cs) = words cs := by
  unfold words
  induction gap with
  | nil => rfl
  | cons c gap ih =>
    rw [List.cons_append, fields_cons, if_pos (h c List.mem_cons_self)]
    exact ih fun d hd => h d (List.mem_cons_of_mem c hd)

/-- The first word ends at the first blank. -/
theorem words_append_gap {w gap : List Char} (cs : List Char) (hne : w ≠ [])
    (hw : ∀ d ∈ w, isBlank d = false) (hgap : IsGap gap) (hgap_ne : gap ≠ []) :
    words (w ++ (gap ++ cs)) = w :: words cs := by
  obtain ⟨b, rest, rfl⟩ := List.exists_cons_of_ne_nil hgap_ne
  have hrest : IsGap rest := fun c hc => hgap c (List.mem_cons_of_mem b hc)
  have hwords : words (w ++ b :: (rest ++ cs)) = w :: words (rest ++ cs) := by
    unfold words
    rw [fields_append_sep _ hw (hgap b List.mem_cons_self),
      List.filter_cons_of_pos (by simpa using hne)]
  rw [List.cons_append, hwords, words_gap_append hrest]

theorem words_eq_singleton {w : List Char} (hne : w ≠ [])
    (hw : ∀ d ∈ w, isBlank d = false) : words w = [w] := by
  unfold words
  rw [fields_eq_singleton hw, List.filter_cons_of_pos (by simpa using hne)]
  rfl

/-- A text that does not start with a blank starts with its first word. -/
theorem words_cons_solid {c : Char} (h : isBlank c = false) (cs : List Char) :
    ∃ w ws, words (c :: cs) = (c :: w) :: ws := by
  unfold words
  rw [fields_cons, h]
  cases hfields : fields isBlank cs with
  | nil => exact absurd hfields (fields_ne_nil isBlank cs)
  | cons f fs => exact ⟨f, fs.filter (!·.isEmpty), rfl⟩

theorem words_ne_nil_of_solid {cs : List Char} (hne : cs ≠ []) (h : IsSolid cs) : words cs ≠ [] := by
  obtain ⟨c, cs, rfl⟩ := List.exists_cons_of_ne_nil hne
  obtain ⟨w, ws, hwords⟩ := words_cons_solid (h.1 c rfl) cs
  rw [hwords]
  exact List.cons_ne_nil _ _

/-! ## One cut -/

/-- A sign that a text does not hold separates nothing in it. -/
theorem beq_eq_false_of_not_mem {sign : Char} {cs : List Char} (h : sign ∉ cs) :
    ∀ c ∈ cs, (c == sign) = false :=
  fun _ hc => beq_eq_false_iff_ne.mpr (ne_of_mem_of_not_mem hc h)

theorem cut?_append {sep : Char → Bool} {cs : List Char} {c : Char} (rest : List Char)
    (h : ∀ d ∈ cs, sep d = false) (hc : sep c) : cut? sep (cs ++ c :: rest) = some (cs, rest) := by
  have hpass : ∀ d ∈ cs, (!sep d) = true := fun d hd => by simp [h d hd]
  unfold cut?
  rw [List.dropWhile_append_of_pos hpass, List.takeWhile_append_of_pos hpass]
  simp [hc]

/-- Cut at the first blank, a text leaves the other blanks before what follows. -/
theorem cut?_append_gap {w gap : List Char} (cs : List Char) (hw : ∀ d ∈ w, isBlank d = false)
    (hgap : IsGap gap) (hgap_ne : gap ≠ []) :
    ∃ rest, cut? isBlank (w ++ (gap ++ cs)) = some (w, rest) ∧ trim rest = trim cs := by
  obtain ⟨b, rest, rfl⟩ := List.exists_cons_of_ne_nil hgap_ne
  have hrest : IsGap rest := fun c hc => hgap c (List.mem_cons_of_mem b hc)
  exact ⟨rest ++ cs, cut?_append (rest ++ cs) hw (hgap b List.mem_cons_self),
    trim_gap_append hrest cs⟩

/-- What was cut stands on both sides of the separator. -/
theorem mem_of_cut?_eq_some {sep : Char → Bool} {cs head tail : List Char}
    (h : cut? sep cs = some (head, tail)) : (∀ c ∈ head, c ∈ cs) ∧ ∀ c ∈ tail, c ∈ cs := by
  unfold cut? at h
  split at h
  · simp at h
  · rename_i c rest hdrop
    simp only [Option.some.injEq, Prod.mk.injEq] at h
    obtain ⟨rfl, rfl⟩ := h
    have hsuffix : c :: rest <:+ cs := hdrop ▸ List.dropWhile_suffix _
    exact ⟨fun d hd => (List.takeWhile_prefix _).subset hd,
      fun d hd => hsuffix.subset (List.mem_cons_of_mem c hd)⟩

theorem cut?_eq_none {sep : Char → Bool} {cs : List Char} (h : ∀ d ∈ cs, sep d = false) :
    cut? sep cs = none := by
  have hpass : ∀ d ∈ cs, (!sep d) = true := fun d hd => by simp [h d hd]
  have hdrop : (cs ++ []).dropWhile (!sep ·) = ([] : List Char).dropWhile (!sep ·) :=
    List.dropWhile_append_of_pos hpass
  rw [List.append_nil] at hdrop
  unfold cut?
  rw [hdrop]
  rfl

/-! ## Fields -/

theorem length_fields (sep : Char → Bool) (cs : List Char) :
    (fields sep cs).length = cs.countP sep + 1 := by
  induction cs with
  | nil => rfl
  | cons c cs ih =>
    rw [fields_cons, List.countP_cons]
    cases hc : sep c with
    | true => simp [ih]
    | false =>
      cases hfields : fields sep cs with
      | nil => exact absurd hfields (fields_ne_nil sep cs)
      | cons f fs =>
        rw [hfields] at ih
        simpa [extendField] using ih

/-- A separator ends a field wherever it stands. -/
theorem fields_append {sep : Char → Bool} {c : Char} (hc : sep c) (cs rest : List Char) :
    fields sep (cs ++ c :: rest) = fields sep cs ++ fields sep rest := by
  induction cs with
  | nil => simp [fields_cons, hc]
  | cons d cs ih =>
    rw [List.cons_append, fields_cons, fields_cons, ih]
    split
    · rfl
    · cases hfields : fields sep cs with
      | nil => exact absurd hfields (fields_ne_nil sep cs)
      | cons f fs => rfl

/-- The last field of a text that does not end in a separator is not empty. -/
theorem getLast?_fields_ne {sep : Char → Bool} {cs : List Char} {c : Char}
    (hlast : cs.getLast? = some c) (hc : sep c = false) : (fields sep cs).getLast? ≠ some [] := by
  obtain ⟨init, rfl⟩ := List.getLast?_eq_some_iff.mp hlast
  induction init with
  | nil => simp [fields_cons, hc, extendField]
  | cons d init ih =>
    have ih := ih (by simp)
    rw [List.cons_append, fields_cons]
    cases hfields : fields sep (init ++ [c]) with
    | nil => exact absurd hfields (fields_ne_nil sep _)
    | cons f fs =>
      rw [hfields] at ih
      split
      · rwa [List.getLast?_cons_cons]
      · cases fs with
        | nil => simp [extendField]
        | cons g gs => rwa [extendField, List.getLast?_cons_cons]

theorem fields_intercalate {sep : Char → Bool} {c : Char} (hc : sep c) {pieces : List (List Char)}
    (hne : pieces ≠ []) (h : ∀ piece ∈ pieces, ∀ d ∈ piece, sep d = false) :
    fields sep ([c].intercalate pieces) = pieces := by
  induction pieces with
  | nil => exact absurd rfl hne
  | cons piece rest ih =>
    have hpiece := h piece List.mem_cons_self
    cases rest with
    | nil =>
      rw [List.intercalate_singleton]
      exact fields_eq_singleton hpiece
    | cons next rest =>
      have hrest := ih (List.cons_ne_nil next rest) fun p hp => h p (List.mem_cons_of_mem piece hp)
      rw [List.intercalate_cons_cons, List.append_assoc, List.singleton_append,
        fields_append_sep _ hpiece hc, hrest]

/-! ## Lines -/

/-- A line feed ends a line, and what stands behind the last one is a line if it holds something. -/
theorem length_lines (cs : List Char) :
    (lines cs).length =
      cs.countP (· == '\n') + if cs.getLast?.any (· != '\n') then 1 else 0 := by
  have hfields := length_fields (· == '\n') cs
  unfold lines
  dsimp only
  rw [List.length_append, List.length_map, List.length_dropLast, hfields, Nat.add_sub_cancel]
  congr 1
  rcases List.eq_nil_or_concat' cs with rfl | ⟨init, c, rfl⟩
  · rfl
  · rw [List.getLast?_concat]
    by_cases hc : c = '\n'
    · rw [fields_append (by simpa using hc), fields_nil, List.getLast?_concat]
      simp [hc, lastLine]
    · have hlast : (fields (· == '\n') (init ++ [c])).getLast? ≠ some [] :=
        getLast?_fields_ne (List.getLast?_concat (l := init)) (by simpa using hc)
      obtain ⟨last, hsome⟩ := Option.isSome_iff_exists.mp
        (List.getLast?_isSome.mpr (fields_ne_nil (· == '\n') (init ++ [c])))
      cases last with
      | nil => exact absurd hsome hlast
      | cons d ds => simp [hsome, lastLine, hc]

end FirmwareMatch.Text
