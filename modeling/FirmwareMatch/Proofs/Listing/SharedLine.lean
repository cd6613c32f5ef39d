import FirmwareMatch.Proofs.Listing.Labels
import FirmwareMatch.Proofs.Listing.Source

/-
  Labels that share their line with what follows.

  What stands behind a label is read as content only: no section starts there and there is no
  second label. So a line `L: R` is read as the two lines `L:` and `R` are, if `R` on a line of its
  own is content or says nothing, and if `L:` on a line of its own is a label. The second may fail
  for a number, for which the columns behind it decide, for the lone point, and for a code section
  that is called like the label with its colon.

  Proved:
  * `read_shared`, `read_alone`: the line and its first part, by what the second part is on its own.
  * `step_shared`: the label and what follows it, one after the other.
  * `parse_split`: the listing of a text in which such a line was split.
-/

namespace FirmwareMatch

open Text

/-! ## One line -/

namespace Line

/-- A name that is a label wherever it stands with a colon behind it. -/
structure IsOpenLabel (sections : List String) (name : List Char) : Prop where
  identifier : isIdentifier name
  ne_point : name ≠ ['.']
  ne_number : isHex name = false
  ne_section : String.ofList (name ++ [':']) ∉ sections

/-- A text that is content on a line of its own, or says nothing. -/
def IsBehindLabel (sections : List String) (raw : List Char) : Prop :=
  (read sections raw).isMarker = false ∧ (read sections raw).labelName? = none

/-- A line that starts with a label and holds something else is no marker. -/
theorem sectionMarker?_behind_label (sections : List String) {name gap rest : List Char}
    (hchars : ∀ c ∈ name, isNameChar c) (hgap : IsGap gap) (hne : gap ≠ []) (hrest : words rest ≠ []) :
    sectionMarker? sections (name ++ [':'] ++ (gap ++ rest)) = none := by
  have hsolid := isBlank_of_mem_label hchars
  have hspace : ' ' ∉ name ++ [':'] := fun hc => absurd (hsolid _ hc) (by decide)
  -- the first word of an announcement has no colon
  have hannounced : announcement.isPrefixOf (name ++ [':'] ++ (gap ++ rest)) = false := by
    rw [Bool.eq_false_iff]
    intro hannounced
    rw [List.isPrefixOf_iff_prefix] at hannounced
    rcases List.prefix_or_prefix_of_prefix hannounced (List.prefix_append _ _) with h | h
    · exact hspace (h.subset (by decide +kernel))
    · have hcolon : ':' ∉ announcement := by decide +kernel
      exact hcolon (h.subset (by simp))
  have hsection : (name ++ [':'] == sectionDirective) = false := by
    rw [beq_eq_false_iff_ne]
    intro heq
    exact not_mem_of_names forall_mem_sectionDirective (heq ▸ by simp)
  unfold sectionMarker?
  rw [hannounced, if_neg Bool.false_ne_true, words_append_gap rest (by simp) hsolid hgap hne,
    toList_section]
  dsimp only
  rw [hsection]
  simp [hrest]

/-- A name with a colon behind it is a label also if something else follows. -/
theorem label?_behind_label {name gap rest : List Char} (hname : isIdentifier name)
    (hpoint : name ≠ ['.']) (hnumber : isHex name = false) (hgap : IsGap gap) (hne : gap ≠ [])
    (hrest : IsSolid rest) : label? (name ++ [':'] ++ (gap ++ rest)) = some (name, rest) := by
  obtain ⟨-, hchars⟩ := forall_mem_of_isIdentifier hname
  obtain ⟨tail, hcut, htail⟩ := cut?_append_gap rest (isBlank_of_mem_label hchars) hgap hne
  unfold label?
  rw [hcut, Option.getD_some]
  dsimp only
  rw [htail, trim_of_solid hrest, isHex_append_colon, Bool.false_and, Bool.false_and,
    if_neg Bool.false_ne_true]
  simp [hnumber, hname, hpoint]

/-- What starts no section and has no label is content. -/
theorem read_of_isBehindLabel {sections : List String} {raw : List Char}
    (h : IsBehindLabel sections raw) (hne : bare raw ≠ []) :
    read sections raw = .content (readContent (bare raw)) := by
  obtain ⟨hmarker, hlabel⟩ := h
  rcases read_cases sections raw with ⟨hblank, -⟩ | ⟨_, -, hread⟩ | ⟨_, _, -, -, -, hread⟩ |
    ⟨-, -, -, hread⟩
  · exact absurd hblank hne
  · rw [hread] at hmarker
    cases hmarker
  · rw [hread] at hlabel
    cases hlabel
  · exact hread

/-- A label and what follows it on its line are read as on two lines. -/
theorem read_shared {sections : List String} {lead name gap rest : List Char} {b : Char}
    (hlead : IsGap lead) (hname : IsOpenLabel sections name) (hgap : IsGap gap)
    (hb : isAsciiBlank b) (hrest : IsBehindLabel sections rest) :
    ∃ after, read sections (lead ++ (name ++ [':'] ++ (gap ++ b :: rest))) =
        .label (String.ofList name) after ∧
      Reader.behindLabel after = read sections rest := by
  obtain ⟨-, hchars⟩ := forall_mem_of_isIdentifier hname.identifier
  have hlabel : IsSolid (name ++ [':']) := isSolid_of_forall (isBlank_of_mem_label hchars)
  obtain ⟨before, -, hbefore, -, -, hbare⟩ := bare_behind hlead (isPlain_label hchars) hgap hb rest
  obtain ⟨gap', hgap', hne, hjoin⟩ : ∃ gap', IsGap gap' ∧ gap' ≠ [] ∧
      gap ++ b :: (before ++ bare rest) = gap' ++ bare rest :=
    ⟨gap ++ b :: before, isGap_append_cons hgap (isBlank_of_isAsciiBlank hb) hbefore, by simp,
      by simp⟩
  rw [hjoin] at hbare
  -- behind the label stands nothing but a comment, or something is left of the rest of the line
  by_cases hnone : bare rest = []
  · refine ⟨none, ?_, (read_of_bare_nil hnone).symm⟩
    rw [read, hbare, hnone, List.append_nil, trim_append_gap hgap', trim_of_solid hlabel]
    exact ofBare_label hname.ne_section hname.identifier hname.ne_point
  · refine ⟨some (readContent (bare rest)), ?_, (read_of_isBehindLabel hrest hnone).symm⟩
    have hsolid : IsSolid (bare rest) := isSolid_trim _
    have hline : IsOperand (name ++ [':'] ++ (gap' ++ bare rest)) :=
      Statement.isOperand_append ⟨by simp, hlabel⟩ gap' ⟨hnone, hsolid⟩
    rw [read, hbare, trim_of_solid hline.2, ofBare,
      sectionMarker?_behind_label sections hchars hgap' hne (words_ne_nil_of_solid hnone hsolid),
      label?_behind_label hname.identifier hname.ne_point hname.ne_number hgap' hne hsolid]
    simp [hnone]

/-- The same label on a line of its own. -/
theorem read_alone {sections : List String} {lead name pad : List Char} (hlead : IsGap lead)
    (hname : IsOpenLabel sections name) (hpad : IsGap pad) :
    read sections (lead ++ (name ++ [':'] ++ pad)) = .label (String.ofList name) none := by
  obtain ⟨-, hchars⟩ := forall_mem_of_isIdentifier hname.identifier
  have hwritten : IsWritten (name ++ [':']) (lead ++ (name ++ [':'] ++ pad)) :=
    ⟨lead, pad, hlead, .gap hpad, fun heq => absurd heq (by simp), rfl⟩
  rw [read, bare_of_written (isPlain_label hchars)
    (isSolid_of_forall (isBlank_of_mem_label hchars)) hwritten]
  exact ofBare_label hname.ne_section hname.identifier hname.ne_point

end Line

/-! ## The reader -/

namespace Reader

/-- A label and what stands behind it may be taken one after the other. -/
theorem step_shared (r : Reader) (name : String) (after : Option Content) :
    r.step (.label name after) = (r.step (.label name none)).step (behindLabel after) := by
  cases h : r.current with
  | none =>
    have hbehind : ∀ code, behindLabel after ≠ .marker code := by
      cases after <;> simp [behindLabel]
    rw [step_of_current_none h (by simp), step_of_current_none h (by simp),
      step_of_current_none h hbehind]
  | some code => rw [step_label_eq h, step_label h]

end Reader

namespace Listing

/-- A line `L: R` is replaced by the two lines `L:` and `R`, for the pieces between line feeds. -/
inductive Split (sections : List String) : List (List Char) → List (List Char) → Prop
  | line {lead name gap pad rest : List Char} {b : Char} (before after : List (List Char))
      (hlead : IsGap lead) (hname : Line.IsOpenLabel sections name) (hgap : IsGap gap)
      (hb : isAsciiBlank b) (hpad : IsGap pad) (hrest : Line.IsBehindLabel sections rest) :
      Split sections (before ++ (lead ++ (name ++ ':' :: (gap ++ b :: rest))) :: after)
        (before ++ (lead ++ (name ++ ':' :: pad)) :: rest :: after)

/-- What is read behind the two lines is what is read behind the one. -/
theorem run_split {sections : List String} {raws raws' : List (List Char)}
    (h : Split sections raws raws') (r : Reader) :
    r.run (raws'.map (Line.read sections)) = r.run (raws.map (Line.read sections)) := by
  cases h with
  | @line lead name gap pad rest b before after hlead hname hgap hb hpad hrest =>
    obtain ⟨content, hline, hbehind⟩ := Line.read_shared hlead hname hgap hb hrest
    rw [List.map_append, List.map_append, Reader.run_append, Reader.run_append]
    simp only [List.map_cons, Reader.run_cons]
    rw [List.append_cons name ':' pad, List.append_cons name ':' (gap ++ b :: rest),
      Line.read_alone hlead hname hpad, hline, Reader.step_shared _ _ content, hbehind]

/-- A label may share its line with what follows: splitting the line behind the label leaves the
    blocks and the counts of instructions and of skipped lines as they were. -/
theorem parse_split {sections : List String} {text text' : String}
    (h : Split sections (fields (· == '\n') text.toList) (fields (· == '\n') text'.toList)) :
    let l := Listing.parse sections text
    let l' := Listing.parse sections text'
    l'.blocks = l.blocks ∧ l'.instructionCount = l.instructionCount ∧
      l'.skippedCount = l.skippedCount := by
  intro l l'
  have hrun : Reader.start.run (Line.ofText sections text') =
      Reader.start.run (Line.ofText sections text) := by
    rw [run_ofText_fields, run_ofText_fields, run_split h]
  simp only [l, l', parse, hrun, and_self]

/-- An instruction with a comment behind a label. -/
theorem parse_split_instruction :
    let text := ".text\nmain: push {r4} ; save\n"
    let text' := ".text\nmain:\npush {r4} ; save\n"
    Split [".text"] (fields (· == '\n') text.toList) (fields (· == '\n') text'.toList) ∧
      (Listing.parse [".text"] text').blocks = (Listing.parse [".text"] text).blocks ∧
      (Listing.parse [".text"] text').instructionCount = 1 := by
  intro text text'
  have hname : Line.IsOpenLabel [".text"] "main".toList :=
    ⟨by decide +kernel, by decide +kernel, by decide +kernel, by decide +kernel⟩
  have hrest : Line.IsBehindLabel [".text"] "push {r4} ; save".toList := by
    unfold Line.IsBehindLabel
    decide +kernel
  have hsplit : Split [".text"] _ _ := Split.line [".text".toList] [[]] isGap_nil hname isGap_nil
    (show isAsciiBlank ' ' by decide) isGap_nil hrest
  have htext : Split [".text"] (fields (· == '\n') text.toList)
      (fields (· == '\n') text'.toList) := by
    convert hsplit using 1 <;> decide +kernel
  obtain ⟨hblocks, hinstructions, -⟩ := parse_split htext
  exact ⟨htext, hblocks, hinstructions.trans (by decide +kernel)⟩

/-- A line is not the same as its two parts if the second starts a section or has a label of its
    own, if the first is the lone point, or if a section is called like the first. -/
theorem parse_split_otherwise :
    let blocks := fun sections text => (Listing.parse sections text).blocks
    blocks [".text"] ".text\nmain: .data\nnop\n" ≠
      blocks [".text"] ".text\nmain:\n.data\nnop\n" ∧
    blocks [".text"] ".text\nmain: loop: nop\n" ≠ blocks [".text"] ".text\nmain:\nloop: nop\n" ∧
    blocks [".text"] ".text\n.: nop\n" ≠ blocks [".text"] ".text\n.:\nnop\n" ∧
    blocks [".text", ".foo:"] ".text\n.foo: nop\n" ≠
      blocks [".text", ".foo:"] ".text\n.foo:\nnop\n" := by
  decide +kernel

end Listing

end FirmwareMatch
