import FirmwareMatch.Proofs.Listing.Progress

/-
  What becomes of each line of a text.

  A line is significant if it is not blank, starts no section and stands in a code section. What the
  reader counts for a line does not depend on the labels and blocks that it holds: an instruction
  always finds a block or starts one, so a significant line is counted as an instruction or as a
  skipped line, unless it is a label with nothing behind it, and no line is counted twice.

  Significance is said of the lines as they stand in the text, by the section starts before them,
  and not by the state of the reader.

  Proved:
  * `sectionAfter_read`: the section that the reader is in is the one last started.
  * `isSome_content?_read`: which lines hold something where an instruction is expected.
  * `tally_step`, `sum_tally_ofLines`: what one line, and all lines, add to the counters.
  * `parse_accounts`: every line is accounted for once.
-/

namespace FirmwareMatch

open Text

/-! ## Significant lines -/

namespace Line

/-- The name on the last section start among lines, if there is one. -/
def lastSection? (sections : List String) (before : List (List Char)) : Option String :=
  (before.filterMap fun raw => sectionMarker? sections (bare raw)).getLast?.map String.ofList

/-- A line that is not blank, starts no section and stands in a code section; `before` are the lines
    before it. -/
def isSignificant (sections : List String) (before : List (List Char)) (raw : List Char) : Bool :=
  !(bare raw).isEmpty && (sectionMarker? sections (bare raw)).isNone &&
    (lastSection? sections before).any sections.contains

/-- A line with a label and nothing behind it. -/
def isLabelAlone (raw : List Char) : Bool :=
  (label? (bare raw)).any fun (_, rest) => rest.isEmpty

/-- A significant line that is not a label alone. -/
def isCounted (sections : List String) (before : List (List Char)) (raw : List Char) : Bool :=
  isSignificant sections before raw && !isLabelAlone raw

/-- How many lines satisfy `p`, which also sees the lines before. -/
def countLines (p : List (List Char) → List Char → Bool) (raws : List (List Char)) : Nat :=
  raws.zipIdx.countP fun (raw, k) => p (raws.take k) raw

theorem countLines_concat (p : List (List Char) → List Char → Bool) (raws : List (List Char))
    (raw : List Char) :
    countLines p (raws ++ [raw]) = countLines p raws + if p raws raw then 1 else 0 := by
  unfold countLines
  rw [List.zipIdx_append, List.countP_append]
  congr 1
  · apply List.countP_congr
    rintro ⟨other, k⟩ hk
    have hlt : k < raws.length :=
      (List.getElem?_eq_some_iff.mp (List.mem_zipIdx_iff_getElem?.mp hk)).1
    dsimp only
    rw [List.take_append_of_le_length (Nat.le_of_lt hlt)]
  · simp [List.countP_singleton]

/-- What stands on a line where an instruction is expected. -/
def content? : Line → Option Content
  | .content c => some c
  | .label _ after => after
  | _ => none

variable {sections : List String}

theorem lastSection?_concat (before : List (List Char)) (raw : List Char) :
    lastSection? sections (before ++ [raw]) =
      ((sectionMarker? sections (bare raw)).map String.ofList).or (lastSection? sections before) := by
  unfold lastSection?
  rw [List.filterMap_append, List.getLast?_append]
  cases h : sectionMarker? sections (bare raw) <;> simp [h]

/-- The section that lines end in is the one last started, if it is a code section. -/
theorem sectionAfter_read (before : List (List Char)) :
    sectionAfter (before.map (read sections)) =
      (lastSection? sections before).filter (sections.contains ·) := by
  induction before using List.reverseRecOn with
  | nil => rfl
  | append_singleton before raw ih =>
    rw [List.map_append, List.map_singleton, sectionAfter_concat, ih, lastSection?_concat]
    rcases read_cases sections raw with ⟨hblank, hread⟩ | ⟨name, hmarker, hread⟩ |
      ⟨_, _, -, hmarker, -, hread⟩ | ⟨-, hmarker, -, hread⟩
    · rw [hread, hblank, sectionMarker?_nil]
      rfl
    · rw [hread, hmarker]
      simp [sectionBehind, Option.filter_some]
    · rw [hread, hmarker]
      rfl
    · rw [hread, hmarker]
      rfl

/-- A line holds something where an instruction is expected, unless it is blank, a section start or a
    label alone. -/
theorem isSome_content?_read (raw : List Char) :
    (read sections raw).content?.isSome =
      (!(bare raw).isEmpty && (sectionMarker? sections (bare raw)).isNone &&
        !isLabelAlone raw) := by
  unfold isLabelAlone
  rcases read_cases sections raw with ⟨hblank, hread⟩ | ⟨name, hmarker, hread⟩ |
    ⟨_, rest, hne, hmarker, hlabel, hread⟩ | ⟨hne, hmarker, hlabel, hread⟩
  · simp [hread, hblank, content?]
  · simp [hread, hmarker, content?]
  · cases rest <;> simp [hread, hne, hmarker, hlabel, content?]
  · simp [hread, hne, hmarker, hlabel, content?]

/-- The lines that are counted are those of code sections with something where an instruction is
    expected. -/
theorem isCounted_eq (before : List (List Char)) (raw : List Char) :
    isCounted sections before raw =
      ((sectionAfter (before.map (read sections))).isSome &&
        (read sections raw).content?.isSome) := by
  rw [sectionAfter_read, Option.isSome_filter, isSome_content?_read, isCounted, isSignificant]
  cases (lastSection? sections before).any (sections.contains ·) <;> simp

/-- What a line adds to the counters of instructions and of skipped lines. -/
def gain (current : Option String) (l : Line) : Nat × Nat :=
  match current, l.content? with
  | some _, some (.instruction _) => (1, 0)
  | some _, some .unknown => (0, 1)
  | _, _ => (0, 0)

/-- A line that is counted adds an instruction or a skipped line. -/
theorem gain_of_isCounted {before : List (List Char)} {raw : List Char}
    (h : isCounted sections before raw) :
    (read sections raw).gain (sectionAfter (before.map (read sections))) = (1, 0) ∨
      (read sections raw).gain (sectionAfter (before.map (read sections))) = (0, 1) := by
  rw [isCounted_eq, Bool.and_eq_true] at h
  obtain ⟨name, hname⟩ := Option.isSome_iff_exists.mp h.1
  obtain ⟨c, hc⟩ := Option.isSome_iff_exists.mp h.2
  unfold gain
  rw [hname, hc]
  cases c with
  | instruction s => exact Or.inl rfl
  | unknown => exact Or.inr rfl

/-- Other lines add nothing. -/
theorem gain_of_isCounted_eq_false {before : List (List Char)} {raw : List Char}
    (h : isCounted sections before raw = false) :
    (read sections raw).gain (sectionAfter (before.map (read sections))) = (0, 0) := by
  rw [isCounted_eq] at h
  unfold gain
  cases hname : sectionAfter (before.map (read sections)) with
  | none => rfl
  | some name =>
    cases hc : (read sections raw).content? with
    | none => rfl
    | some c => simp [hname, hc] at h

end Line

/-! ## Counters -/

namespace Reader

/-- The counters of instructions and of skipped lines. -/
def tally (r : Reader) : Nat × Nat :=
  (r.instructionCount, r.skippedCount)

@[simp] theorem tally_close (r : Reader) : r.close.tally = r.tally := by
  simp [tally]

@[simp] theorem tally_addLabel (r : Reader) (name : String) :
    (r.addLabel name).tally = r.tally :=
  tally_close r

/-- Every line adds its gain. An instruction is counted whether a block is being filled or not. -/
theorem tally_step (r : Reader) (l : Line) :
    (r.step l).tally =
      (r.tally.1 + (l.gain r.current).1, r.tally.2 + (l.gain r.current).2) := by
  rcases step_cases r l with ⟨code, rfl, hstep⟩ | ⟨-, hnone, hstep⟩ | ⟨name, hl, hsome, hstep⟩
  · have hgain : (Line.marker code).gain r.current = (0, 0) := by cases r.current <;> rfl
    rw [hstep, hgain]
    exact tally_close r
  · rw [hstep, hnone]
    rfl
  · rw [hstep, hsome]
    cases l with
    | marker code => simp [Line.isMarker] at hl
    | blank => rfl
    | content c => cases c <;> rfl
    | label label after =>
      have hlabel := tally_addLabel r label
      rcases after with _ | _ | _
      · exact hlabel
      · exact congrArg (fun n : Nat × Nat => (n.1 + 1, n.2)) hlabel
      · exact congrArg (fun n : Nat × Nat => (n.1, n.2 + 1)) hlabel

/-- The reader of a sequence of lines. -/
def ofLines (sections : List String) (raws : List (List Char)) : Reader :=
  start.run (raws.map (Line.read sections))

variable {sections : List String}

/-- A line behind others adds its gain. -/
theorem tally_ofLines_concat (before : List (List Char)) (raw : List Char) :
    let gain := (Line.read sections raw).gain (Line.sectionAfter (before.map (Line.read sections)))
    (ofLines sections (before ++ [raw])).tally =
      ((ofLines sections before).tally.1 + gain.1, (ofLines sections before).tally.2 + gain.2) := by
  have hcurrent := (followsLines_run (before.map (Line.read sections))).current
  unfold ofLines
  rw [List.map_append, List.map_singleton, run_append, run_cons, run_nil, tally_step, hcurrent]

/-- Instructions and skipped lines together are the lines that are counted. -/
theorem sum_tally_ofLines (raws : List (List Char)) :
    (ofLines sections raws).tally.1 + (ofLines sections raws).tally.2 =
      Line.countLines (Line.isCounted sections) raws := by
  induction raws using List.reverseRecOn with
  | nil => rfl
  | append_singleton before raw ih =>
    rw [Line.countLines_concat, tally_ofLines_concat, ← ih]
    cases h : Line.isCounted sections before raw with
    | false =>
      rw [Line.gain_of_isCounted_eq_false h]
      simp
    | true =>
      rcases Line.gain_of_isCounted h with hgain | hgain
      · rw [hgain, if_pos rfl]
        omega
      · rw [hgain, if_pos rfl]
        omega

end Reader

/-! ## Texts -/

/-- The counters of instructions and of skipped lines. -/
def Listing.tally (l : Listing) : Nat × Nat :=
  (l.instructionCount, l.skippedCount)

/-- Every line of a text is accounted for once. The lines are those that line feeds end and what
    stands behind the last one. Instructions and skipped lines together are the significant lines
    that are not a label alone: each of them adds one to one of the two counters, and no other line
    adds anything. -/
theorem Listing.parse_accounts (sections : List String) (text : String) :
    let raws := lines text.toList
    let l := Listing.parse sections text
    l.lineCount = raws.length ∧
    raws.length = text.toList.countP (· == '\n') +
      (if text.toList.getLast?.any (· != '\n') then 1 else 0) ∧
    l.instructionCount + l.skippedCount = Line.countLines
      (fun before raw => Line.isSignificant sections before raw && !Line.isLabelAlone raw) raws ∧
    l.instructionCount = (Reader.ofLines sections raws).instructionCount ∧
    l.skippedCount = (Reader.ofLines sections raws).skippedCount ∧
    ∀ before raw after, raws = before ++ raw :: after →
      let r := Reader.ofLines sections before
      let r' := Reader.ofLines sections (before ++ [raw])
      if Line.isSignificant sections before raw && !Line.isLabelAlone raw then
        r'.instructionCount = r.instructionCount + 1 ∧ r'.skippedCount = r.skippedCount ∨
          r'.instructionCount = r.instructionCount ∧ r'.skippedCount = r.skippedCount + 1
      else r'.instructionCount = r.instructionCount ∧ r'.skippedCount = r.skippedCount := by
  intro raws l
  have htally : l.tally = (Reader.ofLines sections raws).tally := Reader.tally_close _
  obtain ⟨hinstructions, hskipped⟩ := Prod.mk.inj htally
  have hsum : l.instructionCount + l.skippedCount =
      Line.countLines (Line.isCounted sections) raws := by
    rw [← Reader.sum_tally_ofLines, ← htally]
    rfl
  refine ⟨List.length_map _, length_lines _, hsum, hinstructions, hskipped, ?_⟩
  intro before raw after _ r r'
  have hstep : r'.tally = _ := Reader.tally_ofLines_concat before raw
  obtain ⟨hinstructions, hskipped⟩ := Prod.mk.inj hstep
  change if Line.isCounted sections before raw then _ else _
  cases hcounted : Line.isCounted sections before raw with
  | true =>
    rcases Line.gain_of_isCounted hcounted with hgain | hgain
    · rw [hgain] at hinstructions hskipped
      exact Or.inl ⟨hinstructions, hskipped⟩
    · rw [hgain] at hinstructions hskipped
      exact Or.inr ⟨hinstructions, hskipped⟩
  | false =>
    rw [Line.gain_of_isCounted_eq_false hcounted] at hinstructions hskipped
    exact ⟨hinstructions, hskipped⟩

end FirmwareMatch
