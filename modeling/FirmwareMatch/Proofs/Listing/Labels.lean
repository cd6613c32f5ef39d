import FirmwareMatch.Proofs.Listing.Sites

/-
  Where the labels of a text go.

  A label belongs to the first instruction on its line or behind it. If the next section starts
  before there is one, or the text ends, the label is dropped. The lines say which labels that are
  (`labelLines`), and the blocks say how many instructions stand before each of their labels
  (`labelPlaces`).

  What becomes of the labels that wait in a reader depends on one thing about the lines to come:
  whether they are followed by an instruction. With this known (`Reader.labelsThen`) every line
  adds its own label and nothing else.

  The main result is said of the lines as they are in the text (`labelsIn`); the kinds of the lines
  have the same labels (`labelLines_read`).

  Proved:
  * `map_name_labelLines`: the labels of the lines, followed or not.
  * `labelsThen_step`, `labelsThen_run`: what one line, and all lines, do to the labels.
  * `labelPlaces_parse`: the labels of the blocks of a text, with their places.
  * `exists_block_of_followed`, `exists_block_of_label`: the block that a label belongs to.
  * `parse_labels`: no label is lost, doubled or moved.
-/

namespace FirmwareMatch

open Std Text

/-! ## Labels on lines -/

namespace Line

/-- Whether an instruction stands on the lines before the next section start. -/
def isFollowed (ls : List Line) : Bool :=
  (ls.takeWhile (!·.isMarker)).any (·.statement?.isSome)

/-- The label of a line in a code section. -/
structure Labelled where
  name : String
  /-- How many instructions stand before the line. -/
  start : Nat
  /-- Whether the line or one behind it holds an instruction, before the next section starts. -/
  followed : Bool
deriving DecidableEq, Repr

/-- What a line between others labels. -/
def labelled? (before : List Line) (l : Line) (after : List Line) : Option Labelled :=
  if (sectionAfter before).isSome then
    l.labelName?.map fun name =>
      ⟨name, (codeStatements before).length, isFollowed (l :: after)⟩
  else none

/-- The labels of code sections on lines that stand behind the lines `before`. -/
def labelLinesFrom (before : List Line) : List Line → List Labelled
  | [] => []
  | l :: after => (labelled? before l after).toList ++ labelLinesFrom (before ++ [l]) after

/-- The labels of code sections, in the order of the text. -/
def labelLines (ls : List Line) : List Labelled :=
  labelLinesFrom [] ls

/-- The labels that are followed, each with the number of instructions before it. -/
def keptPlaces (labels : List Labelled) : List (String × Nat) :=
  (labels.filter (·.followed)).map fun label => (label.name, label.start)

theorem isFollowed_iff {ls : List Line} :
    isFollowed ls ↔ ∃ l ∈ ls.takeWhile (!·.isMarker), l.statement?.isSome :=
  List.any_eq_true

theorem isFollowed_cons (l : Line) (ls : List Line) :
    isFollowed (l :: ls) = (!l.isMarker && (l.statement?.isSome || isFollowed ls)) := by
  unfold isFollowed
  cases h : l.isMarker <;> simp [h]

theorem keptPlaces_append (labels labels' : List Labelled) :
    keptPlaces (labels ++ labels') = keptPlaces labels ++ keptPlaces labels' := by
  simp [keptPlaces]

theorem mem_labelLinesFrom {start ls : List Line} {label : Labelled} :
    label ∈ labelLinesFrom start ls ↔
      ∃ before l after, ls = before ++ l :: after ∧
        labelled? (start ++ before) l after = some label := by
  induction ls generalizing start with
  | nil => simp [labelLinesFrom]
  | cons m ls ih =>
    rw [labelLinesFrom, List.mem_append, Option.mem_toList, ih]
    constructor
    · rintro (hlabel | ⟨before, l, after, rfl, hlabel⟩)
      · exact ⟨[], m, ls, rfl, by simpa using hlabel⟩
      · exact ⟨m :: before, l, after, rfl, by simpa using hlabel⟩
    · rintro ⟨before, l, after, hls, hlabel⟩
      cases before with
      | nil =>
        obtain ⟨rfl, rfl⟩ := List.cons.inj hls
        exact Or.inl (by simpa using hlabel)
      | cons n before =>
        obtain ⟨rfl, rfl⟩ := List.cons.inj hls
        exact Or.inr ⟨before, l, after, rfl, by simpa using hlabel⟩

theorem mem_labelLines {ls : List Line} {label : Labelled} :
    label ∈ labelLines ls ↔
      ∃ before l after, ls = before ++ l :: after ∧ labelled? before l after = some label :=
  mem_labelLinesFrom

theorem mem_keptPlaces {labels : List Labelled} {name : String} {n : Nat} :
    (name, n) ∈ keptPlaces labels ↔
      ∃ label ∈ labels, label.followed ∧ label.name = name ∧ label.start = n := by
  simp only [keptPlaces, List.mem_map, List.mem_filter, Prod.mk.injEq]
  constructor
  · rintro ⟨label, ⟨hlabel, hfollowed⟩, hname, hstart⟩
    exact ⟨label, hlabel, hfollowed, hname, hstart⟩
  · rintro ⟨label, hlabel, hfollowed, hname, hstart⟩
    exact ⟨label, ⟨hlabel, hfollowed⟩, hname, hstart⟩

theorem labelled?_eq_some {before after : List Line} {l : Line} {label : Labelled} :
    labelled? before l after = some label ↔
      (sectionAfter before).isSome ∧ l.labelName? = some label.name ∧
        label.start = (codeStatements before).length ∧
        label.followed = isFollowed (l :: after) := by
  unfold labelled?
  split
  · rename_i hcode
    rw [Option.map_eq_some_iff]
    constructor
    · rintro ⟨name, hname, rfl⟩
      exact ⟨hcode, hname, rfl, rfl⟩
    · rintro ⟨-, hname, hstart, hfollowed⟩
      exact ⟨label.name, hname, by rw [← hstart, ← hfollowed]⟩
  · rename_i hcode
    simp [hcode]

theorem map_name_labelLinesFrom (before after : List Line) :
    (labelLinesFrom before after).map Labelled.name =
      (inCode (sectionAfter before) after).filterMap fun (_, l) => l.labelName? := by
  induction after generalizing before with
  | nil => rfl
  | cons l after ih =>
    rw [labelLinesFrom, List.map_append, ih, sectionAfter_concat, inCode, List.filterMap_append]
    congr 1
    cases hcode : sectionAfter before <;> cases l <;>
      simp [labelled?, hcode, labelName?, isMarker]

theorem map_name_labelLines (ls : List Line) :
    (labelLines ls).map Labelled.name = codeLabels ls :=
  map_name_labelLinesFrom [] ls

/-! ## Labels in texts -/

/-- What a line between others labels. -/
def labelledOn? (sections : List String) (before : List (List Char)) (raw : List Char)
    (after : List (List Char)) : Option Labelled :=
  if (codeSection? sections before).isSome then
    (labelOn? sections raw).map fun name =>
      ⟨name, (statementsIn sections before).length, hasInstruction sections (raw :: after)⟩
  else none

/-- The labels of the lines of code sections, in the order of the text. -/
def labelsIn (sections : List String) (raws : List (List Char)) : List Labelled :=
  (splits raws).filterMap fun (before, raw, after) => labelledOn? sections before raw after

variable {sections : List String}

theorem map_name_labelledOn? (before : List (List Char)) (raw : List Char)
    (after : List (List Char)) :
    (labelledOn? sections before raw after).map Labelled.name =
      if (codeSection? sections before).isSome then labelOn? sections raw else none := by
  unfold labelledOn?
  split <;> simp [Function.comp_def]

theorem map_name_labelsIn (raws : List (List Char)) :
    (labelsIn sections raws).map Labelled.name = (splits raws).filterMap fun (before, raw, _) =>
      if (codeSection? sections before).isSome then labelOn? sections raw else none := by
  rw [labelsIn, List.map_filterMap]
  exact List.filterMap_congr fun (before, raw, after) _ => map_name_labelledOn? before raw after

theorem isFollowed_read (raws : List (List Char)) :
    isFollowed (raws.map (read sections)) = hasInstruction sections raws :=
  Bool.eq_iff_iff.mpr (isFollowed_iff.trans hasInstruction_iff.symm)

theorem labelled?_read (before : List (List Char)) (raw : List Char) (after : List (List Char)) :
    labelled? (before.map (read sections)) (read sections raw) (after.map (read sections)) =
      labelledOn? sections before raw after := by
  unfold labelled? labelledOn?
  rw [sectionAfter_read, labelName?_read, codeStatements_read, ← List.map_cons, isFollowed_read,
    codeSection?]

theorem labelLinesFrom_read (before after : List (List Char)) :
    labelLinesFrom (before.map (read sections)) (after.map (read sections)) =
      (splitsFrom before after).filterMap fun (before, raw, after) =>
        labelledOn? sections before raw after := by
  induction after generalizing before with
  | nil => rfl
  | cons raw after ih =>
    have hrest := ih (before ++ [raw])
    rw [List.map_append, List.map_singleton] at hrest
    rw [List.map_cons, labelLinesFrom, labelled?_read, hrest, splitsFrom, List.filterMap_cons]
    cases h : labelledOn? sections before raw after <;> simp [h]

/-- The labels of the lines are those of their kinds. -/
theorem labelLines_read (raws : List (List Char)) :
    labelLines (raws.map (read sections)) = labelsIn sections raws :=
  labelLinesFrom_read [] raws

end Line

/-! ## Labels on blocks -/

/-- The labels of blocks, each with the number of instructions before its block. -/
def labelPlaces (blocks : List Block) : List (String × Nat) :=
  blocks.zipIdx.flatMap fun (b, k) =>
    b.labels.map fun name => (name, instructionsOf (blocks.take k))

theorem labelPlaces_concat (bs : List Block) (b : Block) :
    labelPlaces (bs ++ [b]) =
      labelPlaces bs ++ b.labels.map fun name => (name, instructionsOf bs) := by
  unfold labelPlaces
  rw [List.zipIdx_append, List.flatMap_append]
  congr 1
  · apply List.flatMap_congr
    rintro ⟨c, k⟩ hc
    have hk : k < bs.length :=
      (List.getElem?_eq_some_iff.mp (List.mem_zipIdx_iff_getElem?.mp hc)).1
    dsimp only
    rw [List.take_append_of_le_length (Nat.le_of_lt hk)]
  · simp

theorem map_fst_labelPlaces (blocks : List Block) :
    (labelPlaces blocks).map Prod.fst = blocks.flatMap Block.labels := by
  induction blocks using List.reverseRecOn with
  | nil => rfl
  | append_singleton bs b ih =>
    rw [labelPlaces_concat, List.map_append, ih, List.flatMap_append]
    simp [Function.comp_def]

theorem mem_labelPlaces {blocks : List Block} {name : String} {n : Nat} :
    (name, n) ∈ labelPlaces blocks ↔
      ∃ bs b rest, blocks = bs ++ b :: rest ∧ name ∈ b.labels ∧ instructionsOf bs = n := by
  simp only [labelPlaces, List.mem_flatMap, List.mem_map, Prod.exists, Prod.mk.injEq,
    List.mem_zipIdx_iff_getElem?]
  constructor
  · rintro ⟨b, k, hk, _, hname, rfl, rfl⟩
    obtain ⟨hlt, rfl⟩ := List.getElem?_eq_some_iff.mp hk
    exact ⟨_, _, _, by rw [← List.drop_eq_getElem_cons hlt, List.take_append_drop], hname, rfl⟩
  · rintro ⟨bs, b, rest, rfl, hname, rfl⟩
    exact ⟨b, bs.length, by simp, name, hname, rfl, by simp⟩

theorem length_flatMap_statements (blocks : List Block) :
    (blocks.flatMap Block.statements).length = instructionsOf blocks := by
  induction blocks with
  | nil => rfl
  | cons b bs ih =>
    rw [List.flatMap_cons, List.length_append, ih, instructionsOf, instructionsOf, total_cons,
      Block.statements, List.length_map]

namespace Reader

/-! ## Labels in a reader -/

/-- The labels of the blocks so far and those that wait, if an instruction follows them. -/
def labelsThen (r : Reader) (followed : Bool) : List (String × Nat) :=
  labelPlaces r.closed ++
    if r.current.isSome && followed then
      r.labels.reverse.map fun name => (name, instructionsOf r.closed)
    else []

variable {r : Reader} {ss : List (String × Statement)}

theorem labelsThen_false (r : Reader) : r.labelsThen false = labelPlaces r.closed := by
  simp [labelsThen]

theorem labelsThen_enter (r : Reader) (code : Option String) (followed : Bool) :
    (r.enter code).labelsThen followed = r.labelsThen false := by
  rw [labelsThen_false, labelsThen, closed_enter]
  simp [enter]

/-- A label waits with those before it. -/
theorem labelsThen_addLabel {code : String} (h : r.current = some code) (name : String)
    (followed : Bool) :
    (r.addLabel name).labelsThen followed =
      r.labelsThen followed ++ if followed then [(name, instructionsOf r.closed)] else [] := by
  have hcurrent : (r.addLabel name).current = some code := (close_current r).trans h
  have hlabels : (r.addLabel name).labels = name :: r.labels :=
    congrArg (name :: ·) (close_labels r)
  unfold labelsThen
  rw [closed_addLabel, hcurrent, hlabels, h]
  cases followed <;> simp

/-- The block of an instruction takes all labels that wait. -/
theorem labelsThen_addStatement {code : String} (h : r.Follows (some code) ss) (s : Statement)
    (followed : Bool) : (r.addStatement code s).labelsThen followed = r.labelsThen true := by
  have hlabels : (r.addStatement code s).labels = [] := rfl
  unfold labelsThen
  rw [hlabels, h.current]
  cases hdraft : r.draft with
  | none =>
    rw [closed_addStatement_of_none hdraft, closed_of_draft_none hdraft, labelPlaces_concat]
    cases r.labels <;> simp [Block.labels]
  | some d =>
    -- no label waits, and the block that is being filled keeps its own
    rw [closed_addStatement_of_some hdraft, closed_of_draft_some hdraft, labelPlaces_concat,
      labelPlaces_concat, (h.draft d hdraft).2]
    simp [Block.labels]

theorem labelsThen_addContent {code : String} (h : r.Follows (some code) ss) (c : Content)
    (followed : Bool) :
    (r.addContent code c).labelsThen followed =
      r.labelsThen ((Line.content c).statement?.isSome || followed) := by
  cases c with
  | instruction s => exact labelsThen_addStatement h s followed
  | unknown =>
    unfold labelsThen
    rw [closed_addContent_unknown]
    rfl

/-- What stands behind a label, as a line of its own. -/
def behindLabel : Option Content → Line
  | none => .blank
  | some c => .content c

/-- A label may as well stand on a line of its own. -/
theorem step_label_eq {code : String} (h : r.current = some code) (name : String)
    (after : Option Content) :
    r.step (.label name after) = (r.addLabel name).step (behindLabel after) := by
  have hcurrent : (r.addLabel name).current = some code := (close_current r).trans h
  cases after with
  | none => rw [step_label h, behindLabel, step_blank]
  | some c =>
    rw [behindLabel, step_of_current_some h (by simp), step_of_current_some hcurrent (by simp)]
    rfl

theorem labelsThen_behindLabel {code : String} (h : r.Follows (some code) ss)
    (after : Option Content) (followed : Bool) :
    (r.step (behindLabel after)).labelsThen followed =
      r.labelsThen ((behindLabel after).statement?.isSome || followed) := by
  cases after with
  | none => rw [behindLabel, step_blank]; rfl
  | some c =>
    rw [behindLabel, step_of_current_some h.current (by simp)]
    exact labelsThen_addContent h c followed

/-- A line adds its own label, if it is followed, to those that were there. -/
theorem labelsThen_step {before : List Line} (h : r.FollowsLines before) (l : Line)
    (after : List Line) :
    (r.step l).labelsThen (Line.isFollowed after) =
      r.labelsThen (Line.isFollowed (l :: after)) ++
        Line.keptPlaces (Line.labelled? before l after).toList := by
  have hlength : instructionsOf r.closed = (Line.codeStatements before).length := by
    rw [← length_flatMap_statements, h.statements]
  rcases step_cases r l with ⟨code, rfl, hstep⟩ | ⟨hl, hnone, hstep⟩ | ⟨code, hl, hsome, hstep⟩
  · have hfollowed : Line.isFollowed (.marker code :: after) = false := by
      simp [Line.isFollowed_cons, Line.isMarker]
    rw [hstep, labelsThen_enter, hfollowed]
    simp [Line.labelled?, Line.labelName?, Line.keptPlaces]
  · have hafter : Line.sectionAfter before = none := h.current.symm.trans hnone
    rw [hstep]
    simp [labelsThen, hnone, Line.labelled?, hafter, Line.keptPlaces]
  · have hafter : Line.sectionAfter before = some code := h.current.symm.trans hsome
    have hfollows : r.Follows (some code) (Line.codeStatements before) := hafter ▸ h
    rw [Line.isFollowed_cons, hl]
    cases l with
    | marker code => simp [Line.isMarker] at hl
    | blank =>
      rw [step_blank]
      simp [Line.statement?, Line.labelled?, Line.labelName?, Line.keptPlaces]
    | content c =>
      rw [hstep, addCodeLine, labelsThen_addContent hfollows]
      simp [Line.labelled?, Line.labelName?, Line.keptPlaces]
    | label name content =>
      -- the label waits first, and then its line may hold the instruction that takes it
      have hcontent : (behindLabel content).statement? =
          (Line.label name content).statement? := by
        rcases content with _ | _ | _ <;> rfl
      rw [step_label_eq hsome, labelsThen_behindLabel (follows_addLabel hfollows name), hcontent,
        labelsThen_addLabel hsome, hlength]
      cases hkept : (Line.label name content).statement?.isSome || Line.isFollowed after <;>
        simp [Line.labelled?, Line.labelName?, Line.keptPlaces, hafter, Line.isFollowed_cons,
          Line.isMarker, hkept]

/-- Lines that stand behind others add their labels to those that were there. -/
theorem labelsThen_run (before after : List Line) :
    labelPlaces (start.run (before ++ after)).closed =
      (start.run before).labelsThen (Line.isFollowed after) ++
        Line.keptPlaces (Line.labelLinesFrom before after) := by
  induction after generalizing before with
  | nil => simp [Line.isFollowed, Line.labelLinesFrom, Line.keptPlaces, labelsThen_false]
  | cons l after ih =>
    have hrest := ih (before ++ [l])
    rw [run_append start before [l], run_cons, run_nil, labelsThen_step (followsLines_run before),
      ← List.append_cons] at hrest
    rw [hrest, Line.labelLinesFrom, Line.keptPlaces_append, List.append_assoc]

end Reader

/-! ## Texts -/

/-- The labels of the blocks of a text are those of its lines that are followed, in the same
    order and with the same places. -/
theorem Listing.labelPlaces_parse (sections : List String) (text : String) :
    labelPlaces (Listing.parse sections text).blocks =
      Line.keptPlaces (Line.labelLines (Line.ofText sections text)) := by
  have hrun := Reader.labelsThen_run [] (Line.ofText sections text)
  have hstart : ∀ followed, Reader.start.labelsThen followed = [] := fun followed => rfl
  rwa [List.nil_append, Reader.run_nil, hstart, List.nil_append] at hrun

/-- A label that is followed belongs to the block of the first instruction on its line or behind
    it. -/
theorem Listing.exists_block_of_followed {sections : List String} {text : String}
    {before after : List Line} {l : Line} {name code : String}
    (hlines : Line.ofText sections text = before ++ l :: after)
    (hcode : Line.sectionAfter before = some code) (hname : l.labelName? = some name)
    (hfollowed : Line.isFollowed (l :: after)) :
    ∃ bs b rest s, (Listing.parse sections text).blocks = bs ++ b :: rest ∧ name ∈ b.labels ∧
      bs.flatMap Block.statements = Line.codeStatements before ∧
      (l :: after).findSome? Line.statement? = some s ∧
      b.statements.head? = some (code, s) := by
  have hkept : (name, (Line.codeStatements before).length) ∈
      labelPlaces (Listing.parse sections text).blocks := by
    rw [Listing.labelPlaces_parse, Line.mem_keptPlaces]
    refine ⟨⟨name, _, Line.isFollowed (l :: after)⟩, ?_, hfollowed, rfl, rfl⟩
    exact Line.mem_labelLines.mpr ⟨before, l, after, hlines,
      Line.labelled?_eq_some.mpr ⟨by simp [hcode], hname, rfl, rfl⟩⟩
  obtain ⟨bs, b, rest, hblocks, hlabel, hbefore⟩ := mem_labelPlaces.mp hkept
  obtain ⟨s, others, hfirst, hfrom⟩ :=
    Line.exists_first_statement code (Line.isFollowed_iff.mp hfollowed)
  have hstatements := Listing.statements_parse sections text
  rw [hblocks, hlines, Line.codeStatements_append, hcode, hfrom, List.flatMap_append,
    List.flatMap_cons] at hstatements
  obtain ⟨hbs, hb⟩ := List.append_inj hstatements (by rw [length_flatMap_statements, hbefore])
  refine ⟨bs, b, rest, s, hblocks, hlabel, hbs, hfirst, ?_⟩
  have hne : b.instructions ≠ [] :=
    ((Listing.wellFormed_parse sections text).blocks b (by simp [hblocks])).2
  obtain ⟨i, is, hi⟩ := List.exists_cons_of_ne_nil hne
  rw [Block.statements, hi, List.map_cons, List.cons_append] at hb
  rw [Block.statements, hi, List.map_cons, List.head?_cons, (List.cons.inj hb).1]

/-- The first block that carries a label is the one of the first instruction behind its first
    line. -/
theorem Listing.exists_block_of_label {sections : List String} {text : String}
    {before after : List Line} {name code : String} {content : Option Content}
    (hlines : Line.ofText sections text = before ++ .label name content :: after)
    (hcode : Line.sectionAfter before = some code) (hfirst : name ∉ Line.codeLabels before)
    (hfollowed : ∃ l ∈ (Line.label name content :: after).takeWhile (!·.isMarker),
      l.statement?.isSome) :
    ∃ bs b rest, (Listing.parse sections text).blocks = bs ++ b :: rest ∧
      b.sectionName = code ∧ name ∈ b.labels ∧ (∀ c ∈ bs, name ∉ c.labels) ∧
      bs.flatMap Block.statements = Line.codeStatements before := by
  obtain ⟨bs, b, rest, s, hblocks, hlabel, hbefore, -, hhead⟩ :=
    Listing.exists_block_of_followed hlines hcode rfl (Line.isFollowed_iff.mpr hfollowed)
  have hsection : b.sectionName = code := by
    obtain ⟨i, -, hi⟩ := List.mem_map.mp (List.mem_of_head? hhead)
    exact (Prod.mk.inj hi).1
  refine ⟨bs, b, rest, hblocks, hsection, hlabel, ?_, hbefore⟩
  -- a block of `bs` with the label would have it from a line before its first line
  intro c hc hname
  obtain ⟨cs, ds, rfl⟩ := List.append_of_mem hc
  have hkept : (name, instructionsOf cs) ∈ labelPlaces (Listing.parse sections text).blocks :=
    mem_labelPlaces.mpr ⟨cs, c, ds ++ b :: rest, by simp [hblocks], hname, rfl⟩
  rw [Listing.labelPlaces_parse, Line.mem_keptPlaces] at hkept
  obtain ⟨label, hmem, -, rfl, hstart⟩ := hkept
  obtain ⟨earlier, l, later, hsplit, hlabelled⟩ := Line.mem_labelLines.mp hmem
  obtain ⟨hsome, hl, hcount, -⟩ := Line.labelled?_eq_some.mp hlabelled
  have hlt : (Line.codeStatements earlier).length < (Line.codeStatements before).length := by
    have hne : c.instructions ≠ [] :=
      ((Listing.wellFormed_parse sections text).blocks c (by simp [hblocks])).2
    have hpos := List.length_pos_iff.mpr hne
    rw [← hcount, hstart, ← hbefore, length_flatMap_statements]
    simp only [instructionsOf, total_append, total_cons]
    omega
  rw [hlines] at hsplit
  rcases List.append_eq_append_iff.mp hsplit with ⟨more, rfl, -⟩ | ⟨more, rfl, hmore⟩
  · rw [Line.codeStatements_append, List.length_append] at hlt
    omega
  · cases more with
    | nil => simp at hlt
    | cons m more =>
      obtain ⟨rfl, -⟩ := List.cons.inj hmore
      apply hfirst
      rw [← Line.map_name_labelLines, List.mem_map]
      refine ⟨⟨label.name, label.start, Line.isFollowed (l :: more)⟩, ?_, rfl⟩
      exact Line.mem_labelLines.mpr ⟨earlier, l, more, rfl,
        Line.labelled?_eq_some.mpr ⟨hsome, hl, hcount, rfl⟩⟩

/-- No label is lost, doubled or moved. The labels of a text are those of its lines in code
    sections. The names of the blocks are these labels in the order of the text, without those that
    no instruction follows before the next section starts; and each of them stands at the block
    whose first instruction is the first one on the line of the label or behind it. -/
theorem Listing.parse_labels (sections : List String) (text : String) :
    let raws := lines text.toList
    let blocks := (Listing.parse sections text).blocks
    let labels := Line.labelsIn sections raws
    let kept := labels.filter (·.followed)
    labels.map (·.name) = (Line.splits raws).filterMap (fun (before, raw, _) =>
      if (Line.codeSection? sections before).isSome then Line.labelOn? sections raw else none) ∧
    blocks.flatMap Block.labels = kept.map (·.name) ∧
    labelPlaces blocks = kept.map (fun label => (label.name, label.start)) ∧
    blocks.flatMap Block.statements = Line.statementsIn sections raws ∧
    ∀ before raw after name code, raws = before ++ raw :: after →
      Line.codeSection? sections before = some code → Line.labelOn? sections raw = some name →
      Line.hasInstruction sections (raw :: after) →
      ∃ bs b rest s, blocks = bs ++ b :: rest ∧ name ∈ b.labels ∧
        bs.flatMap Block.statements = Line.statementsIn sections before ∧
        (raw :: after).findSome? (Line.statementOn? sections) = some s ∧
        b.statements.head? = some (code, s) := by
  intro raws blocks labels kept
  have hplaces : labelPlaces blocks = kept.map fun label => (label.name, label.start) := by
    rw [Listing.labelPlaces_parse, Line.ofText, Line.labelLines_read, Line.keptPlaces]
  refine ⟨Line.map_name_labelsIn raws, ?_, hplaces, ?_, ?_⟩
  · rw [← map_fst_labelPlaces, hplaces, List.map_map]
    rfl
  · exact (Listing.statements_parse sections text).trans (Line.codeStatements_read raws)
  · intro before raw after name code hraws hcode hname hfollowed
    have hlines : Line.ofText sections text = before.map (Line.read sections) ++
        Line.read sections raw :: after.map (Line.read sections) := by
      rw [← List.map_cons, ← List.map_append, ← hraws, Line.ofText]
    have hfollowed' : Line.isFollowed ((raw :: after).map (Line.read sections)) :=
      (Line.isFollowed_read (raw :: after)).trans hfollowed
    obtain ⟨bs, b, rest, s, hblocks, hlabel, hbefore, hfirst, hhead⟩ :=
      Listing.exists_block_of_followed hlines ((Line.sectionAfter_read before).trans hcode)
        ((Line.labelName?_read raw).trans hname) hfollowed'
    refine ⟨bs, b, rest, s, hblocks, hlabel, hbefore.trans (Line.codeStatements_read before), ?_,
      hhead⟩
    rw [← hfirst, ← List.map_cons, List.findSome?_map]
    exact congrArg (List.findSome? · (raw :: after))
      (funext fun other => (Line.statement?_read other).symm)

/-- Labels over a skipped line and on the line of an instruction, and one that the next section
    start cuts off. -/
theorem Listing.parse_labels_cut_off :
    let raws := [".text", "a:", ".align 2", "b: nop", "c:", ".text", "d: ?", "nop"].map String.toList
    let text := ".text\na:\n.align 2\nb: nop\nc:\n.text\nd: ?\nnop\n"
    let blocks := (Listing.parse [".text"] text).blocks
    lines text.toList = raws ∧
    Line.labelsIn [".text"] raws =
      [⟨"a", 0, true⟩, ⟨"b", 0, true⟩, ⟨"c", 1, false⟩, ⟨"d", 1, true⟩] ∧
    blocks.flatMap Block.labels = ["a", "b", "d"] ∧
    labelPlaces blocks = [("a", 0), ("b", 0), ("d", 1)] ∧
    -- the block of the first label
    ∃ bs b rest, blocks = bs ++ b :: rest ∧ "a" ∈ b.labels ∧ bs.flatMap Block.statements = [] ∧
      b.statements.head? = some (".text", ⟨none, "nop", []⟩) := by
  intro raws text blocks
  have hraws : lines text.toList = raws := by decide +kernel
  have hlabels : Line.labelsIn [".text"] raws =
      [⟨"a", 0, true⟩, ⟨"b", 0, true⟩, ⟨"c", 1, false⟩, ⟨"d", 1, true⟩] := by
    decide +kernel
  obtain ⟨-, hnames, hplaces, -, hblock⟩ := Listing.parse_labels [".text"] text
  rw [hraws, hlabels] at hnames hplaces
  rw [hraws] at hblock
  obtain ⟨bs, b, rest, s, hblocks, hlabel, hbefore, hfirst, hhead⟩ :=
    hblock (raws.take 1) "a:".toList (raws.drop 2) "a" ".text" (by decide +kernel)
      (by decide +kernel) (by decide +kernel) (by decide +kernel)
  have hs : (raws.drop 1).findSome? (Line.statementOn? [".text"]) = some ⟨none, "nop", []⟩ := by
    decide +kernel
  obtain rfl : ⟨none, "nop", []⟩ = s := Option.some.inj (hs.symm.trans hfirst)
  refine ⟨hraws, hlabels, hnames, hplaces, bs, b, rest, hblocks, hlabel, ?_, hhead⟩
  rw [hbefore]
  decide +kernel

end FirmwareMatch
