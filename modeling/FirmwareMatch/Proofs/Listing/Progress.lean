import FirmwareMatch.Proofs.Listing.Layout

/-
  How a listing grows while its lines are read.

  The lines themselves say which instructions and which labels stand in which code section
  (`codeStatements`, `codeLabels`). The reader keeps up with them (`Reader.Follows`): its blocks,
  the one that is being filled included, hold the instructions of the lines so far in the order of
  the text. A line never changes a complete block; it appends an instruction to the last block, or a
  new block (`Continues`).

  Proved:
  * `follows_step`, `follows_run`: the blocks hold the instructions of the lines.
  * `continues_step`, `continues_run`: what lines can do to the blocks.
  * `statements_parse`: the blocks of a text hold the instructions of its lines.
-/

namespace FirmwareMatch

open Std Text

/-! ## What the lines say -/

namespace Line

/-- Whether a line starts a section. -/
def isMarker : Line → Bool
  | .marker _ => true
  | _ => false

/-- The instruction on a line, on its own or behind a label. -/
def statement? : Line → Option Statement
  | .content (.instruction s) => some s
  | .label _ (some (.instruction s)) => some s
  | _ => none

/-- The label on a line. -/
def labelName? : Line → Option String
  | .label name _ => some name
  | _ => none

/-- The code section behind a line of the section `current`. -/
def sectionBehind (current : Option String) : Line → Option String
  | .marker code => code
  | _ => current

/-- The code section behind lines, if they end in one. -/
def sectionAfter (ls : List Line) : Option String :=
  ls.foldl sectionBehind none

/-- The lines of code sections, each with its section; the first line stands in `current`. -/
def inCode (current : Option String) : List Line → List (String × Line)
  | [] => []
  | l :: ls =>
    (if l.isMarker then [] else (current.map fun name => (name, l)).toList) ++
      inCode (l.sectionBehind current) ls

/-- The instructions of code sections, each with its section, in the order of the text; the first
    line stands in `current`. -/
def statementsFrom (current : Option String) (ls : List Line) : List (String × Statement) :=
  (inCode current ls).filterMap fun (name, l) => l.statement?.map fun s => (name, s)

/-- The instructions of code sections, each with its section, in the order of the text. -/
def codeStatements (ls : List Line) : List (String × Statement) :=
  statementsFrom none ls

/-- The labels of code sections in the order of the text. -/
def codeLabels (ls : List Line) : List String :=
  (inCode none ls).filterMap fun (_, l) => l.labelName?

theorem ne_marker {l : Line} (h : l.isMarker = false) (code : Option String) :
    l ≠ .marker code := by
  rintro rfl
  simp [isMarker] at h

theorem sectionBehind_of_isMarker_false {l : Line} (h : l.isMarker = false)
    (current : Option String) : l.sectionBehind current = current := by
  cases l <;> simp_all [isMarker, sectionBehind]

theorem sectionAfter_concat (ls : List Line) (l : Line) :
    sectionAfter (ls ++ [l]) = l.sectionBehind (sectionAfter ls) := by
  simp [sectionAfter]

theorem inCode_append (current : Option String) (ls ms : List Line) :
    inCode current (ls ++ ms) =
      inCode current ls ++ inCode (ls.foldl sectionBehind current) ms := by
  induction ls generalizing current with
  | nil => rfl
  | cons l ls ih => rw [List.cons_append, inCode, inCode, ih, List.append_assoc, List.foldl_cons]

theorem statementsFrom_cons (code : String) (l : Line) (ls : List Line) :
    statementsFrom (some code) (l :: ls) =
      (l.statement?.map fun s => (code, s)).toList ++
        statementsFrom (l.sectionBehind (some code)) ls := by
  unfold statementsFrom
  rw [inCode, List.filterMap_append]
  congr 1
  cases hmarker : l.isMarker with
  | true => cases l <;> simp_all [isMarker, statement?]
  | false => cases hs : l.statement? <;> simp [hs]

theorem codeStatements_append (ls ms : List Line) :
    codeStatements (ls ++ ms) = codeStatements ls ++ statementsFrom (sectionAfter ls) ms := by
  have hafter : ls.foldl sectionBehind none = sectionAfter ls := rfl
  unfold codeStatements statementsFrom
  rw [inCode_append, List.filterMap_append, hafter]

theorem codeStatements_concat (ls : List Line) (l : Line) :
    codeStatements (ls ++ [l]) =
      codeStatements ls ++
        ((sectionAfter ls).bind fun name => l.statement?.map fun s => (name, s)).toList := by
  rw [codeStatements_append]
  congr 1
  cases sectionAfter ls with
  | none => simp [statementsFrom, inCode]
  | some code => rw [statementsFrom_cons]; simp [statementsFrom, inCode]

/-- The first instruction of lines, if no section starts before it. -/
theorem exists_first_statement {ls : List Line} (code : String)
    (h : ∃ l ∈ ls.takeWhile (!·.isMarker), l.statement?.isSome) :
    ∃ s rest, ls.findSome? statement? = some s ∧
      statementsFrom (some code) ls = (code, s) :: rest := by
  induction ls with
  | nil => simp at h
  | cons l ls ih =>
    cases hmarker : l.isMarker with
    | true => simp [hmarker] at h
    | false =>
      have hbehind := sectionBehind_of_isMarker_false hmarker (some code)
      rw [List.takeWhile_cons_of_pos (by simpa using hmarker)] at h
      rw [statementsFrom_cons, hbehind]
      cases hs : l.statement? with
      | some s => exact ⟨s, _, by simp [hs], rfl⟩
      | none =>
        obtain ⟨s, rest, hfirst, hstatements⟩ := ih (by simpa [hs] using h)
        exact ⟨s, rest, by simp [hs, hfirst], hstatements⟩

end Line

/-! ## Blocks that grow -/

/-- An instruction without its place. -/
def Instruction.statement (i : Instruction) : Statement :=
  ⟨i.address, i.mnemonic, i.operands⟩

/-- The instructions of a block with its section. -/
def Block.statements (b : Block) : List (String × Statement) :=
  b.instructions.map fun i => (b.sectionName, i.statement)

/-- Blocks that go on from others: only the last of these may have got more instructions. -/
def Continues (bs bs' : List Block) : Prop :=
  ∀ cs b, bs = cs ++ [b] →
    ∃ more, cs ++ [{ b with instructions := b.instructions ++ more }] <+: bs'

theorem continues_of_prefix {bs bs' : List Block} (h : bs <+: bs') : Continues bs bs' := by
  rintro cs b rfl
  exact ⟨[], by simpa using h⟩

theorem Continues.refl (bs : List Block) : Continues bs bs :=
  continues_of_prefix (List.prefix_refl bs)

/-- A block that stands behind `cs` stands there with its names in all blocks that go on. -/
theorem Continues.exists_append {bs bs' cs : List Block} {b : Block} (h : Continues bs bs')
    (hb : cs ++ [b] <+: bs) :
    ∃ more, cs ++ [{ b with instructions := b.instructions ++ more }] <+: bs' := by
  obtain ⟨rest, rfl⟩ := hb
  rcases List.eq_nil_or_concat' rest with rfl | ⟨init, last, rfl⟩
  · exact h cs b (List.append_nil _)
  · obtain ⟨more, hmore⟩ := h (cs ++ [b] ++ init) last (List.append_assoc _ _ _).symm
    refine ⟨[], List.IsPrefix.trans ?_ hmore⟩
    simp

theorem Continues.trans {bs bs' bs'' : List Block} (h : Continues bs bs')
    (h' : Continues bs' bs'') : Continues bs bs'' := by
  intro cs b hb
  obtain ⟨more, hmore⟩ := h cs b hb
  obtain ⟨more', hmore'⟩ := h'.exists_append hmore
  exact ⟨more ++ more', by simpa [List.append_assoc] using hmore'⟩

namespace Reader

/-- The blocks so far, with the one that is being filled. -/
def closed (r : Reader) : List Block :=
  r.close.blocks.toList

theorem closed_of_draft_none {r : Reader} (h : r.draft = none) : r.closed = r.blocks.toList := by
  unfold closed
  rw [close_of_draft_none h]

theorem closed_of_draft_some {r : Reader} {d : Draft} (h : r.draft = some d) :
    r.closed = r.blocks.toList ++ [d.block (r.counts.getD d.sectionName 0)] := by
  unfold closed
  rw [close_of_draft_some h, Array.toList_push]

theorem closed_addStatement (r : Reader) (name : String) (s : Statement) :
    (r.addStatement name s).closed = r.blocks.toList ++
      [{ (r.nextDraft name).block (r.counts.getD (r.nextDraft name).sectionName 0) with
        instructions := (r.nextDraft name).instructions.toList ++
          [⟨s.mnemonic, s.operands, (r.nextDraft name).instructions.size, s.address⟩] }] := by
  have hdraft : (r.addStatement name s).draft = some { r.nextDraft name with
      instructions := (r.nextDraft name).instructions.push
        ⟨s.mnemonic, s.operands, (r.nextDraft name).instructions.size, s.address⟩ } := rfl
  rw [closed_of_draft_some hdraft]
  simp [addStatement, Draft.block]

/-- An instruction starts a block that takes all labels, if none is being filled. -/
theorem closed_addStatement_of_none {r : Reader} (h : r.draft = none) (name : String)
    (s : Statement) :
    (r.addStatement name s).closed = r.blocks.toList ++
      [⟨name, r.counts.getD name 0, r.labels.head?, r.labels.tail.reverse,
        [⟨s.mnemonic, s.operands, 0, s.address⟩]⟩] := by
  rw [closed_addStatement]
  simp [nextDraft, h, Draft.block]

/-- An instruction is appended to the block that is being filled. -/
theorem closed_addStatement_of_some {r : Reader} {d : Draft} (h : r.draft = some d)
    (name : String) (s : Statement) :
    (r.addStatement name s).closed = r.blocks.toList ++
      [{ d.block (r.counts.getD d.sectionName 0) with
        instructions := d.instructions.toList ++
          [⟨s.mnemonic, s.operands, d.instructions.size, s.address⟩] }] := by
  rw [closed_addStatement]
  simp [nextDraft, h]

@[simp] theorem closed_addLabel (r : Reader) (name : String) :
    (r.addLabel name).closed = r.closed := by
  have hdraft : (r.addLabel name).draft = none := close_draft r
  rw [closed_of_draft_none hdraft]
  rfl

@[simp] theorem closed_enter (r : Reader) (code : Option String) :
    (r.enter code).closed = r.closed := by
  have hdraft : (r.enter code).draft = none := close_draft r
  rw [closed_of_draft_none hdraft]
  rfl

@[simp] theorem closed_addContent_unknown (r : Reader) (name : String) :
    (r.addContent name .unknown).closed = r.closed := by
  cases h : r.draft with
  | none =>
    rw [closed_of_draft_none h]
    exact closed_of_draft_none h
  | some d =>
    rw [closed_of_draft_some h]
    exact closed_of_draft_some h

/-- What a line can be for a reader: the start of a section, a line outside every code section, or
    a line of one. -/
theorem step_cases (r : Reader) (l : Line) :
    (∃ code, l = .marker code ∧ r.step l = r.enter code) ∨
      (l.isMarker = false ∧ r.current = none ∧ r.step l = r) ∨
      ∃ name, l.isMarker = false ∧ r.current = some name ∧ r.step l = r.addCodeLine name l := by
  cases hmarker : l.isMarker with
  | true =>
    cases l with
    | marker code => exact Or.inl ⟨code, rfl, rfl⟩
    | _ => simp [Line.isMarker] at hmarker
  | false =>
    have hne := Line.ne_marker hmarker
    cases hcurrent : r.current with
    | none => exact Or.inr (Or.inl ⟨rfl, rfl, step_of_current_none hcurrent hne⟩)
    | some name => exact Or.inr (Or.inr ⟨name, rfl, rfl, step_of_current_some hcurrent hne⟩)

theorem continues_addStatement (r : Reader) (name : String) (s : Statement) :
    Continues r.closed (r.addStatement name s).closed := by
  cases h : r.draft with
  | none =>
    rw [closed_of_draft_none h, closed_addStatement_of_none h]
    exact continues_of_prefix (List.prefix_append _ _)
  | some d =>
    rw [closed_of_draft_some h, closed_addStatement_of_some h]
    intro cs b hcs
    obtain ⟨rfl, hb⟩ := List.append_inj' hcs rfl
    obtain rfl := List.singleton_inj.mp hb
    exact ⟨_, List.prefix_refl _⟩

theorem continues_addContent (r : Reader) (name : String) (c : Content) :
    Continues r.closed (r.addContent name c).closed := by
  cases c with
  | instruction s => exact continues_addStatement r name s
  | unknown =>
    rw [closed_addContent_unknown]
    exact Continues.refl _

theorem continues_addCodeLine (r : Reader) (name : String) (l : Line) :
    Continues r.closed (r.addCodeLine name l).closed := by
  cases l with
  | blank => exact Continues.refl _
  | marker code => exact Continues.refl _
  | content c => exact continues_addContent r name c
  | label label after =>
    have hlabel := closed_addLabel r label
    cases after with
    | none =>
      rw [addCodeLine, hlabel]
      exact Continues.refl _
    | some c =>
      have h := continues_addContent (r.addLabel label) name c
      rwa [hlabel] at h

/-- A line keeps the complete blocks and may append to the last one. -/
theorem continues_step (r : Reader) (l : Line) : Continues r.closed (r.step l).closed := by
  rcases step_cases r l with ⟨code, -, hstep⟩ | ⟨-, -, hstep⟩ | ⟨name, -, -, hstep⟩ <;> rw [hstep]
  · rw [closed_enter]
    exact Continues.refl _
  · exact Continues.refl _
  · exact continues_addCodeLine r name l

theorem continues_run (r : Reader) (ls : List Line) : Continues r.closed (r.run ls).closed := by
  induction ls generalizing r with
  | nil => exact Continues.refl _
  | cons l ls ih => exact (continues_step r l).trans (ih (r.step l))

/-! ## The instructions of the lines -/

/-- A reader in the section `current` whose blocks hold the instructions `ss`. No label waits while
    a block is being filled. -/
structure Follows (current : Option String) (ss : List (String × Statement)) (r : Reader) :
    Prop where
  current : r.current = current
  draft : ∀ d ∈ r.draft, r.current = some d.sectionName ∧ r.labels = []
  statements : r.closed.flatMap Block.statements = ss

theorem follows_start : start.Follows none [] where
  current := rfl
  draft := by simp [start]
  statements := rfl

variable {current : Option String} {ss : List (String × Statement)} {r : Reader}

theorem Follows.sectionName_eq {code : String} {d : Draft} (h : r.Follows (some code) ss)
    (hd : r.draft = some d) : d.sectionName = code := by
  have hcurrent := (h.draft d hd).1
  rw [h.current] at hcurrent
  exact (Option.some.inj hcurrent).symm

theorem follows_enter (h : r.Follows current ss) (code : Option String) :
    (r.enter code).Follows code ss := by
  have hdraft : (r.enter code).draft = none := close_draft r
  refine ⟨rfl, by simp [hdraft], ?_⟩
  rw [closed_enter, h.statements]

theorem follows_addLabel (h : r.Follows current ss) (name : String) :
    (r.addLabel name).Follows current ss := by
  have hdraft : (r.addLabel name).draft = none := close_draft r
  refine ⟨(close_current r).trans h.current, by simp [hdraft], ?_⟩
  rw [closed_addLabel, h.statements]

theorem follows_addStatement {code : String} (h : r.Follows (some code) ss) (s : Statement) :
    (r.addStatement code s).Follows (some code) (ss ++ [(code, s)]) := by
  have hstatements := h.statements
  have hcurrent : (r.addStatement code s).current = some code := h.current
  cases hdraft : r.draft with
  | none =>
    rw [closed_of_draft_none hdraft] at hstatements
    refine ⟨hcurrent, ?_, ?_⟩
    · rintro d hd
      obtain rfl := Option.some.inj (Option.mem_def.mp hd)
      exact ⟨by simp [hcurrent, nextDraft, hdraft], rfl⟩
    · rw [closed_addStatement_of_none hdraft]
      simp [hstatements, Block.statements, Instruction.statement]
  | some d =>
    have hsection := h.sectionName_eq hdraft
    rw [closed_of_draft_some hdraft] at hstatements
    refine ⟨hcurrent, ?_, ?_⟩
    · rintro e he
      obtain rfl := Option.some.inj (Option.mem_def.mp he)
      exact ⟨by simp [hcurrent, nextDraft, hdraft, hsection], rfl⟩
    · rw [closed_addStatement_of_some hdraft, ← hstatements]
      simp [Block.statements, Instruction.statement, Draft.block, hsection]

theorem follows_addContent {code : String} (h : r.Follows (some code) ss) (c : Content) :
    (r.addContent code c).Follows (some code)
      (ss ++ ((Line.content c).statement?.map fun s => (code, s)).toList) := by
  cases c with
  | instruction s => exact follows_addStatement h s
  | unknown =>
    refine ⟨h.current, h.draft, ?_⟩
    rw [closed_addContent_unknown, h.statements]
    simp [Line.statement?]

theorem follows_addCodeLine {code : String} (h : r.Follows (some code) ss) {l : Line}
    (hl : l.isMarker = false) :
    (r.addCodeLine code l).Follows (some code)
      (ss ++ (l.statement?.map fun s => (code, s)).toList) := by
  cases l with
  | blank => simpa [addCodeLine, Line.statement?] using h
  | marker code => simp [Line.isMarker] at hl
  | content c => exact follows_addContent h c
  | label label after =>
    have hlabel := follows_addLabel h label
    cases after with
    | none => simpa [addCodeLine, Line.statement?] using hlabel
    | some c =>
      have hcontent := follows_addContent hlabel c
      cases c <;> simpa [addCodeLine, Line.statement?] using hcontent

/-- A reader that has read the lines. -/
def FollowsLines (ls : List Line) (r : Reader) : Prop :=
  r.Follows (Line.sectionAfter ls) (Line.codeStatements ls)

/-- Every line is followed. -/
theorem followsLines_step {ls : List Line} (h : r.FollowsLines ls) (l : Line) :
    (r.step l).FollowsLines (ls ++ [l]) := by
  unfold FollowsLines at h ⊢
  rw [Line.sectionAfter_concat, Line.codeStatements_concat]
  rcases step_cases r l with ⟨code, rfl, hstep⟩ | ⟨hl, hnone, hstep⟩ | ⟨code, hl, hsome, hstep⟩
  · rw [hstep]
    cases Line.sectionAfter ls <;>
      simpa [Line.sectionBehind, Line.statement?] using follows_enter h code
  · have hafter : Line.sectionAfter ls = none := h.current.symm.trans hnone
    rw [hstep, Line.sectionBehind_of_isMarker_false hl]
    rw [hafter] at h ⊢
    simpa using h
  · have hafter : Line.sectionAfter ls = some code := h.current.symm.trans hsome
    rw [hstep, Line.sectionBehind_of_isMarker_false hl]
    rw [hafter] at h ⊢
    exact follows_addCodeLine h hl

theorem followsLines_run (ls : List Line) : (start.run ls).FollowsLines ls := by
  induction ls using List.reverseRecOn with
  | nil => exact follows_start
  | append_singleton ls l ih =>
    rw [run_append, run_cons, run_nil]
    exact followsLines_step ih l

end Reader

/-! ## Texts -/

/-- The blocks of a text hold the instructions of its lines, in the order of the text. -/
theorem Listing.statements_parse (sections : List String) (text : String) :
    (Listing.parse sections text).blocks.flatMap Block.statements =
      Line.codeStatements (Line.ofText sections text) :=
  (Reader.followsLines_run (Line.ofText sections text)).statements

end FirmwareMatch
