import FirmwareMatch.Listing.Reader
import FirmwareMatch.Proofs.Listing.Statement
import FirmwareMatch.Total

/-
  What every listing has that is read from a text.

  The reader keeps an invariant (`Reader.Inv`): the complete blocks and the one that is being
  filled are blocks of code sections, numbered without a gap, and the counters count them. Every
  line keeps it, whatever its kind, so it holds at the end of every text.

  Proved:
  * `inv_close`, `inv_enter`, `inv_addLabel`, `inv_addStatement`: one lemma per operation.
  * `inv_step`, `inv_run`: a line, and a list of lines, keep the invariant.
  * `wellFormed_parse`: the listing of a text is well formed.
  * `instructionCount_parse_le`: a text has no more instructions than characters.
  * `parse_blocks_numbered`: the same, in full.
-/

namespace FirmwareMatch

open Std Text

/-! ## Well-formed blocks and listings -/

/-- A block of a code section with instructions of the right shape, counted from zero, and with
    aliases only beside a label. -/
structure Block.Sound (sections : List String) (b : Block) : Prop where
  section_mem : b.sectionName ∈ sections
  position : ∀ (k : Nat) (i : Instruction), b.instructions[k]? = some i → i.position = k
  shape : ∀ i ∈ b.instructions, WellShaped i.mnemonic i.operands
  aliases : b.label = none → b.aliases = []

/-- How many blocks are of a section. -/
def blocksOf (blocks : List Block) (name : String) : Nat :=
  blocks.countP fun b => b.sectionName == name

/-- The index of every block is the number of earlier blocks of its section. -/
def Indexed (blocks : List Block) : Prop :=
  ∀ (k : Nat) (b : Block), blocks[k]? = some b → b.index = blocksOf (blocks.take k) b.sectionName

/-- How many instructions the blocks hold. -/
def instructionsOf (blocks : List Block) : Nat :=
  total (fun b => b.instructions.length) blocks

/-- Sound blocks, none of them empty, numbered by section, and counters that count them. -/
structure Listing.WellFormed (sections : List String) (l : Listing) : Prop where
  blocks : ∀ b ∈ l.blocks, b.Sound sections ∧ b.instructions ≠ []
  indexed : Indexed l.blocks
  blockCount : l.blockCount = l.blocks.length
  instructionCount : l.instructionCount = instructionsOf l.blocks

/-- One more instruction, at the next position. -/
theorem Block.Sound.push {sections : List String} {b : Block} (h : b.Sound sections)
    {s : Statement} (hs : WellShaped s.mnemonic s.operands) :
    Block.Sound sections
      { b with
        instructions := b.instructions ++
          [⟨s.mnemonic, s.operands, b.instructions.length, s.address⟩] } where
  section_mem := h.section_mem
  position := by
    intro k i hi
    dsimp only at hi
    rcases Nat.lt_or_ge k b.instructions.length with hk | hk
    · rw [List.getElem?_append_left hk] at hi
      exact h.position k i hi
    · rw [List.getElem?_append_right hk, List.getElem?_singleton] at hi
      split at hi
      · simp only [Option.some.injEq] at hi
        subst hi
        dsimp only
        omega
      · simp at hi
  shape := by
    intro i hi
    rcases List.mem_append.mp hi with hi | hi
    · exact h.shape i hi
    · rw [List.mem_singleton.mp hi]
      exact hs
  aliases := h.aliases

theorem indexed_append {blocks : List Block} (h : Indexed blocks) {b : Block}
    (hb : b.index = blocksOf blocks b.sectionName) : Indexed (blocks ++ [b]) := by
  intro k c hc
  rcases Nat.lt_or_ge k blocks.length with hk | hk
  · rw [List.getElem?_append_left hk] at hc
    rw [List.take_append_of_le_length (Nat.le_of_lt hk)]
    exact h k c hc
  · rw [List.getElem?_append_right hk, List.getElem?_singleton] at hc
    split at hc
    · simp only [Option.some.injEq] at hc
      subst hc
      rw [show k = blocks.length by omega, List.take_left]
      exact hb
    · simp at hc

/-! ## The invariant of the reader -/

/-- The block that a draft becomes. -/
def Draft.block (d : Draft) (index : Nat) : Block :=
  ⟨d.sectionName, index, d.label, d.aliases, d.instructions.toList⟩

theorem Draft.sound_block {sections : List String} {d : Draft} {m : Nat}
    (h : (d.block m).Sound sections) (n : Nat) : (d.block n).Sound sections :=
  ⟨h.section_mem, h.position, h.shape, h.aliases⟩

namespace Reader

/-- How many instructions the block that is being filled holds. -/
def drafted (r : Reader) : Nat :=
  (r.draft.map fun d => d.instructions.size).getD 0

/-- What every reader keeps. -/
structure Inv (sections : List String) (r : Reader) : Prop where
  current : ∀ name ∈ r.current, name ∈ sections
  draft : ∀ d ∈ r.draft, (d.block 0).Sound sections ∧ d.instructions ≠ #[]
  blocks : ∀ b ∈ r.blocks.toList, b.Sound sections ∧ b.instructions ≠ []
  indexed : Indexed r.blocks.toList
  counts : ∀ name, r.counts.getD name 0 = blocksOf r.blocks.toList name
  blockCount : r.blockCount = r.blocks.toList.length
  instructionCount : r.instructionCount = instructionsOf r.blocks.toList + r.drafted

variable {sections : List String} {r : Reader}

theorem inv_start : start.Inv sections where
  current := by simp [start]
  draft := by simp [start]
  blocks := by simp [start]
  indexed := by simp [Indexed, start]
  counts := by simp [start, blocksOf]
  blockCount := rfl
  instructionCount := rfl

@[simp] theorem close_draft (r : Reader) : r.close.draft = none := by
  unfold close
  split
  · assumption
  · rfl

theorem inv_close (h : r.Inv sections) : r.close.Inv sections := by
  unfold close
  split
  · exact h
  · rename_i d hd
    obtain ⟨hsound, hne⟩ := h.draft d hd
    have hcount := h.counts d.sectionName
    refine ⟨h.current, by simp, ?_, ?_, ?_, ?_, ?_⟩
    · intro b hb
      rw [Array.toList_push, List.mem_append, List.mem_singleton] at hb
      rcases hb with hb | rfl
      · exact h.blocks b hb
      · exact ⟨Draft.sound_block hsound _, by simpa using hne⟩
    · rw [Array.toList_push]
      exact indexed_append h.indexed hcount
    · intro name
      simp only [Array.toList_push, blocksOf, List.countP_append, List.countP_singleton,
        beq_iff_eq]
      simp only [ExtTreeMap.getD_insert, LawfulEqCmp.compare_eq_iff_eq]
      by_cases hname : d.sectionName = name
      · subst hname
        rw [if_pos rfl, if_pos rfl, hcount]
        rfl
      · rw [if_neg hname, if_neg hname]
        exact h.counts name
    · simp [h.blockCount]
    · have hi := h.instructionCount
      simp only [drafted, hd, Option.map_some, Option.getD_some, instructionsOf] at hi
      simp [hi, drafted, instructionsOf, total_append]

theorem inv_enter (h : r.Inv sections) {code : Option String}
    (hcode : ∀ name ∈ code, name ∈ sections) : (r.enter code).Inv sections := by
  have hc := inv_close h
  exact ⟨hcode, hc.draft, hc.blocks, hc.indexed, hc.counts, hc.blockCount, hc.instructionCount⟩

theorem inv_addLabel (h : r.Inv sections) (name : String) : (r.addLabel name).Inv sections := by
  have hc := inv_close h
  exact ⟨hc.current, hc.draft, hc.blocks, hc.indexed, hc.counts, hc.blockCount,
    hc.instructionCount⟩

/-- A new block takes all labels, so one without a label has no aliases. -/
theorem sound_nextDraft (h : r.Inv sections) {name : String} (hname : name ∈ sections) :
    ((r.nextDraft name).block 0).Sound sections := by
  unfold nextDraft
  cases hd : r.draft with
  | some d => exact (h.draft d hd).1
  | none =>
    refine ⟨hname, by simp [Draft.block], by simp [Draft.block], ?_⟩
    intro hlabel
    have hnil : r.labels = [] := List.head?_eq_none_iff.mp hlabel
    simp [Draft.block, hnil]

theorem size_nextDraft (r : Reader) (name : String) :
    (r.nextDraft name).instructions.size = r.drafted := by
  unfold nextDraft drafted
  cases r.draft <;> rfl

theorem inv_addStatement (h : r.Inv sections) {name : String} (hname : name ∈ sections)
    {s : Statement} (hs : WellShaped s.mnemonic s.operands) :
    (r.addStatement name s).Inv sections := by
  have hsound := (sound_nextDraft h hname).push hs
  refine ⟨h.current, ?_, h.blocks, h.indexed, h.counts, h.blockCount, ?_⟩
  · intro d hd
    simp only [addStatement, Option.mem_def, Option.some.injEq] at hd
    subst hd
    exact ⟨by simpa [Draft.block] using hsound, by simp⟩
  · have hi := h.instructionCount
    rw [← size_nextDraft r name] at hi
    simp only [addStatement, drafted, Option.map_some, Option.getD_some, Array.size_push, hi]
    omega

theorem inv_addContent (h : r.Inv sections) {name : String} (hname : name ∈ sections)
    {c : Content} (hc : c.Sound) : (r.addContent name c).Inv sections := by
  cases c with
  | instruction s => exact inv_addStatement h hname hc
  | unknown =>
    exact ⟨h.current, h.draft, h.blocks, h.indexed, h.counts, h.blockCount, h.instructionCount⟩

theorem inv_addCodeLine (h : r.Inv sections) {name : String} (hname : name ∈ sections)
    {l : Line} (hl : l.Sound sections) : (r.addCodeLine name l).Inv sections := by
  cases l with
  | blank => exact h
  | marker code => exact h
  | label label after =>
    cases after with
    | none => exact inv_addLabel h label
    | some c => exact inv_addContent (inv_addLabel h label) hname (hl c rfl)
  | content c => exact inv_addContent h hname hl

/-- Every line keeps the invariant. -/
theorem inv_step (h : r.Inv sections) {l : Line} (hl : l.Sound sections) :
    (r.step l).Inv sections := by
  unfold step
  split
  · exact inv_enter h hl
  · exact h
  · rename_i name _ hname
    exact inv_addCodeLine h (h.current name hname) hl

theorem inv_run (h : r.Inv sections) {ls : List Line} (hls : ∀ l ∈ ls, l.Sound sections) :
    (r.run ls).Inv sections := by
  induction ls generalizing r with
  | nil => exact h
  | cons l ls ih =>
    rw [run_cons]
    exact ih (inv_step h (hls l List.mem_cons_self))
      fun m hm => hls m (List.mem_cons_of_mem l hm)

/-! ## How many instructions there can be -/

theorem instructionCount_addContent_le (r : Reader) (name : String) (c : Content) :
    (r.addContent name c).instructionCount ≤ r.instructionCount + 1 := by
  cases c with
  | instruction s => exact Nat.le_refl _
  | unknown => exact Nat.le_succ _

theorem instructionCount_addCodeLine_le (r : Reader) (name : String) (l : Line) :
    (r.addCodeLine name l).instructionCount ≤ r.instructionCount + 1 := by
  cases l with
  | blank => exact Nat.le_succ _
  | marker code => exact Nat.le_succ _
  | label label after =>
    cases after with
    | none => simp [addCodeLine, addLabel]
    | some c =>
      have h := instructionCount_addContent_le (r.addLabel label) name c
      simpa [addCodeLine, addLabel] using h
  | content c => exact instructionCount_addContent_le r name c

/-- A line gives one instruction at most. -/
theorem instructionCount_step_le (r : Reader) (l : Line) :
    (r.step l).instructionCount ≤ r.instructionCount + 1 := by
  unfold step
  split
  · simp [enter]
  · exact Nat.le_succ _
  · exact instructionCount_addCodeLine_le r _ _

theorem instructionCount_run_le (r : Reader) (ls : List Line) :
    (r.run ls).instructionCount ≤ r.instructionCount + ls.length := by
  induction ls generalizing r with
  | nil => exact Nat.le_refl _
  | cons l ls ih =>
    have hl := instructionCount_step_le r l
    have hls := ih (r.step l)
    rw [run_cons, List.length_cons]
    omega

end Reader

/-! ## Listings -/

theorem Line.sound_of_mem_ofText {sections : List String} {text : String} {l : Line}
    (h : l ∈ Line.ofText sections text) : l.Sound sections := by
  obtain ⟨raw, _, rfl⟩ := List.mem_map.mp h
  exact Line.sound_read sections raw

theorem Listing.wellFormed_parse (sections : List String) (text : String) :
    (Listing.parse sections text).WellFormed sections := by
  have h := Reader.inv_close
    (Reader.inv_run Reader.inv_start fun l (hl : l ∈ Line.ofText sections text) =>
      Line.sound_of_mem_ofText hl)
  refine ⟨h.blocks, h.indexed, h.blockCount, ?_⟩
  have hi := h.instructionCount
  rwa [Reader.drafted, Reader.close_draft] at hi

/-- A text has no more instructions than characters. -/
theorem Listing.instructionCount_parse_le (sections : List String) (text : String) :
    (Listing.parse sections text).instructionCount ≤ text.length := by
  have hrun := Reader.instructionCount_run_le Reader.start (Line.ofText sections text)
  have hlines := length_lines_le text.toList
  rw [String.length_toList] at hlines
  rw [Line.ofText, List.length_map] at hrun
  simp only [Listing.parse, Reader.close_instructionCount, Line.ofText]
  have hstart : Reader.start.instructionCount = 0 := rfl
  omega

/-- Every listing that is read from a text, whatever its sections are and in which order they come:
    the blocks are of code sections, none is empty, each index is the number of earlier blocks of
    the section, positions count from zero, mnemonics and operands have their shape, a block
    without a label has no aliases, and the two counters count blocks and instructions. -/
theorem Listing.parse_blocks_numbered (sections : List String) (text : String) :
    let l := Listing.parse sections text
    (∀ b ∈ l.blocks,
      b.sectionName ∈ sections ∧ b.instructions ≠ [] ∧
      (∀ (k : Nat) (i : Instruction), b.instructions[k]? = some i → i.position = k) ∧
      (∀ i ∈ b.instructions,
        IsMnemonic i.mnemonic.toList ∧ ∀ op ∈ i.operands, IsOperand op.toList) ∧
      (b.label = none → b.aliases = [])) ∧
    (∀ (k : Nat) (b : Block), l.blocks[k]? = some b →
      b.index = (l.blocks.take k).countP fun e => e.sectionName == b.sectionName) ∧
    l.blockCount = l.blocks.length ∧
    l.instructionCount = total (fun b => b.instructions.length) l.blocks := by
  intro l
  have h := Listing.wellFormed_parse sections text
  refine ⟨?_, h.indexed, h.blockCount, h.instructionCount⟩
  intro b hb
  obtain ⟨hsound, hne⟩ := h.blocks b hb
  exact ⟨hsound.section_mem, hne, hsound.position, hsound.shape, hsound.aliases⟩

/-- A section that is entered again goes on counting its blocks. -/
theorem Listing.parse_blocks_numbered_reentered :
    let l := Listing.parse [".text", ".init"] ".text\nnop\n.init\nnop\n.text\nend: nop\n"
    l.blockCount = 3 ∧ ∃ b, l.blocks[2]? = some b ∧ b.sectionName = ".text" ∧ b.index = 1 := by
  intro l
  obtain ⟨_, hindex, hcount, _⟩ := Listing.parse_blocks_numbered
    [".text", ".init"] ".text\nnop\n.init\nnop\n.text\nend: nop\n"
  have hsections : l.blocks.map Block.sectionName = [".text", ".init", ".text"] := by
    decide +kernel
  have hlength : l.blocks.length = 3 := by
    rw [← List.length_map Block.sectionName, hsections]
    rfl
  have hget : l.blocks[2]? = some l.blocks[2] := List.getElem?_eq_getElem (by omega)
  have hname : (l.blocks.map Block.sectionName)[2]? = some ".text" := by rw [hsections]; rfl
  rw [List.getElem?_map, hget] at hname
  have hname' := Option.some.inj hname
  refine ⟨hcount.trans hlength, _, hget, hname', ?_⟩
  rw [hindex 2 _ hget, hname']
  decide +kernel

end FirmwareMatch
