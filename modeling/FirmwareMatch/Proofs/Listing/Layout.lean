import FirmwareMatch.Proofs.Listing.Comment
import FirmwareMatch.Proofs.Listing.Reading

/-
  Blocks laid out as lines.

  A block is written as an optional section start, a line for each of its labels and a line for
  each instruction. A section start is left out where the section goes on and a label starts the
  block. Between these lines there may be lines that say nothing.

  The reader holds the blocks that are complete once the one that is being filled is closed
  (`Reader.Holds`); the lines of a block add this block and nothing else.

  Proved:
  * `run_labels`, `run_instructions`: what the lines of a block do to a reader.
  * `holds_run_entries`: the lines of one block.
  * `holds_run_entriesFrom`: the lines of all blocks.
  * `parse_of_isLaidOut`: a text whose lines are read as the entries of blocks is read back as these
    blocks.
-/

namespace FirmwareMatch

open Std Text

/-! ## Entries -/

/-- What one line of a laid out block stands for. -/
inductive Entry
  | start (name : String)
  | label (name : String)
  | instruction (i : Instruction)

/-- The line that the reader should see. -/
def Entry.line : Entry → Line
  | .start name => .marker (some name)
  | .label name => .label name none
  | .instruction i => .content (.instruction ⟨i.address, i.mnemonic, i.operands⟩)

/-- The entries of a block; `announced` tells whether its section is started before it. -/
def Block.entries (b : Block) (announced : Bool) : List Entry :=
  (if announced then [.start b.sectionName] else []) ++
    (b.labels.map .label ++ b.instructions.map .instruction)

/-- The entries of blocks that follow a block of the section `previous`. A section is started
    where it is another one, and before every block without a label. -/
def entriesFrom (previous : Option String) : List Block → List Entry
  | [] => []
  | b :: bs =>
    b.entries (previous != some b.sectionName || b.label.isNone) ++
      entriesFrom (some b.sectionName) bs

/-- Lines that are written for entries, in order, with idle lines between them. -/
inductive Laid (Writes : Entry → List Char → Prop) : List Entry → List (List Char) → Prop
  | nil : Laid Writes [] []
  | idle {raw : List Char} {es : List Entry} {raws : List (List Char)} (hraw : Line.IsIdle raw)
      (h : Laid Writes es raws) : Laid Writes es (raw :: raws)
  | entry {e : Entry} {raw : List Char} {es : List Entry} {raws : List (List Char)}
      (hraw : Writes e raw) (h : Laid Writes es raws) : Laid Writes (e :: es) (raw :: raws)

/-- An entry belongs to some block. -/
theorem exists_of_mem_entriesFrom {previous : Option String} {blocks : List Block} {e : Entry}
    (h : e ∈ entriesFrom previous blocks) :
    ∃ b ∈ blocks, e = .start b.sectionName ∨ (∃ l ∈ b.labels, e = .label l) ∨
      ∃ i ∈ b.instructions, e = .instruction i := by
  induction blocks generalizing previous with
  | nil => simp [entriesFrom] at h
  | cons b bs ih =>
    rw [entriesFrom, List.mem_append] at h
    rcases h with h | h
    · refine ⟨b, List.mem_cons_self, ?_⟩
      simp only [Block.entries, List.mem_append, List.mem_map] at h
      rcases h with h | ⟨l, hl, rfl⟩ | ⟨i, hi, rfl⟩
      · split at h
        · exact Or.inl (List.mem_singleton.mp h)
        · simp at h
      · exact Or.inr (Or.inl ⟨l, hl, rfl⟩)
      · exact Or.inr (Or.inr ⟨i, hi, rfl⟩)
    · obtain ⟨c, hc, he⟩ := ih h
      exact ⟨c, List.mem_cons_of_mem b hc, he⟩

namespace Reader

/-! ## The lines of a block -/

theorem close_of_draft_none {r : Reader} (h : r.draft = none) : r.close = r := by
  unfold close
  rw [h]

theorem close_of_draft_some {r : Reader} {d : Draft} (h : r.draft = some d) :
    r.close =
      { r with
        draft := none
        counts := r.counts.insert d.sectionName (r.counts.getD d.sectionName 0 + 1)
        blocks := r.blocks.push (d.block (r.counts.getD d.sectionName 0))
        blockCount := r.blockCount + 1 } := by
  unfold close
  rw [h]
  rfl

theorem close_labels (r : Reader) : r.close.labels = r.labels := by
  unfold close
  split <;> rfl

theorem close_close (r : Reader) : r.close.close = r.close :=
  close_of_draft_none (close_draft r)

/-- In a code section every line that is no marker is a line of it. -/
theorem step_of_current_some {r : Reader} {name : String} {l : Line} (h : r.current = some name)
    (hl : ∀ code, l ≠ .marker code) : r.step l = r.addCodeLine name l := by
  unfold step
  split
  · exact absurd rfl (hl _)
  · simp_all
  · simp_all

theorem step_label {r : Reader} {name : String} (h : r.current = some name) (l : String) :
    r.step (.label l none) = r.addLabel l :=
  step_of_current_some h (by simp)

theorem step_instruction {r : Reader} {name : String} (h : r.current = some name)
    (i : Instruction) :
    r.step (Entry.instruction i).line =
      r.addStatement name ⟨i.address, i.mnemonic, i.operands⟩ :=
  step_of_current_some h (by simp [Entry.line])

/-- Labels are gathered, the latest first. -/
theorem run_labels {r : Reader} {name : String} (hdraft : r.draft = none)
    (hcurrent : r.current = some name) (labels : List String) :
    r.run (labels.map fun l => Line.label l none) =
      { r with labels := labels.reverse ++ r.labels } := by
  induction labels generalizing r with
  | nil => rfl
  | cons l labels ih =>
    have hadd : r.addLabel l = { r with labels := l :: r.labels } := by
      unfold addLabel
      rw [close_of_draft_none hdraft]
    have hrest := ih (r := { r with labels := l :: r.labels }) hdraft hcurrent
    rw [List.map_cons, run_cons, step_label hcurrent, hadd, hrest, List.reverse_cons,
      List.append_assoc]
    rfl

/-- Before the first label the block that was being filled is closed. -/
theorem run_labels_close {r : Reader} {name l : String} (hcurrent : r.current = some name)
    (labels : List String) :
    r.run ((l :: labels).map fun l => Line.label l none) =
      r.close.run ((l :: labels).map fun l => Line.label l none) := by
  have hadd : r.addLabel l = r.close.addLabel l := by
    unfold addLabel
    rw [close_close]
  rw [List.map_cons, run_cons, run_cons, step_label hcurrent, hadd,
    step_label (by rw [close_current, hcurrent])]

/-- The reader before the first instruction of a block. -/
def ready (r : Reader) (b : Block) : Reader :=
  { r.close with current := some b.sectionName, labels := b.labels.reverse }

/-- What stands before the instructions of a block makes the reader ready for it. -/
theorem run_heading {r : Reader} {b : Block} (hlabels : r.labels = []) :
    r.run (((if r.current != some b.sectionName || b.label.isNone then
        [Entry.start b.sectionName] else []) ++ b.labels.map Entry.label).map Entry.line) =
      r.ready b := by
  have hlines : Entry.line ∘ Entry.label = fun l => Line.label l none := rfl
  rw [List.map_append, List.map_map, run_append, hlines]
  split
  · have henter : r.run ([Entry.start b.sectionName].map Entry.line) =
        r.enter (some b.sectionName) := rfl
    have hdraft : (r.enter (some b.sectionName)).draft = none := close_draft r
    rw [henter, run_labels hdraft rfl]
    simp [enter, ready]
  · rename_i hsame
    simp only [Bool.or_eq_true, bne_iff_ne, ne_eq, not_or, Decidable.not_not] at hsame
    obtain ⟨hcurrent, hlabel⟩ := hsame
    obtain ⟨first, rest, hcons⟩ : ∃ first rest, b.labels = first :: rest := by
      apply List.exists_cons_of_ne_nil
      intro hnil
      simp only [Block.labels, List.append_eq_nil_iff, Option.toList_eq_nil_iff] at hnil
      simp [hnil.2] at hlabel
    have hclosed : r.close.labels = [] := (close_labels r).trans hlabels
    rw [List.map_nil, run_nil, hcons, run_labels_close hcurrent,
      run_labels (close_draft r) (by rw [close_current, hcurrent]), hclosed, ← hcons]
    simp only [ready, List.append_nil, ← hcurrent, close_current]

/-- A block that is being filled. -/
def draftOf (b : Block) (instructions : Array Instruction) : Draft :=
  ⟨b.sectionName, b.label, b.aliases, instructions⟩

/-- The block that takes the next instruction of a reader that is ready for it. -/
theorem nextDraft_ready (r : Reader) {b : Block} (haliases : b.label = none → b.aliases = []) :
    (r.ready b).nextDraft b.sectionName = draftOf b #[] := by
  have hdraft : (r.ready b).draft = none := close_draft r
  unfold nextDraft
  rw [hdraft]
  cases hlabel : b.label with
  | none => simp [ready, draftOf, Block.labels, hlabel, haliases hlabel]
  | some l => simp [ready, draftOf, Block.labels, hlabel]

/-- The reader after an instruction. -/
theorem step_instruction_eq {r : Reader} {name : String} {d : Draft}
    (hcurrent : r.current = some name) (hdraft : r.nextDraft name = d) {i : Instruction}
    (hposition : i.position = d.instructions.size) :
    r.step (Entry.instruction i).line =
      { r with
        labels := []
        draft := some { d with instructions := d.instructions.push i }
        instructionCount := r.instructionCount + 1 } := by
  have hplace : (⟨i.mnemonic, i.operands, d.instructions.size, i.address⟩ : Instruction) = i := by
    rw [← hposition]
  rw [step_instruction hcurrent]
  unfold addStatement
  simp only [hdraft, hplace]

/-- Instructions are appended to the block that takes them, if they are counted on from it. -/
theorem run_instructions {r : Reader} {name : String} {d : Draft} (hcurrent : r.current = some name)
    (hdraft : r.nextDraft name = d) (i : Instruction) (is : List Instruction)
    (hposition : ∀ (k : Nat) (j : Instruction), (i :: is)[k]? = some j →
      j.position = d.instructions.size + k) :
    r.run (((i :: is).map Entry.instruction).map Entry.line) =
      { r with
        labels := []
        draft := some { d with instructions := d.instructions ++ (i :: is).toArray }
        instructionCount := r.instructionCount + (is.length + 1) } := by
  induction is generalizing r d i with
  | nil =>
    rw [List.map_singleton, List.map_singleton, run_cons, run_nil,
      step_instruction_eq hcurrent hdraft (hposition 0 i rfl)]
    simp
  | cons j js ih =>
    have hrest := ih (r := r.step (Entry.instruction i).line)
      (d := { d with instructions := d.instructions.push i })
      (by rw [step_instruction_eq hcurrent hdraft (hposition 0 i rfl)]; exact hcurrent)
      (by rw [step_instruction_eq hcurrent hdraft (hposition 0 i rfl)]; rfl) j
      (by
        intro k m hm
        have := hposition (k + 1) m hm
        rw [Array.size_push]
        omega)
    rw [List.map_cons, List.map_cons, run_cons, hrest,
      step_instruction_eq hcurrent hdraft (hposition 0 i rfl)]
    simp [Nat.add_assoc, Nat.add_comm 1]

/-! ## Whole blocks -/

/-- A reader that holds these blocks once the one that is being filled is closed. -/
structure Holds (r : Reader) (bs : List Block) : Prop where
  labels : r.labels = []
  blocks : r.close.blocks.toList = bs
  counts : ∀ name, r.close.counts.getD name 0 = blocksOf bs name
  blockCount : r.close.blockCount = bs.length
  instructionCount : r.instructionCount = instructionsOf bs
  skippedCount : r.skippedCount = 0

theorem holds_start : start.Holds [] where
  labels := rfl
  blocks := rfl
  counts := by simp [start, close, blocksOf]
  blockCount := rfl
  instructionCount := rfl
  skippedCount := rfl

/-- The reader after the lines of a block. -/
theorem run_entries {r : Reader} {b : Block} {sections : List String} (hlabels : r.labels = [])
    (hsound : b.Sound sections) {i : Instruction} {is : List Instruction}
    (his : b.instructions = i :: is) :
    r.run ((b.entries (r.current != some b.sectionName || b.label.isNone)).map Entry.line) =
      { r.ready b with
        labels := []
        draft := some (draftOf b b.instructions.toArray)
        instructionCount := r.instructionCount + b.instructions.length } := by
  have hinstructions := run_instructions (r := r.ready b) rfl
    (nextDraft_ready r hsound.aliases) i is (by
      intro k j hj
      rw [← his] at hj
      rw [hsound.position k j hj]
      exact (Nat.zero_add k).symm)
  unfold Block.entries
  rw [← List.append_assoc, List.map_append, run_append, run_heading hlabels, his, hinstructions]
  simp [ready, draftOf]

/-- The lines of a block add this block. -/
theorem holds_run_entries {r : Reader} {bs : List Block} {b : Block} {sections : List String}
    (h : r.Holds bs) (hsound : b.Sound sections) (hne : b.instructions ≠ [])
    (hindex : b.index = blocksOf bs b.sectionName) :
    (r.run ((b.entries (r.current != some b.sectionName || b.label.isNone)).map
      Entry.line)).Holds (bs ++ [b]) := by
  obtain ⟨i, is, his⟩ := List.exists_cons_of_ne_nil hne
  rw [run_entries h.labels hsound his]
  have hblock : (draftOf b b.instructions.toArray).block
      (r.close.counts.getD b.sectionName 0) = b := by
    rw [h.counts, ← hindex]
    rfl
  refine ⟨rfl, ?_, ?_, ?_, ?_, ?_⟩
  · rw [close_of_draft_some rfl]
    show (r.close.blocks.push _).toList = bs ++ [b]
    rw [Array.toList_push, h.blocks]
    exact congrArg (fun c => bs ++ [c]) hblock
  · intro name
    rw [close_of_draft_some rfl]
    show (r.close.counts.insert b.sectionName (r.close.counts.getD b.sectionName 0 + 1)).getD
      name 0 = _
    rw [ExtTreeMap.getD_insert, h.counts, h.counts]
    simp only [LawfulEqCmp.compare_eq_iff_eq, blocksOf, List.countP_append, List.countP_singleton,
      beq_iff_eq]
    split
    · rename_i heq
      rw [heq]
    · rfl
  · rw [close_of_draft_some rfl]
    show r.close.blockCount + 1 = _
    rw [h.blockCount, List.length_append, List.length_singleton]
  · show r.instructionCount + b.instructions.length = _
    rw [h.instructionCount]
    simp [instructionsOf, total_append]
  · show r.close.skippedCount = 0
    rw [close_skippedCount, h.skippedCount]

/-- The lines of blocks add these blocks, if they are numbered on from those that are there. -/
theorem holds_run_entriesFrom {r : Reader} {bs cs : List Block} {sections : List String}
    (h : r.Holds bs) (hcs : ∀ b ∈ cs, b.Sound sections ∧ b.instructions ≠ [])
    (hindexed : Indexed (bs ++ cs)) :
    (r.run ((entriesFrom r.current cs).map Entry.line)).Holds (bs ++ cs) := by
  induction cs generalizing r bs with
  | nil => simpa [entriesFrom] using h
  | cons b cs ih =>
    obtain ⟨hsound, hne⟩ := hcs b List.mem_cons_self
    have hindex : b.index = blocksOf bs b.sectionName := by
      have hb := hindexed bs.length b (by simp)
      rwa [List.take_left] at hb
    obtain ⟨i, is, his⟩ := List.exists_cons_of_ne_nil hne
    have hblock := holds_run_entries h hsound hne hindex
    have hcurrent : (r.run ((b.entries (r.current != some b.sectionName || b.label.isNone)).map
        Entry.line)).current = some b.sectionName := by
      rw [run_entries h.labels hsound his]
      rfl
    have hrest := ih hblock (fun c hc => hcs c (List.mem_cons_of_mem b hc))
      (by rwa [List.append_assoc])
    rw [hcurrent, List.append_assoc] at hrest
    rw [entriesFrom, List.map_append, run_append]
    exact hrest

end Reader

/-! ## Texts -/

/-- Idle lines change nothing, and the others are what they are written for. -/
theorem Laid.run_eq {Writes : Entry → List Char → Prop} {sections : List String}
    {es : List Entry} {raws : List (List Char)} (h : Laid Writes es raws)
    (hread : ∀ e ∈ es, ∀ raw, Writes e raw → Line.read sections raw = e.line) (r : Reader) :
    r.run (raws.map (Line.read sections)) = r.run (es.map Entry.line) := by
  induction h generalizing r with
  | nil => rfl
  | idle hraw h ih =>
    rw [List.map_cons, Reader.run_cons, Line.read_of_bare_nil (Line.bare_of_idle hraw),
      Reader.step_blank]
    exact ih hread r
  | @entry e raw es raws hraw h ih =>
    rw [List.map_cons, List.map_cons, Reader.run_cons, Reader.run_cons,
      hread e List.mem_cons_self raw hraw]
    exact ih (fun f hf => hread f (List.mem_cons_of_mem e hf)) _

/-- The lines of a text are what stands between its line feeds: carriage returns before them do not
    matter, and behind the last one an empty line says nothing. -/
theorem run_ofText_fields (sections : List String) (text : String) (r : Reader) :
    r.run (Line.ofText sections text) =
      r.run ((fields (· == '\n') text.toList).map (Line.read sections)) := by
  unfold Line.ofText lines
  dsimp only
  rw [List.map_append, List.map_map]
  have hreturns : Line.read sections ∘ dropReturn = Line.read sections :=
    funext fun raw => Line.read_congr (Line.bare_dropReturn raw)
  rw [hreturns]
  rcases List.eq_nil_or_concat' (fields (· == '\n') text.toList) with hnil | ⟨init, last, hfields⟩
  · exact absurd hnil (fields_ne_nil _ _)
  · rw [hfields, List.dropLast_concat, List.getLast?_concat, List.map_append]
    cases last with
    | nil =>
      rw [Reader.run_append, Reader.run_append]
      exact (Reader.step_blank _).symm
    | cons c cs => rfl

/-- The lines of a text are the lines it was joined from. -/
theorem run_ofText {sections : List String} {text : String} {raws : List (List Char)}
    (hraws : ∀ raw ∈ raws, '\n' ∉ raw) (htext : text.toList = ['\n'].intercalate raws)
    (r : Reader) :
    r.run (Line.ofText sections text) = r.run (raws.map (Line.read sections)) := by
  rw [run_ofText_fields, htext]
  cases raws with
  | nil => exact Reader.step_blank r
  | cons raw rest =>
    rw [fields_intercalate rfl (List.cons_ne_nil raw rest)]
    exact fun piece hpiece => beq_eq_false_of_not_mem (hraws piece hpiece)

/-- A text that lays out blocks: lines for their entries, with idle lines between them. -/
def IsLaidOut (Writes : Entry → List Char → Prop) (blocks : List Block) (text : String) : Prop :=
  ∃ raws, Laid Writes (entriesFrom none blocks) raws ∧ (∀ raw ∈ raws, '\n' ∉ raw) ∧
    text.toList = ['\n'].intercalate raws

/-- The only block of a listing is the first one of its section. -/
theorem indexed_singleton {b : Block} (h : b.index = 0) : Indexed [b] := by
  intro k c hc
  cases k with
  | zero => cases hc; exact h
  | succ k => simp at hc

/-- A text whose lines are read as the entries of blocks is read back as these blocks. -/
theorem parse_of_isLaidOut {Writes : Entry → List Char → Prop} {sections : List String}
    {blocks : List Block} {text : String}
    (hblocks : ∀ b ∈ blocks, b.Sound sections ∧ b.instructions ≠ []) (hindexed : Indexed blocks)
    (hread : ∀ e ∈ entriesFrom none blocks, ∀ raw, Writes e raw →
      Line.read sections raw = e.line)
    (htext : IsLaidOut Writes blocks text) :
    Listing.parse sections text =
      ⟨blocks, blocks.length, (lines text.toList).length, instructionsOf blocks, 0⟩ := by
  obtain ⟨raws, hlaid, hraws, hjoin⟩ := htext
  have hholds := Reader.holds_run_entriesFrom Reader.holds_start hblocks hindexed
  have hrun : Reader.start.run (Line.ofText sections text) =
      Reader.start.run ((entriesFrom Reader.start.current blocks).map Entry.line) := by
    rw [run_ofText hraws hjoin]
    exact hlaid.run_eq hread Reader.start
  rw [List.nil_append, ← hrun] at hholds
  have hparse : Listing.parse sections text =
      ⟨(Reader.start.run (Line.ofText sections text)).close.blocks.toList,
        (Reader.start.run (Line.ofText sections text)).close.blockCount,
        (Line.ofText sections text).length,
        (Reader.start.run (Line.ofText sections text)).close.instructionCount,
        (Reader.start.run (Line.ofText sections text)).close.skippedCount⟩ := rfl
  rw [hparse, hholds.blocks, hholds.blockCount, Reader.close_instructionCount,
    hholds.instructionCount, Reader.close_skippedCount, hholds.skippedCount, Line.ofText,
    List.length_map]

end FirmwareMatch
