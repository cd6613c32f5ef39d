import FirmwareMatch.Listing.Basic
import FirmwareMatch.Listing.Line
import Std.Data.ExtTreeMap

/-
  Reading a listing: its lines are folded into blocks.

  The reader knows the code section it is in, the labels since the last instruction, the block
  that is being filled and how many blocks each section has. A block exists only from its first
  instruction on, so no block is empty; labels that no instruction follows before the next section
  marker are dropped.

  Main statements: lines outside every code section change nothing, and each line of a code
  section adds at most one instruction or one skipped line.
-/

namespace FirmwareMatch

open Text

/-- A block that is being filled. -/
structure Draft where
  sectionName : String
  label : Option String
  aliases : List String
  instructions : Array Instruction

/-- What has been read so far. -/
structure Reader where
  /-- The code section of the line, if it is in one. -/
  current : Option String
  /-- The labels since the last instruction, the latest first. -/
  labels : List String
  draft : Option Draft
  /-- How many blocks of each section are complete. -/
  counts : Std.ExtTreeMap String Nat
  /-- The complete blocks. -/
  blocks : Array Block
  blockCount : Nat
  instructionCount : Nat
  skippedCount : Nat

namespace Reader

/-- Before the first line. -/
def start : Reader :=
  ⟨none, [], none, ∅, #[], 0, 0, 0⟩

/-- Completes the block that is being filled. -/
def close (r : Reader) : Reader :=
  match r.draft with
  | none => r
  | some d =>
    let index := r.counts.getD d.sectionName 0
    { r with
      draft := none
      counts := r.counts.insert d.sectionName (index + 1)
      blocks := r.blocks.push
        ⟨d.sectionName, index, d.label, d.aliases, d.instructions.toList⟩
      blockCount := r.blockCount + 1 }

/-- Starts a section: a code section or one that is passed over. -/
def enter (r : Reader) (code : Option String) : Reader :=
  { r.close with current := code, labels := [] }

/-- Notes a label; the next instruction starts a block. -/
def addLabel (r : Reader) (name : String) : Reader :=
  let r := r.close
  { r with labels := name :: r.labels }

/-- The block that takes the next instruction: the one being filled, or a new one that takes the
labels. -/
def nextDraft (r : Reader) (sectionName : String) : Draft :=
  r.draft.getD ⟨sectionName, r.labels.head?, r.labels.tail.reverse, #[]⟩

/-- Appends an instruction to the block that takes it. -/
def addStatement (r : Reader) (sectionName : String) (s : Statement) : Reader :=
  let d := r.nextDraft sectionName
  let instruction := ⟨s.mnemonic, s.operands, d.instructions.size, s.address⟩
  { r with
    labels := []
    draft := some { d with instructions := d.instructions.push instruction }
    instructionCount := r.instructionCount + 1 }

/-- Takes what stands where an instruction is expected. -/
def addContent (r : Reader) (sectionName : String) : Content → Reader
  | .instruction s => r.addStatement sectionName s
  | .unknown => { r with skippedCount := r.skippedCount + 1 }

/-- Takes a line of the code section `sectionName`. -/
def addCodeLine (r : Reader) (sectionName : String) : Line → Reader
  | .blank | .marker _ => r
  | .label name none => r.addLabel name
  | .label name (some c) => (r.addLabel name).addContent sectionName c
  | .content c => r.addContent sectionName c

/-- Takes the next line. -/
def step (r : Reader) (line : Line) : Reader :=
  match line, r.current with
  | .marker code, _ => r.enter code
  | _, none => r
  | line, some sectionName => r.addCodeLine sectionName line

/-- Takes lines in their order. -/
def run (r : Reader) (ls : List Line) : Reader :=
  ls.foldl step r

@[simp] theorem run_nil (r : Reader) : r.run [] = r := rfl

@[simp] theorem run_cons (r : Reader) (l : Line) (ls : List Line) :
    r.run (l :: ls) = (r.step l).run ls := rfl

theorem run_append (r : Reader) (ls ms : List Line) : r.run (ls ++ ms) = (r.run ls).run ms := by
  simp [run]

@[simp] theorem step_blank (r : Reader) : r.step .blank = r := by
  unfold step
  split <;> simp_all [addCodeLine]

/-- Outside every code section only a marker matters. -/
theorem step_of_current_none {r : Reader} {l : Line} (h : r.current = none)
    (hl : ∀ code, l ≠ .marker code) : r.step l = r := by
  unfold step
  split
  · exact absurd rfl (hl _)
  · rfl
  · simp_all

@[simp] theorem close_skippedCount (r : Reader) : r.close.skippedCount = r.skippedCount := by
  unfold close; split <;> rfl

@[simp] theorem close_instructionCount (r : Reader) :
    r.close.instructionCount = r.instructionCount := by
  unfold close; split <;> rfl

@[simp] theorem close_current (r : Reader) : r.close.current = r.current := by
  unfold close; split <;> rfl

end Reader

/-- The kinds of the lines of a text. -/
def Line.ofText (sections : List String) (text : String) : List Line :=
  (lines text.toList).map (Line.read sections)

/-- Reads a listing, keeping the code of the sections with the given names. -/
def Listing.parse (sections : List String) (text : String) : Listing :=
  let ls := Line.ofText sections text
  let r := (Reader.start.run ls).close
  ⟨r.blocks.toList, r.blockCount, ls.length, r.instructionCount, r.skippedCount⟩

end FirmwareMatch
