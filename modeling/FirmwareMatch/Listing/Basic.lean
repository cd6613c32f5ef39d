/-
  What a disassembly listing says: instructions, the blocks they stand in, and the listing as a
  list of blocks with counts.

  A block is a run of instructions that starts at a label or at the start of a section. Its index
  counts the blocks of its own section; the position of an instruction counts within its block.
-/

namespace FirmwareMatch

/-- An instruction and its place in its block. -/
structure Instruction where
  /-- The operation in lower case, without width or qualifier (`bl` for `BL.w`). -/
  mnemonic : String
  /-- The operands, cut at the commas outside brackets. -/
  operands : List String
  /-- How many instructions of the block stand before this one. -/
  position : Nat
  /-- The address column, if the listing has one. -/
  address : Option UInt64
deriving DecidableEq, Repr

/-- A run of instructions that a label or a section start opens. -/
structure Block where
  sectionName : String
  /-- How many blocks of the same section stand before this one. -/
  index : Nat
  /-- The label directly before the first instruction. -/
  label : Option String
  /-- Further labels before `label` with no instruction between them. -/
  aliases : List String
  instructions : List Instruction
deriving DecidableEq, Repr

/-- Every name of a block: the aliases, then the label. -/
def Block.labels (b : Block) : List String :=
  b.aliases ++ b.label.toList

/-- A listing that was read: its blocks and what became of its lines. -/
structure Listing where
  blocks : List Block
  /-- The blocks that were completed, none of which is empty. -/
  blockCount : Nat
  /-- All lines of the text. -/
  lineCount : Nat
  /-- The lines that gave an instruction. -/
  instructionCount : Nat
  /-- The lines of code sections that hold neither an instruction, a label nor a marker. -/
  skippedCount : Nat
deriving DecidableEq, Repr

/-- All instructions in the order of the text. -/
def Listing.instructions (l : Listing) : List Instruction :=
  l.blocks.flatMap Block.instructions

end FirmwareMatch
