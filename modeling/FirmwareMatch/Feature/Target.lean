import FirmwareMatch.Listing.Basic
import FirmwareMatch.Text.Fields
import FirmwareMatch.Text.Hex
import Std.Data.ExtTreeMap

/-
  Branch targets: which instruction of a listing the operand of a branch names.

  An operand names a target by a number, by an annotation `<name>` or `<name+offset>`, or by a
  plain label. Of several instructions at one address, and of several blocks under one label, the
  first counts.
-/

namespace FirmwareMatch

open Text

/-! ## Places -/

/-- The place of an instruction in a listing. -/
structure Site where
  /-- The number of the block in the listing. -/
  block : Nat
  sectionName : String
  /-- The position in the block. -/
  position : Nat
  /-- The position in the section: the instructions of its earlier blocks count in. -/
  linear : Nat
deriving DecidableEq, Repr

/-- A block with its place in the listing. -/
structure PlacedBlock where
  block : Block
  number : Nat
  /-- How many instructions of the same section stand before the block. -/
  base : Nat

/-- The place at a position of a block. -/
def PlacedBlock.site (p : PlacedBlock) (position : Nat) : Site :=
  ⟨p.number, p.block.sectionName, position, p.base + position⟩

/-- Blocks that have been placed, and how many instructions each section has so far. -/
structure Placement where
  placed : Array PlacedBlock
  totals : Std.ExtTreeMap String Nat

/-- Places the next block. -/
def Placement.add (p : Placement) (b : Block) : Placement :=
  let base := p.totals.getD b.sectionName 0
  ⟨p.placed.push ⟨b, p.placed.size, base⟩,
   p.totals.insert b.sectionName (base + b.instructions.length)⟩

/-- The blocks of a listing with their places. -/
def placeBlocks (blocks : List Block) : List PlacedBlock :=
  (blocks.foldl Placement.add ⟨#[], ∅⟩).placed.toList

/-! ## The index -/

/-- What the operands of a listing can name. -/
structure TargetIndex where
  byAddress : Std.ExtTreeMap UInt64 Site
  byLabel : Std.ExtTreeMap String Site
  /-- The address of the first instruction behind a label. -/
  labelAddress : Std.ExtTreeMap String UInt64

namespace TargetIndex

/-- Nothing can be named. -/
def empty : TargetIndex :=
  ⟨∅, ∅, ∅⟩

/-- Notes a label of a block. -/
def addLabel (p : PlacedBlock) (t : TargetIndex) (name : String) : TargetIndex :=
  { t with
    byLabel := t.byLabel.insertIfNew name (p.site 0)
    labelAddress :=
      match p.block.instructions.head?.bind Instruction.address with
      | some a => t.labelAddress.insertIfNew name a
      | none => t.labelAddress }

/-- Notes the address of an instruction of a block. -/
def addInstruction (p : PlacedBlock) (t : TargetIndex) (i : Instruction) : TargetIndex :=
  match i.address with
  | some a => { t with byAddress := t.byAddress.insertIfNew a (p.site i.position) }
  | none => t

/-- Notes all that a block can be named by. -/
def addBlock (t : TargetIndex) (p : PlacedBlock) : TargetIndex :=
  p.block.instructions.foldl (addInstruction p) (p.block.labels.foldl (addLabel p) t)

/-- The index of a listing. -/
def ofPlaced (placed : List PlacedBlock) : TargetIndex :=
  placed.foldl addBlock empty

end TargetIndex

/-! ## Operands -/

/-- The address that a word is: hexadecimal digits, perhaps behind `0x` and number signs. -/
def readAddress? (word : List Char) : Option UInt64 :=
  match word.dropWhile (· == '#') with
  | '0' :: 'x' :: digits => readHex64? digits
  | '0' :: 'X' :: digits => readHex64? digits
  | digits => readHex64? digits

/-- The symbol of an annotation: what stands between the first `<` and the last `>`. -/
def annotation? (operand : List Char) : Option (List Char) :=
  match cut? (· == '<') operand with
  | none => none
  | some (_, rest) =>
    if rest.contains '>' then some ((rest.reverse.dropWhile (· != '>')).drop 1).reverse else none

/-- The sum of two addresses, if 64 bits can hold it. -/
def addAddress? (a b : UInt64) : Option UInt64 :=
  if a.toNat + b.toNat < UInt64.size then some (a + b) else none

namespace TargetIndex

/-- What a label names. -/
def ofLabel? (t : TargetIndex) (name : List Char) : Option Site :=
  t.byLabel[String.ofList name]?

/-- What a symbol names: `name`, or `name+offset`, which is the instruction that many bytes behind
the address of the label. -/
def ofSymbol? (t : TargetIndex) (symbol : List Char) : Option Site :=
  match cut? (· == '+') symbol with
  | none => t.ofLabel? symbol
  | some (name, offset) =>
    (readAddress? (trim offset)).bind fun offset =>
      if offset == 0 then t.ofLabel? name
      else
        t.labelAddress[String.ofList name]?.bind fun base =>
          (addAddress? base offset).bind fun a => t.byAddress[a]?

/-- What the operand of a branch names. A number that is the address of an instruction comes
first, then an annotation, then a plain label. -/
def ofOperand? (t : TargetIndex) (operand : List Char) : Option Site :=
  let operand := trim operand
  let head := (words operand).head?.getD operand
  match (readAddress? head).bind fun a => t.byAddress[a]? with
  | some site => some site
  | none =>
    match annotation? operand with
    | some symbol => t.ofSymbol? symbol
    | none => t.ofLabel? head

/-- The target of an instruction: what its first operand names. -/
def resolve? (t : TargetIndex) (i : Instruction) : Option Site :=
  i.operands.head?.bind fun operand => t.ofOperand? operand.toList

end TargetIndex

end FirmwareMatch
