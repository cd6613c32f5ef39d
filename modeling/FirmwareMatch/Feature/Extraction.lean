import FirmwareMatch.Feature.Basic
import FirmwareMatch.Feature.Target

/-
  The features of a listing, one per instruction in the order of the text.

  Main statement: the features of a list of blocks are those of its instructions, in number and in
  order.
-/

namespace FirmwareMatch

/-- How the distance from a branch to its target is counted. -/
inductive BranchPolicy
  /-- In instructions of the section; zero if the target is in another section. -/
  | sectionLinear
  /-- In instructions of the block; zero if the target is in another block. -/
  | sameBlock
deriving DecidableEq, Repr

/-- The mnemonics that branch. -/
def branchMnemonics : List String :=
  ["b", "bl", "bx", "blx", "bne", "beq", "bcs", "bcc", "bmi", "bpl", "bvs", "bvc", "bhi", "bls",
   "bge", "blt", "bgt", "ble", "bal"]

/-- Whether a mnemonic is a branch. -/
def isBranch (mnemonic : String) : Bool :=
  branchMnemonics.contains mnemonic

/-- The signed distance between two places, which wraps at 64 bits. -/
def distance (here there : Nat) : Int64 :=
  Int64.ofNat there - Int64.ofNat here

/-- The distance from a branch to its target. -/
def BranchPolicy.offset (policy : BranchPolicy) (here target : Site) : Int64 :=
  match policy with
  | .sectionLinear =>
    if here.sectionName = target.sectionName then distance here.linear target.linear else 0
  | .sameBlock =>
    if here.block = target.block then distance here.position target.position else 0

/-- The distance from an instruction to its target; zero if it is no branch or has none. -/
def branchOffset (policy : BranchPolicy) (t : TargetIndex) (here : Site) (i : Instruction) :
    Int64 :=
  if isBranch i.mnemonic then
    match t.resolve? i with
    | some target => policy.offset here target
    | none => 0
  else 0

/-- The feature of an instruction of a block. -/
def featureOf (policy : BranchPolicy) (t : TargetIndex) (p : PlacedBlock) (i : Instruction) :
    Feature :=
  ⟨i.mnemonic,
   ⟨Int64.ofNat i.position, Int64.ofNat p.block.index,
    branchOffset policy t (p.site i.position) i⟩⟩

/-- The features of a list of blocks. -/
def extractFeatures (policy : BranchPolicy) (blocks : List Block) : List Feature :=
  let placed := placeBlocks blocks
  let t := TargetIndex.ofPlaced placed
  placed.flatMap fun p => p.block.instructions.map (featureOf policy t p)

/-! ## One feature per instruction -/

theorem map_block_foldl_add (blocks : List Block) (p : Placement) :
    (blocks.foldl Placement.add p).placed.toList.map PlacedBlock.block =
      p.placed.toList.map PlacedBlock.block ++ blocks := by
  induction blocks generalizing p with
  | nil => simp
  | cons b bs ih => simp [ih, Placement.add]

@[simp] theorem map_block_placeBlocks (blocks : List Block) :
    (placeBlocks blocks).map PlacedBlock.block = blocks := by
  simp [placeBlocks, map_block_foldl_add]

theorem map_mnemonic_extractFeatures (policy : BranchPolicy) (blocks : List Block) :
    (extractFeatures policy blocks).map Feature.mnemonic =
      (blocks.flatMap Block.instructions).map Instruction.mnemonic := by
  have h : blocks.flatMap Block.instructions =
      (placeBlocks blocks).flatMap fun p => p.block.instructions := by
    conv => lhs; rw [← map_block_placeBlocks blocks, List.flatMap_map]
  rw [h]
  simp [extractFeatures, featureOf, List.map_flatMap, Function.comp_def]

end FirmwareMatch
