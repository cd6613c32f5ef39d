import FirmwareMatch.Feature.Extraction
import FirmwareMatch.Proofs.Listing.Reading
import Mathlib.Data.List.Induction

/-
  The instructions of a listing where they stand, and the places that extraction gives them.

  Blocks are placed in one pass that keeps a running total for each section. Here the code of a
  section is the list of its instructions in the order of the text, and the running totals are
  related to it: the linear positions of that list are 0, 1, 2 and so on.

  Proved:
  * `placeBlocks_eq`: the base of a block is the number of earlier instructions of its section.
  * `extractFeatures_eq`: the features are those of the occurrences, in order.
  * `map_linear_sectionCode`: linear positions count the code of a section from zero.
  * `getElem?_sectionCode_iff`: the instruction at an index of the code of a section is the one
    with that linear position.
-/

namespace FirmwareMatch

open Std

/-! ## Occurrences -/

/-- An instruction where it stands: its block, and the number of the block in the listing. -/
structure Occurrence where
  block : Block
  number : Nat
  instruction : Instruction

/-- All instructions in the order of the text. -/
def occurrences (blocks : List Block) : List Occurrence :=
  blocks.zipIdx.flatMap fun (b, k) => b.instructions.map fun i => ⟨b, k, i⟩

/-- The instructions of a section in the order of the text. -/
def sectionCode (blocks : List Block) (name : String) : List Occurrence :=
  (occurrences blocks).filter fun o => o.block.sectionName == name

/-- How many instructions of a section the blocks hold. -/
def sectionLength (blocks : List Block) (name : String) : Nat :=
  instructionsOf (blocks.filter fun b => b.sectionName == name)

theorem occurrences_concat (bs : List Block) (b : Block) :
    occurrences (bs ++ [b]) =
      occurrences bs ++ b.instructions.map fun i => ⟨b, bs.length, i⟩ := by
  simp [occurrences, List.zipIdx_append]

theorem mem_occurrences {blocks : List Block} {o : Occurrence} :
    o ∈ occurrences blocks ↔
      blocks[o.number]? = some o.block ∧ o.instruction ∈ o.block.instructions := by
  simp only [occurrences, List.mem_flatMap, List.mem_map, Prod.exists,
    List.mem_zipIdx_iff_getElem?]
  constructor
  · rintro ⟨b, k, hk, i, hi, rfl⟩
    exact ⟨hk, hi⟩
  · rintro ⟨hk, hi⟩
    exact ⟨o.block, o.number, hk, o.instruction, hi, rfl⟩

theorem number_lt_of_mem_occurrences {blocks : List Block} {o : Occurrence}
    (h : o ∈ occurrences blocks) : o.number < blocks.length :=
  (List.getElem?_eq_some_iff.mp (mem_occurrences.mp h).1).1

theorem sectionCode_concat (bs : List Block) (b : Block) (name : String) :
    sectionCode (bs ++ [b]) name =
      sectionCode bs name ++
        if b.sectionName == name then b.instructions.map fun i => ⟨b, bs.length, i⟩ else [] := by
  unfold sectionCode
  rw [occurrences_concat, List.filter_append]
  congr 1
  by_cases h : b.sectionName = name
  · rw [if_pos (beq_iff_eq.mpr h)]
    exact List.filter_eq_self.mpr (by simp [h])
  · simp [h]

theorem sectionLength_concat (bs : List Block) (b : Block) (name : String) :
    sectionLength (bs ++ [b]) name =
      sectionLength bs name + if b.sectionName == name then b.instructions.length else 0 := by
  unfold sectionLength instructionsOf
  rw [List.filter_append, total_append]
  cases h : b.sectionName == name <;> simp [h]

/-- The concatenation of the instructions of the blocks of a section. -/
theorem map_instruction_sectionCode (blocks : List Block) (name : String) :
    (sectionCode blocks name).map Occurrence.instruction =
      (blocks.filter fun b => b.sectionName == name).flatMap Block.instructions := by
  induction blocks using List.reverseRecOn with
  | nil => rfl
  | append_singleton bs b ih =>
    rw [sectionCode_concat, List.map_append, ih, List.filter_append, List.flatMap_append]
    congr 1
    cases h : b.sectionName == name <;> simp [h, Function.comp_def]

theorem length_sectionCode (blocks : List Block) (name : String) :
    (sectionCode blocks name).length = sectionLength blocks name := by
  induction blocks using List.reverseRecOn with
  | nil => rfl
  | append_singleton bs b ih =>
    rw [sectionCode_concat, sectionLength_concat, List.length_append, ih]
    cases h : b.sectionName == name <;> simp

/-! ## Placed blocks -/

/-- Placing blocks keeps the number of instructions of every section. -/
theorem foldl_placement (bs : List Block) :
    let p := bs.foldl Placement.add ⟨#[], ∅⟩
    p.placed.size = bs.length ∧ ∀ name, p.totals.getD name 0 = sectionLength bs name := by
  induction bs using List.reverseRecOn with
  | nil => exact ⟨rfl, fun name => by simp [sectionLength, instructionsOf]⟩
  | append_singleton bs b ih =>
    obtain ⟨hsize, htotals⟩ := ih
    rw [List.foldl_append, List.foldl_cons, List.foldl_nil]
    refine ⟨by simp [Placement.add, hsize], fun name => ?_⟩
    simp only [Placement.add, ExtTreeMap.getD_insert, LawfulEqCmp.compare_eq_iff_eq, htotals,
      sectionLength_concat, beq_iff_eq]
    by_cases h : b.sectionName = name
    · rw [if_pos h, if_pos h, h]
    · rw [if_neg h, if_neg h, Nat.add_zero]

theorem placeBlocks_concat (bs : List Block) (b : Block) :
    placeBlocks (bs ++ [b]) =
      placeBlocks bs ++ [⟨b, bs.length, sectionLength bs b.sectionName⟩] := by
  obtain ⟨hsize, htotals⟩ := foldl_placement bs
  unfold placeBlocks
  rw [List.foldl_append, List.foldl_cons, List.foldl_nil]
  simp only [Placement.add, Array.toList_push, hsize, htotals]

/-- The base of a block is the number of earlier instructions of its section. -/
theorem placeBlocks_eq (blocks : List Block) :
    placeBlocks blocks = blocks.zipIdx.map fun (b, k) =>
      ⟨b, k, sectionLength (blocks.take k) b.sectionName⟩ := by
  induction blocks using List.reverseRecOn with
  | nil => rfl
  | append_singleton bs b ih =>
    rw [placeBlocks_concat, ih, List.zipIdx_append, List.map_append]
    congr 1
    · apply List.map_congr_left
      rintro ⟨c, k⟩ hc
      have hk : k < bs.length :=
        (List.getElem?_eq_some_iff.mp (List.mem_zipIdx_iff_getElem?.mp hc)).1
      dsimp only
      rw [List.take_append_of_le_length (Nat.le_of_lt hk)]
    · simp

/-- The places of the blocks of a listing hold these blocks. -/
theorem block_mem_of_mem_placeBlocks {blocks : List Block} {p : PlacedBlock}
    (hp : p ∈ placeBlocks blocks) : p.block ∈ blocks := by
  have hmem := List.mem_map_of_mem (f := PlacedBlock.block) hp
  rwa [map_block_placeBlocks] at hmem

namespace Occurrence

/-- The block of an occurrence with its place. -/
def place (blocks : List Block) (o : Occurrence) : PlacedBlock :=
  ⟨o.block, o.number, sectionLength (blocks.take o.number) o.block.sectionName⟩

/-- The place of an occurrence. -/
def site (blocks : List Block) (o : Occurrence) : Site :=
  (o.place blocks).site o.instruction.position

theorem site_concat {bs : List Block} {o : Occurrence} (h : o.number ≤ bs.length) (b : Block) :
    o.site (bs ++ [b]) = o.site bs := by
  unfold site place
  rw [List.take_append_of_le_length h]

end Occurrence

/-- The features of a listing are those of its instructions, in the order of the text. -/
theorem extractFeatures_eq (policy : BranchPolicy) (blocks : List Block) :
    extractFeatures policy blocks = (occurrences blocks).map fun o =>
      featureOf policy (TargetIndex.ofPlaced (placeBlocks blocks)) (o.place blocks)
        o.instruction := by
  unfold extractFeatures occurrences
  simp only
  rw [List.map_flatMap]
  conv => lhs; arg 2; rw [placeBlocks_eq]
  rw [List.flatMap_map]
  simp [Occurrence.place, Function.comp_def]

/-! ## Linear positions -/

/-- Positions count from zero. -/
def Block.Numbered (b : Block) : Prop :=
  ∀ (k : Nat) (i : Instruction), b.instructions[k]? = some i → i.position = k

theorem Block.Numbered.map_position {b : Block} (h : b.Numbered) :
    b.instructions.map Instruction.position = List.range b.instructions.length := by
  apply List.ext_getElem
  · simp
  · intro k hk _
    rw [List.length_map] at hk
    rw [List.getElem_map, List.getElem_range]
    exact h k _ (List.getElem?_eq_getElem hk)

/-- Linear positions count the code of a section from zero. -/
theorem map_linear_sectionCode {blocks : List Block} (h : ∀ b ∈ blocks, b.Numbered)
    (name : String) :
    (sectionCode blocks name).map (fun o => (o.site blocks).linear) =
      List.range (sectionLength blocks name) := by
  induction blocks using List.reverseRecOn with
  | nil => rfl
  | append_singleton bs b ih =>
    have hbs := ih fun c hc => h c (List.mem_append_left [b] hc)
    have hb := h b (List.mem_append_right bs List.mem_cons_self)
    have hold : (sectionCode bs name).map (fun o => (o.site (bs ++ [b])).linear) =
        (sectionCode bs name).map fun o => (o.site bs).linear := by
      apply List.map_congr_left
      intro o ho
      have hlt := number_lt_of_mem_occurrences (List.mem_filter.mp ho).1
      rw [Occurrence.site_concat (Nat.le_of_lt hlt)]
    rw [sectionCode_concat, sectionLength_concat, List.map_append, hold, hbs]
    cases hname : b.sectionName == name with
    | false => simp
    | true =>
      have hnew : b.instructions.map (fun i => sectionLength bs name + i.position) =
          (List.range b.instructions.length).map fun k => sectionLength bs name + k := by
        rw [← hb.map_position, List.map_map]
        rfl
      rw [if_pos rfl, if_pos rfl, List.range_add, List.map_map, ← hnew]
      simp [Function.comp_def, Occurrence.site, Occurrence.place, PlacedBlock.site,
        eq_of_beq hname]

/-- The instruction at an index of the code of a section is the one with that linear position. -/
theorem getElem?_sectionCode_iff {blocks : List Block} (h : ∀ b ∈ blocks, b.Numbered)
    {name : String} {o : Occurrence} (m : Nat) :
    (sectionCode blocks name)[m]? = some o ↔
      o ∈ sectionCode blocks name ∧ m = (o.site blocks).linear := by
  have hlinear : ∀ {k : Nat} {e : Occurrence}, (sectionCode blocks name)[k]? = some e →
      k = (e.site blocks).linear := by
    intro k e hk
    have hmap := congrArg (fun xs => xs[k]?) (map_linear_sectionCode h name)
    simp only [List.getElem?_map, hk, Option.map_some] at hmap
    obtain ⟨hlt, heq⟩ := List.getElem?_eq_some_iff.mp hmap.symm
    rw [← heq, List.getElem_range]
  constructor
  · intro hm
    exact ⟨List.mem_of_getElem? hm, hlinear hm⟩
  · rintro ⟨ho, rfl⟩
    obtain ⟨k, hk⟩ := List.getElem?_of_mem ho
    rwa [← hlinear hk]

end FirmwareMatch
