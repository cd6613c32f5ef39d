import Mathlib
import FirmwareMatch.Proofs.Feature.Placement
import FirmwareMatch.Proofs.Feature.Targets

/-
  Branch offsets of a listing that was read from a text.

  A target that the index names is the place of an instruction of the listing. Counted in the code
  of a section, the offset of a branch leads from the branch to its target.

  Proved:
  * `exists_target`: what a branch names is the place of an instruction.
  * `leads_distance`: the distance of two linear positions leads from one to the other.
  * `branchOffset_leads_to_target`: the offsets of all instructions of a text, under both policies.
-/

namespace FirmwareMatch

open Std

/-! ## Targets are instructions -/

theorem exists_occurrence_of_placed {blocks : List Block} {p : PlacedBlock}
    (hp : p ∈ placeBlocks blocks) {i : Instruction} (hi : i ∈ p.block.instructions) :
    ∃ o ∈ occurrences blocks, o.place blocks = p ∧ o.instruction = i := by
  rw [placeBlocks_eq] at hp
  obtain ⟨⟨b, k⟩, hk, rfl⟩ := List.mem_map.mp hp
  exact ⟨⟨b, k, i⟩, mem_occurrences.mpr ⟨List.mem_zipIdx_iff_getElem?.mp hk, hi⟩, rfl, rfl⟩

/-- What an instruction of a listing names is the place of an instruction of the listing, if no
    block is empty and positions count from zero. -/
theorem exists_target {blocks : List Block}
    (h : ∀ b ∈ blocks, b.Numbered ∧ b.instructions ≠ []) {i : Instruction} {s : Site}
    (hs : (TargetIndex.ofPlaced (placeBlocks blocks)).resolve? i = some s) :
    ∃ target ∈ occurrences blocks, s = target.site blocks := by
  rcases TargetIndex.resolve?_eq_some hs with ⟨a, ha⟩ | ⟨name, hname⟩
  · rw [TargetIndex.getElem?_byAddress_ofPlaced] at ha
    obtain ⟨p, hp, hsite⟩ := List.exists_of_findSome?_eq_some ha
    obtain ⟨j, hj, rfl⟩ := Option.map_eq_some_iff.mp hsite
    obtain ⟨o, ho, rfl, rfl⟩ := exists_occurrence_of_placed hp (List.mem_of_find?_eq_some hj)
    exact ⟨o, ho, rfl⟩
  · rw [TargetIndex.getElem?_byLabel_ofPlaced] at hname
    obtain ⟨p, hp, hsite⟩ := List.exists_of_findSome?_eq_some hname
    unfold PlacedBlock.siteOf? at hsite
    split at hsite
    · simp only [Option.some.injEq] at hsite
      obtain ⟨first, hfirst⟩ : ∃ first, p.block.instructions[0]? = some first := by
        have hmem : p.block ∈ blocks := by
          rw [placeBlocks_eq] at hp
          obtain ⟨⟨b, k⟩, hk, rfl⟩ := List.mem_map.mp hp
          exact List.mem_of_getElem? (List.mem_zipIdx_iff_getElem?.mp hk)
        exact ⟨_, List.getElem?_eq_getElem (List.length_pos_iff.mpr (h _ hmem).2)⟩
      obtain ⟨o, ho, rfl, rfl⟩ :=
        exists_occurrence_of_placed hp (List.mem_of_getElem? hfirst)
      have hblock := (mem_occurrences.mp ho).1
      have hzero := (h _ (List.mem_of_getElem? hblock)).1 0 _ hfirst
      refine ⟨o, ho, ?_⟩
      rw [← hsite, Occurrence.site, hzero]
    · simp at hsite

/-! ## Distances -/

/-- The sum of the index `m` and the offset is the index of `target` in the code. The sum is taken
    in 64 bits, and is that of the integers if the code has fewer than `2 ^ 63` instructions. -/
def Leads (code : List Occurrence) (m : Nat) (offset : Int64) (target : Occurrence) : Prop :=
  ∃ n, code[n]? = some target ∧ Int64.ofNat m + offset = Int64.ofNat n ∧
    (code.length < 2 ^ 63 → (m : Int) + offset.toInt = n)

theorem toInt_distance {m n : Nat} (hm : m < 2 ^ 63) (hn : n < 2 ^ 63) :
    (distance m n).toInt = (n : Int) - m := by
  unfold distance
  rw [Int64.toInt_sub, Int64.toInt_ofNat_of_lt hm, Int64.toInt_ofNat_of_lt hn, Int.bmod_def]
  split <;> omega

theorem distance_add_left (base m n : Nat) : distance (base + m) (base + n) = distance m n := by
  unfold distance
  rw [Int64.ofNat_add, Int64.ofNat_add]
  grind

/-- The distance of two linear positions leads from one to the other. -/
theorem leads_distance {code : List Occurrence} {m n : Nat} {here target : Occurrence}
    (hm : code[m]? = some here) (hn : code[n]? = some target) :
    Leads code m (distance m n) target := by
  refine ⟨n, hn, ?_, ?_⟩
  · unfold distance
    grind
  · intro hlen
    have hm' := (List.getElem?_eq_some_iff.mp hm).1
    have hn' := (List.getElem?_eq_some_iff.mp hn).1
    rw [toInt_distance (by omega) (by omega)]
    omega

/-- Within a block, positions are as far apart as linear positions. -/
theorem distance_position_of_number_eq {blocks : List Block} {here target : Occurrence}
    (hhere : here ∈ occurrences blocks) (htarget : target ∈ occurrences blocks)
    (h : here.number = target.number) :
    distance here.instruction.position target.instruction.position =
      distance (here.site blocks).linear (target.site blocks).linear ∧
    here.block = target.block := by
  have hblock : here.block = target.block := by
    have hb := (mem_occurrences.mp hhere).1
    rw [h, (mem_occurrences.mp htarget).1] at hb
    exact (Option.some.inj hb).symm
  refine ⟨?_, hblock⟩
  simp only [Occurrence.site, Occurrence.place, PlacedBlock.site, h, hblock, distance_add_left]

/-! ## Offsets of a listing -/

theorem branchOffset_of_resolve? {policy : BranchPolicy} {t : TargetIndex} {here s : Site}
    {i : Instruction} (hi : isBranch i.mnemonic) (hs : t.resolve? i = some s) :
    branchOffset policy t here i = policy.offset here s := by
  simp [branchOffset, hi, hs]

theorem branchOffset_eq_zero {policy : BranchPolicy} {t : TargetIndex} {here : Site}
    {i : Instruction} (h : isBranch i.mnemonic = false ∨ t.resolve? i = none) :
    branchOffset policy t here i = 0 := by
  unfold branchOffset
  rcases h with h | h
  · simp [h]
  · simp [h]

theorem length_sectionCode_le (blocks : List Block) (name : String) :
    (sectionCode blocks name).length ≤ instructionsOf blocks := by
  rw [length_sectionCode]
  unfold sectionLength instructionsOf
  induction blocks with
  | nil => exact Nat.le_refl _
  | cons b bs ih =>
    rw [List.filter_cons]
    split
    · exact Nat.add_le_add_left ih _
    · exact Nat.le_trans ih (Nat.le_add_left _ _)

/-- An instruction has one index in the code of its section, its linear position. -/
theorem getElem?_sectionCode_self {blocks : List Block} (h : ∀ b ∈ blocks, b.Numbered)
    {o : Occurrence} (ho : o ∈ occurrences blocks) (k : Nat) :
    (sectionCode blocks o.block.sectionName)[k]? = some o ↔ k = (o.site blocks).linear := by
  have hmem : o ∈ sectionCode blocks o.block.sectionName :=
    List.mem_filter.mpr ⟨ho, beq_self_eq_true _⟩
  rw [getElem?_sectionCode_iff h]
  exact and_iff_right hmem

/-- Between instructions of one section the distance of their places leads from one to the
    other. -/
theorem leads_of_section_eq {blocks : List Block} (h : ∀ b ∈ blocks, b.Numbered)
    {here target : Occurrence} (hhere : here ∈ occurrences blocks)
    (htarget : target ∈ occurrences blocks)
    (hsection : target.block.sectionName = here.block.sectionName) :
    Leads (sectionCode blocks here.block.sectionName) (here.site blocks).linear
      (distance (here.site blocks).linear (target.site blocks).linear) target := by
  have hm := (getElem?_sectionCode_self h hhere _).mpr rfl
  have hn := (getElem?_sectionCode_self h htarget _).mpr rfl
  rw [hsection] at hn
  exact leads_distance hm hn

/-- The offsets of a branch that names the place of `target`. -/
theorem offset_leads {blocks : List Block} (h : ∀ b ∈ blocks, b.Numbered)
    {here target : Occurrence} (hhere : here ∈ occurrences blocks)
    (htarget : target ∈ occurrences blocks) :
    let code := sectionCode blocks here.block.sectionName
    let m := (here.site blocks).linear
    let offset (policy : BranchPolicy) := policy.offset (here.site blocks) (target.site blocks)
    (target.block.sectionName = here.block.sectionName →
      Leads code m (offset .sectionLinear) target) ∧
    (target.block.sectionName ≠ here.block.sectionName → offset .sectionLinear = 0) ∧
    (target.number = here.number → Leads code m (offset .sameBlock) target) ∧
    (target.number ≠ here.number → offset .sameBlock = 0) := by
  intro code m offset
  refine ⟨fun hsection => ?_, fun hsection => if_neg (Ne.symm hsection), fun hnumber => ?_,
    fun hnumber => if_neg (Ne.symm hnumber)⟩
  · have hoffset : offset .sectionLinear = distance m (target.site blocks).linear :=
      if_pos hsection.symm
    rw [hoffset]
    exact leads_of_section_eq h hhere htarget hsection
  · obtain ⟨hdistance, hblock⟩ :=
      distance_position_of_number_eq hhere htarget hnumber.symm
    have hoffset : offset .sameBlock =
        distance here.instruction.position target.instruction.position := if_pos hnumber.symm
    rw [hoffset, hdistance]
    exact leads_of_section_eq h hhere htarget (by rw [hblock])

/-- For every text: what a branch names is an instruction of the listing, and its offset leads
    there. Counted in the section, that is so for targets in the section of the branch, and other
    targets have offset zero; counted in the block, for targets in its block. An instruction that
    is no branch, or names nothing, has offset zero, and the rest of a feature does not depend on
    how offsets are counted. -/
theorem branchOffset_leads_to_target (sections : List String) (text : String) :
    let blocks := (Listing.parse sections text).blocks
    let targets := TargetIndex.ofPlaced (placeBlocks blocks)
    (∀ name, (sectionCode blocks name).map Occurrence.instruction =
        (blocks.filter fun b => b.sectionName == name).flatMap Block.instructions ∧
      (sectionCode blocks name).length ≤ text.length) ∧
    (∀ policy, (extractFeatures policy blocks).length = (occurrences blocks).length) ∧
    ∀ (n : Nat) (here : Occurrence), (occurrences blocks)[n]? = some here →
      ∃ (linear sameBlock : Feature) (m : Nat),
        let code := sectionCode blocks here.block.sectionName
        (extractFeatures .sectionLinear blocks)[n]? = some linear ∧
        (extractFeatures .sameBlock blocks)[n]? = some sameBlock ∧
        linear.mnemonic = sameBlock.mnemonic ∧
        linear.vector.opcode = sameBlock.vector.opcode ∧
        linear.vector.block = sameBlock.vector.block ∧
        (∀ k, code[k]? = some here ↔ k = m) ∧
        (isBranch here.instruction.mnemonic = false ∨ targets.resolve? here.instruction = none →
          linear.vector.branch = 0 ∧ sameBlock.vector.branch = 0) ∧
        ∀ site, isBranch here.instruction.mnemonic →
          targets.resolve? here.instruction = some site →
          ∃ target : Occurrence, target.number = site.block ∧
            blocks[site.block]? = some target.block ∧
            target.block.instructions[site.position]? = some target.instruction ∧
            (target.block.sectionName = here.block.sectionName →
              Leads code m linear.vector.branch target) ∧
            (target.block.sectionName ≠ here.block.sectionName → linear.vector.branch = 0) ∧
            (target.number = here.number → Leads code m sameBlock.vector.branch target) ∧
            (target.number ≠ here.number → sameBlock.vector.branch = 0) := by
  intro blocks targets
  have hwf := Listing.wellFormed_parse sections text
  have hblocks : ∀ b ∈ blocks, b.Numbered ∧ b.instructions ≠ [] := fun b hb =>
    ⟨(hwf.blocks b hb).1.position, (hwf.blocks b hb).2⟩
  have hnumbered : ∀ b ∈ blocks, b.Numbered := fun b hb => (hblocks b hb).1
  refine ⟨fun name => ⟨map_instruction_sectionCode blocks name, ?_⟩, fun policy => ?_, ?_⟩
  · have hlen := length_sectionCode_le blocks name
    have hcount := Listing.instructionCount_parse_le sections text
    rw [hwf.instructionCount] at hcount
    exact Nat.le_trans hlen hcount
  · rw [extractFeatures_eq, List.length_map]
  · intro n here hn
    have hhere := List.mem_of_getElem? hn
    have hfeature : ∀ policy, (extractFeatures policy blocks)[n]? =
        some (featureOf policy targets (here.place blocks) here.instruction) := by
      intro policy
      rw [extractFeatures_eq, List.getElem?_map, hn]
      rfl
    refine ⟨_, _, (here.site blocks).linear, hfeature _, hfeature _, rfl, rfl, rfl,
      getElem?_sectionCode_self hnumbered hhere,
      fun h => ⟨branchOffset_eq_zero h, branchOffset_eq_zero h⟩, ?_⟩
    intro site hbranch hsite
    obtain ⟨target, htarget, rfl⟩ := exists_target hblocks hsite
    obtain ⟨hget, hmem⟩ := mem_occurrences.mp htarget
    obtain ⟨k, hk⟩ := List.getElem?_of_mem hmem
    have hposition := hnumbered _ (List.mem_of_getElem? hget) k _ hk
    refine ⟨target, rfl, hget, by rw [← hposition] at hk; exact hk, ?_⟩
    have hoffset : ∀ policy, (featureOf policy targets (here.place blocks)
        here.instruction).vector.branch =
          policy.offset (here.site blocks) (target.site blocks) :=
      fun policy => branchOffset_of_resolve? hbranch hsite
    rw [hoffset, hoffset]
    exact offset_leads hnumbered hhere htarget

/-- A branch over one instruction. -/
theorem branchOffset_leads_to_target_forward :
    let blocks := (Listing.parse [".text"] ".text\nb end\nnop\nend: nop\n").blocks
    ∃ (linear : Feature) (here target : Occurrence) (m : Nat),
      (extractFeatures .sectionLinear blocks)[0]? = some linear ∧
      (sectionCode blocks ".text")[m]? = some here ∧ isBranch here.instruction.mnemonic ∧
      target.number = 1 ∧ Leads (sectionCode blocks ".text") m linear.vector.branch target := by
  intro blocks
  obtain ⟨_, _, hall⟩ := branchOffset_leads_to_target [".text"] ".text\nb end\nnop\nend: nop\n"
  let targets := TargetIndex.ofPlaced (placeBlocks blocks)
  have hfirst : (occurrences blocks)[0]?.any (fun o => o.block.sectionName == ".text" &&
      isBranch o.instruction.mnemonic && (targets.resolve? o.instruction).any fun site =>
        site.block == 1) := by
    decide +kernel
  obtain ⟨here, hhere, hprops⟩ := (Option.any_eq_true _ _).mp hfirst
  simp only [Bool.and_eq_true, beq_iff_eq] at hprops
  obtain ⟨⟨hsection, hbranch⟩, hsite⟩ := hprops
  obtain ⟨site, hresolve, hblock⟩ := (Option.any_eq_true _ _).mp hsite
  obtain ⟨linear, _, m, hlinear, _, _, _, _, hindex, _, htargets⟩ := hall 0 here hhere
  obtain ⟨target, hnumber, hget, _, hleads, _⟩ := htargets site hbranch hresolve
  have hsections : blocks.map Block.sectionName = [".text", ".text"] := by decide +kernel
  have htarget : target.block.sectionName = ".text" := by
    have hmem : target.block.sectionName ∈ blocks.map Block.sectionName :=
      List.mem_map_of_mem (List.mem_of_getElem? hget)
    rw [hsections] at hmem
    simpa using hmem
  rw [hsection] at hindex hleads
  exact ⟨linear, here, target, m, hlinear, (hindex m).mpr rfl, hbranch,
    hnumber.trans (beq_iff_eq.mp hblock), hleads htarget⟩

end FirmwareMatch
