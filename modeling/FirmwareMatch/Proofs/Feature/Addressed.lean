import FirmwareMatch.Proofs.Feature.Displacement
import FirmwareMatch.Proofs.Feature.Relocation

/-
  Branches to addresses.

  An operand that starts with a number names the first instruction of the listing at this address,
  in whichever section it stands. Sections that are loaded apart may use the same addresses, as in
  object files where each section starts at zero. Then the instruction that is named need not be the
  one of the branch's own section: an earlier section hides it, and the offset is zero.

  Proved:
  * `getElem?_byAddress_placeBlocks`: an address names the first occurrence that has it.
  * `resolve?_of_address`: what an operand names that starts with the address of an instruction.
  * `branchOffset_to_address`: the offset of a branch to an address of its section, for every text
    in which the addresses of each section are distinct.
  * `branchOffset_to_hidden_address`: the addresses of two sections that start at zero.
-/

namespace FirmwareMatch

open Std Text

/-! ## Addresses of a listing -/

/-- No two instructions of one section have the same address. -/
def DistinctAddresses (blocks : List Block) : Prop :=
  (occurrences blocks).Pairwise fun x y => x.block.sectionName = y.block.sectionName →
    x.instruction.address.isSome → x.instruction.address ≠ y.instruction.address

/-- The address with which the first operand of an instruction starts. -/
def Instruction.numericTarget? (i : Instruction) : Option UInt64 :=
  i.operands.head?.bind fun operand => readAddress? (headWord operand.toList)

/-- The first of the occurrences that have an address. -/
def firstAt? (blocks : List Block) (a : UInt64) : Option Occurrence :=
  (occurrences blocks).find? fun o => o.instruction.address == some a

/-- An address names the first occurrence that has it. -/
theorem getElem?_byAddress_placeBlocks (blocks : List Block) (a : UInt64) :
    (TargetIndex.ofPlaced (placeBlocks blocks)).byAddress[a]? =
      (firstAt? blocks a).map (Occurrence.site blocks) := by
  rw [TargetIndex.getElem?_byAddress_ofPlaced, placeBlocks_eq, List.findSome?_map, firstAt?,
    occurrences, List.find?_flatMap, List.map_findSome?]
  congr 1
  funext x
  simp [PlacedBlock.siteAt?, List.find?_map, Function.comp_def, Occurrence.site, Occurrence.place]

/-- An operand that starts with the address of an instruction names the first one that has it. -/
theorem resolve?_of_address {blocks : List Block} {i : Instruction} {a : UInt64} {o : Occurrence}
    (hi : i.numericTarget? = some a) (ho : firstAt? blocks a = some o) :
    (TargetIndex.ofPlaced (placeBlocks blocks)).resolve? i = some (o.site blocks) := by
  obtain ⟨operand, hoperand, hread⟩ := Option.bind_eq_some_iff.mp hi
  rw [TargetIndex.resolve?, hoperand, Option.bind_some, TargetIndex.ofOperand?_eq, hread,
    Option.bind_some, getElem?_byAddress_placeBlocks, ho]
  rfl

/-- What stands at an index is between what is before it and what is after it. -/
theorem take_append_cons_drop {α : Type} {xs : List α} {k : Nat} {x : α} (h : xs[k]? = some x) :
    xs.take k ++ x :: xs.drop (k + 1) = xs := by
  obtain ⟨hk, rfl⟩ := List.getElem?_eq_some_iff.mp h
  rw [← List.drop_eq_getElem_cons hk, List.take_append_drop]

/-- The instruction that an address names is the one at hand, if none stands before it. -/
theorem firstAt?_of_first {blocks : List Block} {a : UInt64} {k : Nat} {target : Occurrence}
    (htarget : (occurrences blocks)[k]? = some target)
    (haddress : target.instruction.address = some a)
    (hfirst : ∀ o ∈ (occurrences blocks).take k, o.instruction.address ≠ some a) :
    firstAt? blocks a = some target := by
  have hnone : ((occurrences blocks).take k).find? (fun o => o.instruction.address == some a) =
      none := by
    rw [List.find?_eq_none]
    intro o ho
    simpa using hfirst o ho
  rw [firstAt?, ← take_append_cons_drop htarget, List.find?_append, hnone, Option.none_or,
    List.find?_cons_of_pos (by simpa using haddress)]

/-- An instruction that hides another one of its address stands in another section. -/
theorem exists_firstAt?_of_hidden {blocks : List Block} (hdistinct : DistinctAddresses blocks)
    {a : UInt64} {k : Nat} {target : Occurrence} (htarget : (occurrences blocks)[k]? = some target)
    (haddress : target.instruction.address = some a)
    (hhidden : ∃ o ∈ (occurrences blocks).take k, o.instruction.address = some a) :
    ∃ o, firstAt? blocks a = some o ∧ o.block.sectionName ≠ target.block.sectionName := by
  have hsplit := take_append_cons_drop htarget
  obtain ⟨o, ho⟩ : ∃ o, ((occurrences blocks).take k).find?
      (fun o => o.instruction.address == some a) = some o := by
    obtain ⟨e, he, heq⟩ := hhidden
    exact Option.isSome_iff_exists.mp (List.find?_isSome.mpr ⟨e, he, by simpa using heq⟩)
  have hfirst : firstAt? blocks a = some o := by
    rw [firstAt?, ← hsplit, List.find?_append, ho, Option.some_or]
  refine ⟨o, hfirst, fun hsection => ?_⟩
  have hsome : o.instruction.address = some a := by simpa using List.find?_some ho
  rw [DistinctAddresses, ← hsplit] at hdistinct
  have hne := (List.pairwise_append.mp hdistinct).2.2 o (List.mem_of_find?_eq_some ho) target
    List.mem_cons_self hsection (by rw [hsome]; rfl)
  exact hne (hsome.trans haddress.symm)

/-! ## Offsets -/

/-- For every text in which the addresses of each section are distinct: the offset of a branch whose
    first operand starts with the address of an instruction of its section. If no earlier
    instruction of the listing has this address, the offset is the distance of the two among the
    instructions of the section. Otherwise an instruction of another section hides the one that is
    meant, and the offset is zero. -/
theorem branchOffset_to_address {sections : List String} {text : String}
    (hdistinct : DistinctAddresses (Listing.parse sections text).blocks) {n k : Nat}
    {here target : Occurrence} {a : UInt64}
    (hhere : (occurrences (Listing.parse sections text).blocks)[n]? = some here)
    (hbranch : isBranch here.instruction.mnemonic)
    (hnumber : here.instruction.numericTarget? = some a)
    (htarget : (occurrences (Listing.parse sections text).blocks)[k]? = some target)
    (haddress : target.instruction.address = some a)
    (hsection : target.block.sectionName = here.block.sectionName) :
    let blocks := (Listing.parse sections text).blocks
    let code := sectionCode blocks here.block.sectionName
    let earlier := (occurrences blocks).take k
    ∃ (f : Feature) (m j : Nat),
      (extractFeatures .sectionLinear blocks)[n]? = some f ∧
      f.mnemonic = here.instruction.mnemonic ∧
      (∀ i, code[i]? = some here ↔ i = m) ∧
      (∀ i, code[i]? = some target ↔ i = j) ∧
      ((∀ o ∈ earlier, o.instruction.address ≠ some a) →
        f.vector.branch = distance m j ∧
        (text.length < 2 ^ 63 → f.vector.branch.toInt = (j : Int) - m)) ∧
      ((∃ o ∈ earlier, o.instruction.address = some a) → f.vector.branch = 0) := by
  intro blocks code earlier
  have hwf := Listing.wellFormed_parse sections text
  have hnumbered : ∀ b ∈ blocks, b.Numbered := fun b hb => (hwf.blocks b hb).1.position
  have hm := getElem?_sectionCode_self hnumbered (List.mem_of_getElem? hhere)
  have hj := getElem?_sectionCode_self hnumbered (List.mem_of_getElem? htarget)
  rw [hsection] at hj
  refine ⟨_, (here.site blocks).linear, (target.site blocks).linear,
    by rw [extractFeatures_eq, List.getElem?_map, hhere, Option.map_some], rfl, hm, hj, ?_, ?_⟩
  · intro hfirst
    have hoffset : (featureOf .sectionLinear (TargetIndex.ofPlaced (placeBlocks blocks))
        (here.place blocks) here.instruction).vector.branch =
          distance (here.site blocks).linear (target.site blocks).linear :=
      (branchOffset_of_resolve? hbranch
        (resolve?_of_address hnumber (firstAt?_of_first htarget haddress hfirst))).trans
        (if_pos hsection.symm)
    refine ⟨hoffset, fun hlen => ?_⟩
    -- both places are indices of the code, which has no more instructions than the text characters
    have hcount : code.length ≤ text.length := by
      have hcode := length_sectionCode_le blocks here.block.sectionName
      have htext := Listing.instructionCount_parse_le sections text
      rw [hwf.instructionCount] at htext
      exact Nat.le_trans hcode htext
    have hmlt : (here.site blocks).linear < code.length :=
      (List.getElem?_eq_some_iff.mp ((hm _).mpr rfl)).1
    have hjlt : (target.site blocks).linear < code.length :=
      (List.getElem?_eq_some_iff.mp ((hj _).mpr rfl)).1
    rw [hoffset, toInt_distance (by omega) (by omega)]
  · intro hhidden
    obtain ⟨o, ho, hother⟩ := exists_firstAt?_of_hidden hdistinct htarget haddress hhidden
    exact (branchOffset_of_resolve? hbranch (resolve?_of_address hnumber ho)).trans
      (if_neg fun h => hother (h.symm.trans hsection.symm))

/-- Two sections that start at zero, each with a branch back to its start: the start of the first
    one is found, and hides that of the second one. -/
theorem branchOffset_to_address_first :
    let text := "Disassembly of section .text:\n 0:\tbf00\tnop\n 2:\te7fd\tb.n\t0 <main>\n" ++
      "Disassembly of section .fini:\n 0:\tbf00\tnop\n 2:\te7fd\tb.n\t0 <end>\n"
    let blocks := (Listing.parse [".text", ".fini"] text).blocks
    DistinctAddresses blocks ∧
    (∃ f, (extractFeatures .sectionLinear blocks)[1]? = some f ∧ f.mnemonic = "b" ∧
      f.vector.branch.toInt = -1) ∧
    ∃ f, (extractFeatures .sectionLinear blocks)[3]? = some f ∧ f.mnemonic = "b" ∧
      f.vector.branch = 0 := by
  intro text blocks
  let main : Block :=
    ⟨".text", 0, none, [], [⟨"nop", [], 0, some 0⟩, ⟨"b", ["0 <main>"], 1, some 2⟩]⟩
  let fini : Block :=
    ⟨".fini", 0, none, [], [⟨"nop", [], 0, some 0⟩, ⟨"b", ["0 <end>"], 1, some 2⟩]⟩
  have hblocks : blocks = [main, fini] := by decide +kernel
  have hdistinct : DistinctAddresses blocks := by
    rw [hblocks, DistinctAddresses]
    decide +kernel
  have hoccurrences : occurrences blocks = [⟨main, 0, ⟨"nop", [], 0, some 0⟩⟩,
      ⟨main, 0, ⟨"b", ["0 <main>"], 1, some 2⟩⟩, ⟨fini, 1, ⟨"nop", [], 0, some 0⟩⟩,
      ⟨fini, 1, ⟨"b", ["0 <end>"], 1, some 2⟩⟩] := by
    rw [hblocks]
    rfl
  have hmain : sectionCode blocks ".text" = main.instructions.map (⟨main, 0, ·⟩) := by
    rw [hblocks]
    rfl
  refine ⟨hdistinct, ?_, ?_⟩
  · obtain ⟨f, m, j, hf, hmnemonic, hm, hj, hfirst, -⟩ := branchOffset_to_address hdistinct
      (n := 1) (k := 0) (a := 0) (congrArg (·[1]?) hoccurrences) (by decide +kernel)
      (by decide +kernel) (congrArg (·[0]?) hoccurrences) rfl rfl
    obtain rfl : 1 = m := (hm 1).mp (congrArg (·[1]?) hmain)
    obtain rfl : 0 = j := (hj 0).mp (congrArg (·[0]?) hmain)
    exact ⟨f, hf, hmnemonic, (hfirst (by simp)).2 (by decide +kernel)⟩
  · obtain ⟨f, m, j, hf, hmnemonic, -, -, -, hhidden⟩ := branchOffset_to_address hdistinct
      (n := 3) (k := 2) (a := 0) (congrArg (·[3]?) hoccurrences) (by decide +kernel)
      (by decide +kernel) (congrArg (·[2]?) hoccurrences) rfl rfl
    have hstart : (⟨main, 0, ⟨"nop", [], 0, some 0⟩⟩ : Occurrence) ∈
        (occurrences blocks).take 2 := by
      rw [hoccurrences]
      exact List.mem_cons_self
    exact ⟨f, hf, hmnemonic, hhidden ⟨_, hstart, rfl⟩⟩

/-- Two sections that start at zero: the branch at 2 of the second one aims at the start of its
    section, one instruction before it, and its offset is zero. -/
theorem branchOffset_to_hidden_address :
    let text := "Disassembly of section .text:\n\n00000000 <main>:\n   0:\tbf00      \tnop\n\n" ++
      "Disassembly of section .fini:\n\n00000000 <f>:\n   0:\tbf00      \tnop\n\n" ++
      "00000002 <g>:\n   2:\te7fd      \tb.n\t0 <f>\n"
    let blocks := (Listing.parse [".text", ".fini"] text).blocks
    DistinctAddresses blocks ∧
    ∃ (here target : Occurrence) (f : Feature),
      (occurrences blocks)[2]? = some here ∧ isBranch here.instruction.mnemonic ∧
      here.instruction.numericTarget? = some 0 ∧ target.instruction.address = some 0 ∧
      sectionCode blocks here.block.sectionName = [target, here] ∧
      (extractFeatures .sectionLinear blocks)[2]? = some f ∧ f.vector.branch.toInt ≠ 0 - 1 := by
  intro text blocks
  let main : Block := ⟨".text", 0, some "main", [], [⟨"nop", [], 0, some 0⟩]⟩
  let f : Block := ⟨".fini", 0, some "f", [], [⟨"nop", [], 0, some 0⟩]⟩
  let g : Block := ⟨".fini", 1, some "g", [], [⟨"b", ["0 <f>"], 0, some 2⟩]⟩
  have hblocks : blocks = [main, f, g] := by decide +kernel
  rw [hblocks]
  refine ⟨by rw [DistinctAddresses]; decide +kernel, ⟨g, 2, ⟨"b", ["0 <f>"], 0, some 2⟩⟩,
    ⟨f, 1, ⟨"nop", [], 0, some 0⟩⟩, ⟨"b", ⟨0, 1, 0⟩⟩, rfl, by decide +kernel, by decide +kernel,
    rfl, rfl, by decide +kernel, by decide⟩

end FirmwareMatch
