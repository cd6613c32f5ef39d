import FirmwareMatch.Proofs.Feature.Addressed
import FirmwareMatch.Proofs.Feature.Labelled
import FirmwareMatch.Proofs.Feature.Renaming

/-
  Branches whose operand is a label in angle brackets.

  A label may be any text that stood in brackets in front of a colon, with blanks, commas and further
  brackets, as demangled names have. An annotation holds what stands between its outermost brackets,
  so it gives such a name back. But it is also the notation for a place some bytes behind a label,
  and the first plus sign in it sets the offset apart: a label with a plus sign, such as an operator,
  is never looked up as a whole.

  Proved:
  * `exists_isStartOf`, `IsStartOf.unique`: a name that a block carries has one start.
  * `byLabel_of_isStartOf`: a label names its start.
  * `resolve?_annotated`: an annotation names what its symbol names.
  * `ofSymbol?_split`: a symbol with a plus sign is a label and an offset.
  * `branchOffset_to_annotated`: a branch to a label in brackets, for every text.
  * `branchOffset_to_operator`: a label with a plus sign, which is not found.
-/

namespace FirmwareMatch

open Std Text

/-! ## Where a label leads -/

/-- The first instruction of the first block that carries a name. -/
structure IsStartOf (blocks : List Block) (name : String) (o : Occurrence) : Prop where
  block : blocks[o.number]? = some o.block
  carries : name ∈ o.block.labels
  earlier : ∀ b ∈ blocks.take o.number, name ∉ b.labels
  first : o.block.instructions.head? = some o.instruction

/-- A name that a block carries has a start, if no block is empty. -/
theorem exists_isStartOf {blocks : List Block} (hne : ∀ b ∈ blocks, b.instructions ≠ [])
    {b : Block} (hb : b ∈ blocks) {name : String} (hname : name ∈ b.labels) :
    ∃ o, IsStartOf blocks name o := by
  obtain ⟨k, hk⟩ : ∃ k, blocks.findIdx? (fun b => b.labels.contains name) = some k :=
    Option.isSome_iff_exists.mp
      (List.findIdx?_isSome.trans (List.any_eq_true.mpr ⟨b, hb, List.contains_iff_mem.mpr hname⟩))
  obtain ⟨hlt, hcarries, hearlier⟩ := List.findIdx?_eq_some_iff_getElem.mp hk
  obtain ⟨i, rest, hinstructions⟩ := List.exists_cons_of_ne_nil (hne _ (List.getElem_mem hlt))
  refine ⟨⟨blocks[k], k, i⟩, List.getElem?_eq_getElem hlt, List.contains_iff_mem.mp hcarries,
    fun c hc => ?_, by rw [hinstructions, List.head?_cons]⟩
  obtain ⟨j, hj, rfl⟩ := List.mem_take_iff_getElem.mp hc
  have hjk : j < k := Nat.lt_of_lt_of_le hj (Nat.min_le_left _ _)
  exact mt List.contains_iff_mem.mpr (hearlier j hjk)

/-- No block in front of the start of a name carries the name. -/
theorem IsStartOf.number_le {blocks : List Block} {name : String} {o : Occurrence}
    (h : IsStartOf blocks name o) {k : Nat} {b : Block} (hb : blocks[k]? = some b)
    (hname : name ∈ b.labels) : o.number ≤ k :=
  Nat.le_of_not_lt fun hlt => h.earlier b
    (List.mem_of_getElem? ((List.getElem?_take_of_lt hlt).trans hb)) hname

/-- The first instructions of one block are one. -/
theorem Occurrence.eq_of_number {blocks : List Block} {o o' : Occurrence}
    (hblock : blocks[o.number]? = some o.block) (hblock' : blocks[o'.number]? = some o'.block)
    (hfirst : o.block.instructions.head? = some o.instruction)
    (hfirst' : o'.block.instructions.head? = some o'.instruction) (h : o.number = o'.number) :
    o = o' := by
  have hblocks : o.block = o'.block :=
    Option.some.inj (hblock.symm.trans ((congrArg (blocks[·]?) h).trans hblock'))
  have hinstruction : o.instruction = o'.instruction :=
    Option.some.inj (hfirst.symm.trans ((congrArg (·.instructions.head?) hblocks).trans hfirst'))
  cases o
  cases o'
  congr

/-- A name has one start. -/
theorem IsStartOf.unique {blocks : List Block} {name : String} {o o' : Occurrence}
    (h : IsStartOf blocks name o) (h' : IsStartOf blocks name o') : o = o' :=
  Occurrence.eq_of_number h.block h'.block h.first h'.first
    (Nat.le_antisymm (h.number_le h'.block h'.carries) (h'.number_le h.block h.carries))

/-- A label names its start. -/
theorem TargetIndex.byLabel_of_isStartOf {blocks : List Block}
    (hnumbered : ∀ b ∈ blocks, b.Numbered) {name : String} {o : Occurrence}
    (h : IsStartOf blocks name o) :
    (ofPlaced (placeBlocks blocks)).byLabel[name]? = some (o.site blocks) := by
  have hsplit := take_append_cons_drop h.block
  have hlt := (List.getElem?_eq_some_iff.mp h.block).1
  have hlabel : (ofPlaced (placeBlocks (blocks.take o.number ++ o.block ::
      blocks.drop (o.number + 1)))).byLabel[name]? = _ := byLabel_of_first h.carries h.earlier
  have hzero : o.instruction.position = 0 := by
    refine hnumbered _ (List.mem_of_getElem? h.block) 0 _ ?_
    rw [← List.head?_eq_getElem?, h.first]
  rw [hsplit, List.length_take, Nat.min_eq_left (Nat.le_of_lt hlt)] at hlabel
  rw [hlabel]
  simp only [Occurrence.site, Occurrence.place, PlacedBlock.site, hzero, Nat.add_zero]

/-! ## Annotations -/

namespace TargetIndex

/-- An annotation alone names what its symbol names. -/
theorem resolve?_annotated (t : TargetIndex) {i : Instruction} {symbol : String}
    (h : i.operands.head? = some ("<" ++ symbol ++ ">")) :
    t.resolve? i = t.ofSymbol? symbol.toList := by
  have hlist : ("<" ++ symbol ++ ">").toList = [] ++ '<' :: (symbol.toList ++ ['>']) := by simp
  have hnumber : readAddress? (headWord ([] ++ ['<'])) = none := by decide
  rw [resolve?, h, Option.bind_some, hlist, ofOperand?_annotated t List.not_mem_nil, hnumber,
    Option.bind_none, Option.none_or]

/-- A symbol without a plus sign is a label. -/
theorem ofSymbol?_whole (t : TargetIndex) {symbol : String} (h : '+' ∉ symbol.toList) :
    t.ofSymbol? symbol.toList = t.byLabel[symbol]? := by
  unfold ofSymbol?
  rw [cut?_eq_none (beq_eq_false_of_not_mem h)]
  exact congrArg (t.byLabel[·]?) String.ofList_toList

/-- What lies an offset behind a label: at zero what the label names, and else the instruction that
    has the sum as its address. -/
def behind? (t : TargetIndex) (name : String) (offset : UInt64) : Option Site :=
  if offset == 0 then t.byLabel[name]?
  else t.labelAddress[name]?.bind fun base => (addAddress? base offset).bind fun a => t.byAddress[a]?

/-- A symbol with a plus sign is a label and an offset, whichever labels there are. -/
theorem ofSymbol?_split (t : TargetIndex) {name : String} (h : '+' ∉ name.toList) (more : String) :
    t.ofSymbol? (name ++ "+" ++ more).toList =
      (readAddress? (trim more.toList)).bind (t.behind? name) := by
  have hlist : (name ++ "+" ++ more).toList = name.toList ++ '+' :: more.toList := by simp
  unfold ofSymbol? behind?
  rw [hlist, cut?_append more.toList (beq_eq_false_of_not_mem h) rfl]
  simp only [ofLabel?, String.ofList_toList]

end TargetIndex

/-! ## Texts -/

/-- For every text and every name that a block of it carries: a branch whose first operand is the
    name in angle brackets leads to the first instruction of the first block with this name, unless
    the name has a plus sign. Then what stands in front of the first plus sign is taken for the label
    and the rest for an offset; if the rest is no number, the branch leads nowhere, and its offset is
    zero. -/
theorem branchOffset_to_annotated {sections : List String} {text : String} {b : Block}
    (hb : b ∈ (Listing.parse sections text).blocks) {name : String} (hname : name ∈ b.labels)
    {n : Nat} {here : Occurrence}
    (hhere : (occurrences (Listing.parse sections text).blocks)[n]? = some here)
    (hbranch : isBranch here.instruction.mnemonic)
    (hoperand : here.instruction.operands.head? = some ("<" ++ name ++ ">"))
    (policy : BranchPolicy) :
    let blocks := (Listing.parse sections text).blocks
    let t := TargetIndex.ofPlaced (placeBlocks blocks)
    ∃ (start : Occurrence) (f : Feature),
      IsStartOf blocks name start ∧
      (extractFeatures policy blocks)[n]? = some f ∧ f.mnemonic = here.instruction.mnemonic ∧
      ('+' ∉ name.toList →
        t.resolve? here.instruction = some (start.site blocks) ∧
        f.vector.branch = policy.offset (here.site blocks) (start.site blocks)) ∧
      ∀ label more : String, name = label ++ "+" ++ more → '+' ∉ label.toList →
        t.resolve? here.instruction = (readAddress? (trim more.toList)).bind (t.behind? label) ∧
        (readAddress? (trim more.toList) = none → f.vector.branch = 0) := by
  intro blocks t
  have hwf := Listing.wellFormed_parse sections text
  obtain ⟨start, hstart⟩ := exists_isStartOf (fun b hb => (hwf.blocks b hb).2) hb hname
  have hresolve := t.resolve?_annotated hoperand
  refine ⟨start, _, hstart, by rw [extractFeatures_eq, List.getElem?_map, hhere, Option.map_some],
    rfl, fun hplus => ?_, fun label more hsplit hplus => ?_⟩
  · have hsite : t.resolve? here.instruction = some (start.site blocks) := by
      rw [hresolve, t.ofSymbol?_whole hplus]
      exact TargetIndex.byLabel_of_isStartOf (fun b hb => (hwf.blocks b hb).1.position) hstart
    exact ⟨hsite, branchOffset_of_resolve? hbranch hsite⟩
  · have hsymbol : t.resolve? here.instruction =
        (readAddress? (trim more.toList)).bind (t.behind? label) := by
      rw [hresolve, hsplit, t.ofSymbol?_split hplus]
    refine ⟨hsymbol, fun hnumber => branchOffset_eq_zero (.inr ?_)⟩
    rw [hsymbol, hnumber, Option.bind_none]

/-- A branch forward to a demangled name with brackets, a blank and a comma. -/
theorem branchOffset_to_annotated_demangled :
    let text := ".text\nb <f<int>::g(a, b)>\nnop\n8000 <f<int>::g(a, b)>:\nnop\n"
    let blocks := (Listing.parse [".text"] text).blocks
    ∃ (start : Occurrence) (f : Feature),
      IsStartOf blocks "f<int>::g(a, b)" start ∧ start.number = 1 ∧
      (extractFeatures .sectionLinear blocks)[0]? = some f ∧ f.mnemonic = "b" ∧
      f.vector.branch.toInt = 2 := by
  intro text blocks
  let front : Block := ⟨".text", 0, none, [],
    [⟨"b", ["<f<int>::g(a, b)>"], 0, none⟩, ⟨"nop", [], 1, none⟩]⟩
  let back : Block := ⟨".text", 1, some "f<int>::g(a, b)", [], [⟨"nop", [], 0, none⟩]⟩
  have hblocks : blocks = [front, back] := by decide +kernel
  have hoccurrences : occurrences blocks = [⟨front, 0, ⟨"b", ["<f<int>::g(a, b)>"], 0, none⟩⟩,
      ⟨front, 0, ⟨"nop", [], 1, none⟩⟩, ⟨back, 1, ⟨"nop", [], 0, none⟩⟩] := by
    rw [hblocks]
    rfl
  have hback : back ∈ blocks := by
    rw [hblocks]
    exact List.mem_cons_of_mem _ List.mem_cons_self
  have hname : "f<int>::g(a, b)" ∈ back.labels := by decide +kernel
  obtain ⟨start, f, hstart, hf, hmnemonic, hwhole, -⟩ := branchOffset_to_annotated hback hname
    (n := 0) (congrArg (·[0]?) hoccurrences) (by decide +kernel) (by decide +kernel) .sectionLinear
  have hoffset := (hwhole (by decide +kernel)).2
  have hreal : IsStartOf blocks "f<int>::g(a, b)" ⟨back, 1, ⟨"nop", [], 0, none⟩⟩ := by
    rw [hblocks]
    exact ⟨rfl, List.mem_cons_self, by decide +kernel, rfl⟩
  obtain rfl := hstart.unique hreal
  refine ⟨_, f, hstart, rfl, hf, hmnemonic, ?_⟩
  change f.vector.branch = BranchPolicy.sectionLinear.offset (Occurrence.site blocks _)
    (Occurrence.site blocks _) at hoffset
  rw [hoffset, hblocks]
  decide +kernel

/-- A branch back to the label of an operator: its name is read as a label and an offset, so it leads
    nowhere. -/
theorem branchOffset_to_operator :
    let text := "Disassembly of section .text:\n\n00008000 <operator+(int)>:\n" ++
      "    8000:\tbf00      \tnop\n    8002:\te7fd      \tb.n\t<operator+(int)>\n"
    let blocks := (Listing.parse [".text"] text).blocks
    ∃ (start here : Occurrence) (f : Feature),
      IsStartOf blocks "operator+(int)" start ∧ (occurrences blocks)[1]? = some here ∧
      isBranch here.instruction.mnemonic ∧
      here.instruction.operands.head? = some ("<" ++ "operator+(int)" ++ ">") ∧
      (TargetIndex.ofPlaced (placeBlocks blocks)).resolve? here.instruction ≠
        some (start.site blocks) ∧
      (extractFeatures .sectionLinear blocks)[1]? = some f ∧ f.vector.branch.toInt ≠ 0 - 1 := by
  intro text blocks
  let nop : Instruction := ⟨"nop", [], 0, some 0x8000⟩
  let branch : Instruction := ⟨"b", ["<operator+(int)>"], 1, some 0x8002⟩
  let code : Block := ⟨".text", 0, some "operator+(int)", [], [nop, branch]⟩
  have hblocks : blocks = [code] := by decide +kernel
  rw [hblocks]
  refine ⟨⟨code, 0, nop⟩, ⟨code, 0, branch⟩, ⟨"b", ⟨1, 0, 0⟩⟩,
    ⟨rfl, List.mem_cons_self, by simp, rfl⟩, rfl, by decide +kernel, by decide +kernel,
    by decide +kernel, by decide +kernel, by decide⟩

end FirmwareMatch
