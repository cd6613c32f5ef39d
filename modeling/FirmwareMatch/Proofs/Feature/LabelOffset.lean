import FirmwareMatch.Proofs.Feature.Annotated

/-
  Places some bytes behind a label.

  The index keeps two things about a label: the start of the first block that carries it, which the
  label alone names, and the address from which offsets count. The address is taken from the first
  block with the label that starts with one. A block without an address is passed over there and
  not for the start, so of a label that stands twice the two may belong to different blocks: the
  label names a place without an address, and with an offset it counts from another place.

  Proved:
  * `exists_isBaseOf`: where the address comes from from which offsets count.
  * `IsBaseOf.eq_of_isStartOf`, `IsBaseOf.number_lt`: it is the start of the label if that has an
    address, and stands behind the start otherwise.
  * `ofSymbol?_plus`: a name with a plus sign is never found with an offset.
  * `exists_of_behind?`: what lies an offset behind a label.
  * `behind_label`: what a label names alone and with an offset, for every text.
  * `behind_label_otherwise`: a label whose start has no address.
-/

namespace FirmwareMatch

open Std Text

/-! ## Where offsets count from -/

/-- The first instruction of the first block that carries a name and starts with an address. -/
structure IsBaseOf (blocks : List Block) (name : String) (o : Occurrence) : Prop where
  block : blocks[o.number]? = some o.block
  carries : name ∈ o.block.labels
  first : o.block.instructions.head? = some o.instruction
  addressed : o.instruction.address.isSome
  earlier : ∀ b ∈ blocks.take o.number, name ∈ b.labels →
    b.instructions.head?.bind Instruction.address = none

/-- The address from which the offsets of a label count is that of its base. -/
theorem exists_isBaseOf {blocks : List Block} {name : String} {a : UInt64}
    (h : (TargetIndex.ofPlaced (placeBlocks blocks)).labelAddress[name]? = some a) :
    ∃ o, IsBaseOf blocks name o ∧ o.instruction.address = some a := by
  let baseOf? := fun b : Block =>
    if b.labels.contains name then b.instructions.head?.bind Instruction.address else none
  have hfirst : blocks.findSome? baseOf? = some a := by
    rw [TargetIndex.getElem?_labelAddress_ofPlaced] at h
    rw [← map_block_placeBlocks blocks, List.findSome?_map]
    exact h
  obtain ⟨before, b, behind, hblocks, hb, hbefore⟩ := List.findSome?_eq_some_iff.mp hfirst
  obtain ⟨hcarries, haddress⟩ := (Option.ite_none_right_eq_some).mp hb
  obtain ⟨i, hi, hia⟩ := Option.bind_eq_some_iff.mp haddress
  refine ⟨⟨b, before.length, i⟩,
    ⟨by rw [hblocks]; simp, List.contains_iff_mem.mp hcarries, hi, by rw [hia]; rfl, ?_⟩, hia⟩
  intro c hc hname
  have hmem : c ∈ before := by
    rw [hblocks] at hc
    simpa using hc
  have hnone := hbefore c hmem
  dsimp only [baseOf?] at hnone
  rwa [if_pos (List.contains_iff_mem.mpr hname)] at hnone

section Base

variable {blocks : List Block} {name : String} {start base : Occurrence}
  (hbase : IsBaseOf blocks name base) (hstart : IsStartOf blocks name start)

include hbase hstart

/-- If the start of a label has an address, the offsets of the label count from there. -/
theorem IsBaseOf.eq_of_isStartOf (haddress : start.instruction.address.isSome) : base = start := by
  have hle : start.number ≤ base.number := hstart.number_le hbase.block hbase.carries
  have hge : base.number ≤ start.number := by
    refine Nat.le_of_not_lt fun hlt => ?_
    have hmem : start.block ∈ blocks.take base.number :=
      List.mem_of_getElem? ((List.getElem?_take_of_lt hlt).trans hstart.block)
    have hnone := hbase.earlier _ hmem hstart.carries
    rw [hstart.first, Option.bind_some] at hnone
    rw [hnone] at haddress
    cases haddress
  exact Occurrence.eq_of_number hbase.block hstart.block hbase.first hstart.first
    (Nat.le_antisymm hge hle)

/-- If the start of a label has no address, the offsets of the label count from a later block. -/
theorem IsBaseOf.number_lt (haddress : start.instruction.address = none) :
    start.number < base.number := by
  refine Nat.lt_of_le_of_ne (hstart.number_le hbase.block hbase.carries) fun heq => ?_
  have hsame : start = base :=
    Occurrence.eq_of_number hstart.block hbase.block hstart.first hbase.first heq
  have haddressed := hbase.addressed
  rw [← hsame, haddress] at haddressed
  cases haddressed

end Base

/-! ## Labels with an offset -/

theorem toNat_of_addAddress? {a b c : UInt64} (h : addAddress? a b = some c) :
    c.toNat = a.toNat + b.toNat := by
  unfold addAddress? at h
  obtain ⟨hsum, hc⟩ := Option.ite_none_right_eq_some.mp h
  rw [← Option.some.inj hc, UInt64.toNat_add, Nat.mod_eq_of_lt hsum]

namespace TargetIndex

/-- A name with a plus sign is never found with an offset: the rest of the name is taken for a part
    of the offset, which is no number then. -/
theorem ofSymbol?_plus (t : TargetIndex) {name : String} (h : '+' ∈ name.toList) (more : String) :
    t.ofSymbol? (name ++ "+" ++ more).toList = none := by
  obtain ⟨label, rest, hname, hlabel⟩ := List.eq_append_cons_of_mem h
  have hsymbol : name ++ "+" ++ more =
      String.ofList label ++ "+" ++ String.ofList (rest ++ '+' :: more.toList) := by
    apply String.toList_injective
    simp [hname]
  have hoffset : readAddress? (trim (rest ++ '+' :: more.toList)) = none := by
    refine Option.eq_none_iff_forall_ne_some.mpr fun n hn => ?_
    have hplus : '+' ∈ trim (rest ++ '+' :: more.toList) :=
      mem_trim_of_mem (by simp) (by decide)
    exact absurd (forall_mem_of_readAddress? hn '+' hplus) (by decide)
  rw [hsymbol, t.ofSymbol?_split (by simpa using hlabel), String.toList_ofList, hoffset,
    Option.bind_none]

end TargetIndex

/-- What lies an offset behind a label has the sum of the offset and the address of the base of the
    label as its address. -/
theorem exists_of_behind? {blocks : List Block} {name : String} {n : UInt64} (hn : n ≠ 0) {s : Site}
    (h : (TargetIndex.ofPlaced (placeBlocks blocks)).behind? name n = some s) :
    ∃ (base behind : Occurrence) (a c : UInt64),
      IsBaseOf blocks name base ∧ base.instruction.address = some a ∧
      behind ∈ occurrences blocks ∧ behind.instruction.address = some c ∧
      c.toNat = a.toNat + n.toNat ∧ s = behind.site blocks := by
  unfold TargetIndex.behind? at h
  rw [if_neg (by simpa using hn)] at h
  obtain ⟨a, ha, h⟩ := Option.bind_eq_some_iff.mp h
  obtain ⟨c, hc, h⟩ := Option.bind_eq_some_iff.mp h
  obtain ⟨base, hbase, hbase_address⟩ := exists_isBaseOf ha
  rw [getElem?_byAddress_placeBlocks] at h
  obtain ⟨behind, hbehind, hsite⟩ := Option.map_eq_some_iff.mp h
  exact ⟨base, behind, a, c, hbase, hbase_address, List.mem_of_find?_eq_some hbehind,
    by simpa using List.find?_some hbehind, toNat_of_addAddress? hc, hsite.symm⟩

/-! ## Texts -/

/-- For every text and every name: if the name with an offset that is not zero names an instruction,
    the address of this instruction is the offset behind the address of the base of the name, and the
    name alone names its start. If the start has an address, it is the base; otherwise the base
    stands in a later block. -/
theorem behind_label {sections : List String} {text name more : String} {n : UInt64} {s : Site}
    (hnumber : readAddress? (trim more.toList) = some n) (hn : n ≠ 0)
    (h : (TargetIndex.ofPlaced (placeBlocks (Listing.parse sections text).blocks)).ofSymbol?
      (name ++ "+" ++ more).toList = some s) :
    let blocks := (Listing.parse sections text).blocks
    let t := TargetIndex.ofPlaced (placeBlocks blocks)
    ∃ (start base behind : Occurrence) (a c : UInt64),
      IsStartOf blocks name start ∧ t.ofSymbol? name.toList = some (start.site blocks) ∧
      IsBaseOf blocks name base ∧ base.instruction.address = some a ∧
      behind ∈ occurrences blocks ∧ s = behind.site blocks ∧
      behind.instruction.address = some c ∧ c.toNat = a.toNat + n.toNat ∧
      (start.instruction.address.isSome → base = start) ∧
      (start.instruction.address = none → start.number < base.number) := by
  intro blocks t
  have hwf := Listing.wellFormed_parse sections text
  have hplus : '+' ∉ name.toList := by
    intro hplus
    rw [TargetIndex.ofSymbol?_plus _ hplus] at h
    cases h
  rw [TargetIndex.ofSymbol?_split _ hplus, hnumber, Option.bind_some] at h
  obtain ⟨base, behind, a, c, hbase, ha, hbehind, hc, hsum, hsite⟩ := exists_of_behind? hn h
  obtain ⟨start, hstart⟩ := exists_isStartOf (fun b hb => (hwf.blocks b hb).2)
    (List.mem_of_getElem? hbase.block) hbase.carries
  have hlabel : t.ofSymbol? name.toList = some (start.site blocks) := by
    rw [t.ofSymbol?_whole hplus]
    exact TargetIndex.byLabel_of_isStartOf (fun b hb => (hwf.blocks b hb).1.position) hstart
  exact ⟨start, base, behind, a, c, hstart, hlabel, hbase, ha, hbehind, hsite, hc, hsum,
    hbase.eq_of_isStartOf hstart, hbase.number_lt hstart⟩

/-- A label that stands again where no addresses are: its offsets count from its first block. -/
theorem behind_label_first :
    let text := ".text\n1000 <func>:\n1000:\tbf00\tnop\n1002:\tbf00\tnop\nfunc:\nnop\n"
    let blocks := (Listing.parse [".text"] text).blocks
    let t := TargetIndex.ofPlaced (placeBlocks blocks)
    ∃ start behind : Occurrence,
      IsStartOf blocks "func" start ∧ t.ofSymbol? "func".toList = some (start.site blocks) ∧
      start.instruction.address = some 0x1000 ∧
      t.ofSymbol? ("func" ++ "+" ++ "0x2").toList = some (behind.site blocks) ∧
      behind ∈ occurrences blocks ∧ behind.instruction.address = some 0x1002 := by
  intro text blocks t
  let nop : Instruction := ⟨"nop", [], 0, some 0x1000⟩
  let code : Block := ⟨".text", 0, some "func", [], [nop, ⟨"nop", [], 1, some 0x1002⟩]⟩
  let copy : Block := ⟨".text", 1, some "func", [], [⟨"nop", [], 0, none⟩]⟩
  have hblocks : blocks = [code, copy] := by decide +kernel
  have ht : t = TargetIndex.ofPlaced (placeBlocks [code, copy]) :=
    congrArg (fun bs => TargetIndex.ofPlaced (placeBlocks bs)) hblocks
  have hsymbol : t.ofSymbol? ("func" ++ "+" ++ "0x2").toList = some ⟨0, ".text", 1, 1⟩ := by
    rw [ht]
    decide +kernel
  have hnumber : readAddress? (trim "0x2".toList) = some 2 := by decide +kernel
  obtain ⟨start, base, behind, a, c, hstart, hlabel, -, ha, hbehind, hsite, hc, hsum, hsame, -⟩ :=
    behind_label hnumber (by decide) hsymbol
  have hreal : IsStartOf blocks "func" ⟨code, 0, nop⟩ := by
    rw [hblocks]
    exact ⟨rfl, List.mem_cons_self, by simp, rfl⟩
  obtain rfl := hstart.unique hreal
  obtain rfl := hsame rfl
  obtain rfl : 0x1000 = a := Option.some.inj ha
  obtain rfl : c = 0x1002 := UInt64.toNat_inj.mp hsum
  exact ⟨_, behind, hstart, hlabel, rfl, hsymbol.trans (congrArg some hsite), hbehind, hc⟩

/-- A label that stands first where no addresses are and then again with an address: with an offset
    it names an instruction of its second block, and alone the start of its first, which has no
    address. -/
theorem behind_label_otherwise :
    let text := ".text\nfunc:\nnop\n8000 <func>:\n8000:\tbf00\tnop\n8002:\tbf00\tnop\n" ++
      "8004:\te7fd\tb.n\t<func+0x2>\n"
    let blocks := (Listing.parse [".text"] text).blocks
    let t := TargetIndex.ofPlaced (placeBlocks blocks)
    ∃ (start behind : Occurrence) (f : Feature),
      start ∈ occurrences blocks ∧ t.ofSymbol? "func".toList = some (start.site blocks) ∧
      behind ∈ occurrences blocks ∧ t.ofSymbol? "func+0x2".toList = some (behind.site blocks) ∧
      start.instruction.address = none ∧ behind.instruction.address = some 0x8002 ∧
      (extractFeatures .sectionLinear blocks)[3]? = some f ∧ f.vector.branch.toInt = -1 := by
  intro text blocks t
  let plain : Block := ⟨".text", 0, some "func", [], [⟨"nop", [], 0, none⟩]⟩
  let code : Block := ⟨".text", 1, some "func", [], [⟨"nop", [], 0, some 0x8000⟩,
    ⟨"nop", [], 1, some 0x8002⟩, ⟨"b", ["<func+0x2>"], 2, some 0x8004⟩]⟩
  have hblocks : blocks = [plain, code] := by decide +kernel
  have ht : t = TargetIndex.ofPlaced (placeBlocks [plain, code]) :=
    congrArg (fun bs => TargetIndex.ofPlaced (placeBlocks bs)) hblocks
  rw [ht, hblocks]
  exact ⟨⟨plain, 0, ⟨"nop", [], 0, none⟩⟩, ⟨code, 1, ⟨"nop", [], 1, some 0x8002⟩⟩,
    ⟨"b", ⟨2, 1, -1⟩⟩, List.mem_cons_self, by decide +kernel,
    mem_occurrences.mpr ⟨rfl, List.mem_cons_of_mem _ List.mem_cons_self⟩, by decide +kernel, rfl, rfl,
    by decide +kernel, by decide⟩

end FirmwareMatch
