import FirmwareMatch.Proofs.Feature.Displacement
import FirmwareMatch.Proofs.Feature.Relocation
import FirmwareMatch.Proofs.Listing.Labels
import FirmwareMatch.Proofs.Listing.Source

/-
  Branches to labels, from the lines of a text to the offsets of its features.

  Without addresses an operand that is an identifier can name a label only, also if it looks like a
  number. Its target is the start of the first block with this label, which is the first instruction
  behind the line of the label. Places in the listing are places among the instructions of the lines:
  the linear position of an instruction counts the earlier instructions of its section
  (`indexIn`).

  Proved:
  * `linear_eq_indexIn`: the linear position of the n-th instruction.
  * `resolve?_of_plain`: what an identifier names in a listing without addresses.
  * `byLabel_of_first`: what the label of a block names.
  * `branchOffset_to_label`: the offset of a branch to a label, for every text without addresses.
-/

namespace FirmwareMatch

open Std Text

/-! ## Indices -/

/-- How many of the first `n` instructions stand in a section; for an instruction of this section
    that is its index there. -/
def indexIn (name : String) (statements : List (String × Statement)) (n : Nat) : Nat :=
  (statements.take n).countP fun s => s.1 == name

/-- What satisfies `p` stands behind all earlier elements that do. -/
theorem getElem?_filter_countP {α : Type} {p : α → Bool} {xs : List α} {n : Nat} {x : α}
    (hx : xs[n]? = some x) (hp : p x) : (xs.filter p)[(xs.take n).countP p]? = some x := by
  obtain ⟨hlt, rfl⟩ := List.getElem?_eq_some_iff.mp hx
  have hsplit : xs.filter p =
      (xs.take n).filter p ++ xs[n] :: (xs.drop (n + 1)).filter p := by
    rw [← List.filter_cons_of_pos hp, ← List.drop_eq_getElem_cons hlt, ← List.filter_append,
      List.take_append_drop]
  rw [hsplit, List.countP_eq_length_filter, List.getElem?_append_right (Nat.le_refl _),
    Nat.sub_self]
  rfl

/-- The instruction of an occurrence with its section. -/
def Occurrence.statement (o : Occurrence) : String × Statement :=
  (o.block.sectionName, o.instruction.statement)

theorem map_statement_occurrences (blocks : List Block) :
    (occurrences blocks).map Occurrence.statement = blocks.flatMap Block.statements := by
  induction blocks using List.reverseRecOn with
  | nil => rfl
  | append_singleton bs b ih =>
    rw [occurrences_concat, List.map_append, ih, List.flatMap_append, List.map_map]
    simp [Function.comp_def, Occurrence.statement, Block.statements]

theorem sectionLength_eq_countP (blocks : List Block) (name : String) :
    sectionLength blocks name =
      (blocks.flatMap Block.statements).countP fun s => s.1 == name := by
  rw [← length_sectionCode, ← map_statement_occurrences, List.countP_map, sectionCode,
    List.countP_eq_length_filter]
  rfl

/-- The linear position of an instruction is its index in its section. -/
theorem linear_eq_indexIn {blocks : List Block} (h : ∀ b ∈ blocks, b.Numbered) {n : Nat}
    {o : Occurrence} (ho : (occurrences blocks)[n]? = some o) :
    (o.site blocks).linear =
      indexIn o.block.sectionName (blocks.flatMap Block.statements) n := by
  have hindex : (sectionCode blocks o.block.sectionName)[((occurrences blocks).take n).countP
      fun e => e.block.sectionName == o.block.sectionName]? = some o :=
    getElem?_filter_countP ho (beq_self_eq_true _)
  rw [getElem?_sectionCode_self h (List.mem_of_getElem? ho)] at hindex
  rw [← hindex, indexIn, ← map_statement_occurrences, ← List.map_take, List.countP_map]
  rfl

/-! ## Labels as targets -/

namespace TargetIndex

/-- Without addresses an operand that is an identifier names a label or nothing. -/
theorem resolve?_of_plain {blocks : List Block}
    (hplain : ∀ b ∈ blocks, ∀ i ∈ b.instructions, i.address = none) {name : String}
    (hname : Line.isIdentifier name.toList) {i : Instruction}
    (hi : i.operands.head? = some name) :
    (ofPlaced (placeBlocks blocks)).resolve? i = (ofPlaced (placeBlocks blocks)).byLabel[name]? := by
  obtain ⟨hne, hchars⟩ := forall_mem_of_isIdentifier hname
  have hblank : ∀ c ∈ name.toList, isBlank c = false := fun c hc =>
    (isNameChar_properties (hchars c hc)).1
  have hangle : '<' ∉ name.toList := fun hc => absurd (hchars _ hc) (by decide)
  have haddress : ∀ a : UInt64, (ofPlaced (placeBlocks blocks)).byAddress[a]? = none := by
    intro a
    rw [getElem?_byAddress_ofPlaced, List.findSome?_eq_none_iff]
    intro p hp
    rw [PlacedBlock.siteAt?, Option.map_eq_none_iff, List.find?_eq_none]
    intro i hi
    simp [hplain _ (block_mem_of_mem_placeBlocks hp) i hi]
  have hnone : ((readAddress? name.toList).bind fun a =>
      (ofPlaced (placeBlocks blocks)).byAddress[a]?) = none := by
    cases readAddress? name.toList with
    | none => rfl
    | some a => exact haddress a
  rw [resolve?, hi, Option.bind_some, ofOperand?_unannotated _ hangle,
    headWord_of_solid hne hblank, hnone, Option.none_or, ofLabel?, String.ofList_toList]

/-- A label names the start of the first block that carries it. -/
theorem byLabel_of_first {bs rest : List Block} {b : Block} {name : String}
    (hname : name ∈ b.labels) (hfirst : ∀ c ∈ bs, name ∉ c.labels) :
    (ofPlaced (placeBlocks (bs ++ b :: rest))).byLabel[name]? =
      some ⟨bs.length, b.sectionName, 0, sectionLength bs b.sectionName⟩ := by
  rw [getElem?_byLabel_ofPlaced, placeBlocks_eq, List.findSome?_map, List.zipIdx_append,
    List.findSome?_append]
  have hbs : bs.zipIdx.findSome? ((fun p => PlacedBlock.siteOf? p name) ∘ fun ck =>
      ⟨ck.1, ck.2, sectionLength ((bs ++ b :: rest).take ck.2) ck.1.sectionName⟩) = none := by
    rw [List.findSome?_eq_none_iff]
    rintro ⟨c, k⟩ hc
    have hmem : c ∈ bs := List.mem_of_getElem? (List.mem_zipIdx_iff_getElem?.mp hc)
    simp [PlacedBlock.siteOf?, hfirst c hmem]
  rw [hbs, Option.none_or, List.zipIdx_cons, List.findSome?_cons]
  simp [PlacedBlock.siteOf?, PlacedBlock.site, hname]

end TargetIndex

/-! ## Texts -/

theorem indexIn_le (name : String) (statements : List (String × Statement)) (n : Nat) :
    indexIn name statements n ≤ statements.length :=
  Nat.le_trans List.countP_le_length (List.length_take_le' _ _)

/-- A text has no more instructions than characters. -/
theorem Line.length_codeStatements_le (sections : List String) (text : String) :
    (codeStatements (ofText sections text)).length ≤ text.length := by
  rw [← Listing.statements_parse, length_flatMap_statements,
    ← (Listing.wellFormed_parse sections text).instructionCount]
  exact Listing.instructionCount_parse_le sections text

/-- For every text without addresses: a branch to a label leads to the first instruction on the line
    of the label or behind it, however many labels, blank lines and skipped lines stand between. Its
    offset is the distance of the two among the instructions of the section, and zero if the label
    stands in another section. Of several lines with the label the first counts. -/
theorem branchOffset_to_label {sections : List String} {text : String} {before after : List Line}
    {name code : String} {content : Option Content} {n : Nat} {here : String × Statement}
    (hplain : ∀ i ∈ (Listing.parse sections text).instructions, i.address = none)
    (hname : Line.isIdentifier name.toList)
    (hlines : Line.ofText sections text = before ++ .label name content :: after)
    (hcode : Line.sectionAfter before = some code) (hfirst : name ∉ Line.codeLabels before)
    (hfollowed : ∃ l ∈ (Line.label name content :: after).takeWhile (!·.isMarker),
      l.statement?.isSome)
    (hhere : (Line.codeStatements (Line.ofText sections text))[n]? = some here)
    (hbranch : isBranch here.2.mnemonic) (hoperand : here.2.operands.head? = some name) :
    let statements := Line.codeStatements (Line.ofText sections text)
    let start := (Line.codeStatements before).length
    ∃ (f : Feature) (target : Statement),
      (extractFeatures .sectionLinear (Listing.parse sections text).blocks)[n]? = some f ∧
      f.mnemonic = here.2.mnemonic ∧
      (Line.label name content :: after).findSome? Line.statement? = some target ∧
      statements[start]? = some (code, target) ∧
      (here.1 = code →
        f.vector.branch = distance (indexIn code statements n) (indexIn code statements start) ∧
        (text.length < 2 ^ 63 → f.vector.branch.toInt =
          (indexIn code statements start : Int) - indexIn code statements n)) ∧
      (here.1 ≠ code → f.vector.branch = 0) := by
  intro statements start
  have hwf := Listing.wellFormed_parse sections text
  have hstatements : (Listing.parse sections text).blocks.flatMap Block.statements = statements :=
    Listing.statements_parse sections text
  obtain ⟨bs, b, rest, hblocks, rfl, hlabel, hnone, hbefore⟩ :=
    Listing.exists_block_of_label hlines hcode hfirst hfollowed
  have hplain' : ∀ b ∈ (Listing.parse sections text).blocks, ∀ i ∈ b.instructions,
      i.address = none := fun b hb i hi => hplain i (List.mem_flatMap.mpr ⟨b, hb, hi⟩)
  have hnumbered : ∀ b ∈ (Listing.parse sections text).blocks, b.Numbered := fun b hb =>
    (hwf.blocks b hb).1.position
  -- the branch where it stands
  obtain ⟨o, ho, rfl⟩ : ∃ o, (occurrences (Listing.parse sections text).blocks)[n]? = some o ∧
      o.statement = here := by
    rwa [← Listing.statements_parse, ← map_statement_occurrences, List.getElem?_map,
      Option.map_eq_some_iff] at hhere
  have hlinear := linear_eq_indexIn hnumbered ho
  rw [hstatements] at hlinear
  -- the first instruction behind the label
  obtain ⟨target, others, htarget, hfrom⟩ := Line.exists_first_statement b.sectionName hfollowed
  have hsplit : statements = Line.codeStatements before ++ (b.sectionName, target) :: others := by
    rw [← hfrom, ← hcode, ← Line.codeStatements_append, ← hlines]
  have hstart : sectionLength bs b.sectionName = indexIn b.sectionName statements start := by
    rw [sectionLength_eq_countP, hbefore, indexIn, hsplit, List.take_left]
  -- what the branch names
  have hresolve := (TargetIndex.resolve?_of_plain hplain' hname hoperand).trans
    (hblocks ▸ TargetIndex.byLabel_of_first hlabel hnone)
  have hoffset : branchOffset .sectionLinear
      (TargetIndex.ofPlaced (placeBlocks (Listing.parse sections text).blocks))
      (o.site (Listing.parse sections text).blocks) o.instruction = _ :=
    branchOffset_of_resolve? hbranch hresolve
  refine ⟨_, target, by rw [extractFeatures_eq, List.getElem?_map, ho, Option.map_some], rfl,
    htarget, by rw [hsplit]; simp [start], ?_, ?_⟩
  · intro hsame
    have hsite : (featureOf .sectionLinear _ (o.place _) o.instruction).vector.branch =
        distance (o.site (Listing.parse sections text).blocks).linear
          (sectionLength bs b.sectionName) := hoffset.trans (if_pos hsame)
    change o.block.sectionName = b.sectionName at hsame
    rw [hlinear, hstart, hsame] at hsite
    refine ⟨hsite, fun hlen => ?_⟩
    have hcount : statements.length ≤ text.length :=
      Line.length_codeStatements_le sections text
    have hle := indexIn_le b.sectionName statements
    rw [hsite, toInt_distance (Nat.lt_of_le_of_lt (hle n) (by omega))
      (Nat.lt_of_le_of_lt (hle start) (by omega))]
  · intro hother
    exact hoffset.trans (if_neg hother)

/-- The second of two labels over a skipped line, a blank line and a third label; its name is also a
    hexadecimal number. -/
theorem branchOffset_to_label_stacked :
    let text := ".text\nb abc\nnop\nold:\nabc:\n.align 2\n\nend: nop\n"
    let l := Listing.parse [".text"] text
    (∀ i ∈ l.instructions, i.address = none) ∧
    (Line.codeLabels (Line.ofText [".text"] text)).count "abc" = 1 ∧
    ∃ f, (extractFeatures .sectionLinear l.blocks)[0]? = some f ∧ f.mnemonic = "b" ∧
      f.vector.branch.toInt = 2 := by
  intro text l
  have hplain : ∀ i ∈ l.instructions, i.address = none := by decide +kernel
  have hlines : Line.ofText [".text"] text =
      [.marker (some ".text"), .content (.instruction ⟨none, "b", ["abc"]⟩),
        .content (.instruction ⟨none, "nop", []⟩), .label "old" none] ++
      .label "abc" none ::
      [.content .unknown, .blank, .label "end" (some (.instruction ⟨none, "nop", []⟩))] := by
    decide +kernel
  have hcode : Line.sectionAfter [.marker (some ".text"),
      .content (.instruction ⟨none, "b", ["abc"]⟩), .content (.instruction ⟨none, "nop", []⟩),
      .label "old" none] = some ".text" := rfl
  have hhere : (Line.codeStatements (Line.ofText [".text"] text))[0]? =
      some (".text", ⟨none, "b", ["abc"]⟩) := by decide +kernel
  refine ⟨hplain, by decide +kernel, ?_⟩
  obtain ⟨f, _, hf, hmnemonic, _, _, hsame, _⟩ :=
    branchOffset_to_label hplain (by decide +kernel) hlines hcode (by decide +kernel)
      (by decide +kernel) hhere (by decide +kernel) (by decide +kernel)
  refine ⟨f, hf, hmnemonic, ?_⟩
  rw [(hsame rfl).2 (by decide +kernel)]
  decide +kernel

end FirmwareMatch
