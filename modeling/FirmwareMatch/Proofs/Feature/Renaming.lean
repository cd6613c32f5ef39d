import Mathlib
import FirmwareMatch.Proofs.Feature.Relocation
import FirmwareMatch.Proofs.Listing.Source

/-
  A listing whose labels have other names.

  Two listings correspond if they agree in all that extraction copies or counts, their labels are
  related in pairs by one relation, and so are the operands at which their branches look
  (`Block.Corresponds`). Corresponding blocks stand at the same places, and the two indexes name
  the same place at every address, and under two names that label the same blocks
  (`TargetIndex.Alike`). It remains to follow a renamed operand through the look-up: its first word
  and its annotation.

  A name that is also a number is left out: a branch looks for the number first, and the new name
  is none. The names of labels that occur several times or nowhere are treated like the others,
  for nothing is asked of them but that different names stay different.

  Proved:
  * `forall₂_placeBlocks`: corresponding blocks stand at the same places.
  * `alike_ofPlaced`: the indexes of corresponding listings.
  * `ofOperand?_annotated`: what an operand with an annotation names.
  * `ofOperand?_renamed`: a renamed operand names the same place.
  * `extractFeatures_rename`: the features do not depend on the names of labels, nor on operands
    at which no branch looks.
-/

namespace FirmwareMatch

open Text

/-! ## Corresponding listings -/

/-- Instructions that differ in their operands only. If they are branches, their first operands are
    related. -/
structure Instruction.Corresponds (R : String → String → Prop) (i i' : Instruction) : Prop where
  mnemonic : i'.mnemonic = i.mnemonic
  position : i'.position = i.position
  address : i'.address = i.address
  target : isBranch i.mnemonic → Option.Rel R i.operands.head? i'.operands.head?

/-- Blocks with corresponding instructions whose labels are related in pairs. -/
structure Block.Corresponds (L R : String → String → Prop) (b b' : Block) : Prop where
  sectionName : b'.sectionName = b.sectionName
  index : b'.index = b.index
  label : Option.Rel L b.label b'.label
  aliases : List.Forall₂ L b.aliases b'.aliases
  instructions : List.Forall₂ (Instruction.Corresponds R) b.instructions b'.instructions

/-- Corresponding blocks at the same place. -/
structure PlacedBlock.Corresponds (L R : String → String → Prop) (p p' : PlacedBlock) : Prop where
  block : p.block.Corresponds L R p'.block
  number : p'.number = p.number
  base : p'.base = p.base

/-- Names that label the same blocks: the labels that are `x` in the one listing are `x'` in the
    other. -/
def SameLabel (L : String → String → Prop) (x x' : String) : Prop :=
  ∀ n n', L n n' → (n = x ↔ n' = x')

section Corresponds

variable {L R : String → String → Prop}

theorem forall₂_toList {o o' : Option String} (h : Option.Rel L o o') :
    List.Forall₂ L o.toList o'.toList := by
  cases h with
  | none => exact .nil
  | some hname => exact .cons hname .nil

theorem Block.Corresponds.labels {b b' : Block} (h : b.Corresponds L R b') :
    List.Forall₂ L b.labels b'.labels :=
  List.rel_append h.aliases (forall₂_toList h.label)

theorem contains_of_sameLabel {names names' : List String} (h : List.Forall₂ L names names')
    {x x' : String} (hx : SameLabel L x x') : names'.contains x' = names.contains x := by
  induction h with
  | nil => rfl
  | @cons n n' _ _ hn _ ih =>
    rw [List.contains_cons, List.contains_cons, ih, Bool.eq_iff_iff]
    simp only [Bool.or_eq_true, beq_iff_eq, eq_comm (a := x), eq_comm (a := x'), hx n n' hn]

section Instructions

variable {is is' : List Instruction} (h : List.Forall₂ (Instruction.Corresponds R) is is')

include h

theorem bind_address_head? :
    is'.head?.bind Instruction.address = is.head?.bind Instruction.address := by
  cases h with
  | nil => rfl
  | cons hi _ => exact hi.address

/-- The first instruction at an address has the same position. -/
theorem map_position_find? (a : UInt64) :
    (is'.find? fun i => i.address == some a).map Instruction.position =
      (is.find? fun i => i.address == some a).map Instruction.position := by
  induction h with
  | nil => rfl
  | @cons i i' _ _ hi _ ih =>
    rw [List.find?_cons, List.find?_cons, hi.address]
    cases i.address == some a with
    | false => exact ih
    | true => exact congrArg some hi.position

end Instructions

/-! ## Places -/

/-- Blocks that were placed so far correspond, and the next block finds the same totals. -/
theorem placed_foldl_add {bs bs' : List Block} (h : List.Forall₂ (Block.Corresponds L R) bs bs')
    {p p' : Placement}
    (hplaced : List.Forall₂ (PlacedBlock.Corresponds L R) p.placed.toList p'.placed.toList)
    (htotals : p'.totals = p.totals) :
    List.Forall₂ (PlacedBlock.Corresponds L R) (bs.foldl Placement.add p).placed.toList
      (bs'.foldl Placement.add p').placed.toList := by
  induction h generalizing p p' with
  | nil => exact hplaced
  | @cons b b' bs bs' hb _ ih =>
    have hsize : p'.placed.size = p.placed.size := hplaced.length_eq.symm
    have hlength : b'.instructions.length = b.instructions.length := hb.instructions.length_eq.symm
    rw [List.foldl_cons, List.foldl_cons]
    apply ih
    · simp only [Placement.add, Array.toList_push]
      refine List.rel_append hplaced (.cons ⟨hb, hsize, ?_⟩ .nil)
      rw [htotals, hb.sectionName]
    · simp only [Placement.add, htotals, hb.sectionName, hlength]

/-- Corresponding blocks stand at the same places. -/
theorem forall₂_placeBlocks {blocks blocks' : List Block}
    (h : List.Forall₂ (Block.Corresponds L R) blocks blocks') :
    List.Forall₂ (PlacedBlock.Corresponds L R) (placeBlocks blocks) (placeBlocks blocks') :=
  placed_foldl_add h .nil rfl

namespace PlacedBlock.Corresponds

variable {p p' : PlacedBlock} (h : p.Corresponds L R p')

include h

theorem site_eq : p'.site = p.site := by
  unfold site
  rw [h.number, h.base, h.block.sectionName]

theorem siteAt?_eq (a : UInt64) : p'.siteAt? a = p.siteAt? a := by
  have hfind := congrArg (Option.map p.site) (map_position_find? h.block.instructions a)
  rw [Option.map_map, Option.map_map] at hfind
  unfold siteAt?
  rw [h.site_eq]
  exact hfind

theorem siteOf?_eq {x x' : String} (hx : SameLabel L x x') : p'.siteOf? x' = p.siteOf? x := by
  unfold siteOf?
  rw [contains_of_sameLabel h.block.labels hx, h.site_eq]

theorem baseOf?_eq {x x' : String} (hx : SameLabel L x x') : p'.baseOf? x' = p.baseOf? x := by
  unfold baseOf?
  rw [contains_of_sameLabel h.block.labels hx, bind_address_head? h.block.instructions]

end PlacedBlock.Corresponds

/-! ## Indexes -/

/-- Indexes that name the same place at every address, and under two names that label the same
    blocks. -/
structure TargetIndex.Alike (L : String → String → Prop) (t t' : TargetIndex) : Prop where
  byAddress : ∀ a : UInt64, t'.byAddress[a]? = t.byAddress[a]?
  byLabel : ∀ x x' : String, SameLabel L x x' → t'.byLabel[x']? = t.byLabel[x]?
  labelAddress : ∀ x x' : String, SameLabel L x x' → t'.labelAddress[x']? = t.labelAddress[x]?

/-- What is found first among related elements is the same if it is the same in each pair. -/
theorem findSome?_forall₂ {α β γ : Type} {r : α → β → Prop} {f : α → Option γ} {g : β → Option γ}
    (hfg : ∀ x y, r x y → g y = f x) {xs : List α} {ys : List β} (h : List.Forall₂ r xs ys) :
    ys.findSome? g = xs.findSome? f := by
  induction h with
  | nil => rfl
  | cons hxy _ ih => rw [List.findSome?_cons, List.findSome?_cons, hfg _ _ hxy, ih]

/-- The indexes of corresponding listings. -/
theorem alike_ofPlaced {ps ps' : List PlacedBlock}
    (h : List.Forall₂ (PlacedBlock.Corresponds L R) ps ps') :
    TargetIndex.Alike L (.ofPlaced ps) (.ofPlaced ps') := by
  refine ⟨fun a => ?_, fun x x' hx => ?_, fun x x' hx => ?_⟩
  · rw [TargetIndex.getElem?_byAddress_ofPlaced, TargetIndex.getElem?_byAddress_ofPlaced]
    exact findSome?_forall₂ (fun p p' hp => hp.siteAt?_eq a) h
  · rw [TargetIndex.getElem?_byLabel_ofPlaced, TargetIndex.getElem?_byLabel_ofPlaced]
    exact findSome?_forall₂ (fun p p' hp => hp.siteOf?_eq hx) h
  · rw [TargetIndex.getElem?_labelAddress_ofPlaced, TargetIndex.getElem?_labelAddress_ofPlaced]
    exact findSome?_forall₂ (fun p p' hp => hp.baseOf?_eq hx) h

/-! ## Features of corresponding listings -/

theorem resolve?_of_corresponds {t t' : TargetIndex}
    (hoperand : ∀ op op', R op op' → t'.ofOperand? op'.toList = t.ofOperand? op.toList)
    {i i' : Instruction} (h : i.Corresponds R i') (hbranch : isBranch i.mnemonic) :
    t'.resolve? i' = t.resolve? i := by
  unfold TargetIndex.resolve?
  have htarget := h.target hbranch
  generalize i.operands.head? = first, i'.operands.head? = first' at htarget
  cases htarget with
  | none => rw [Option.bind_none, Option.bind_none]
  | some hop => rw [Option.bind_some, Option.bind_some, hoperand _ _ hop]

theorem featureOf_of_corresponds {t t' : TargetIndex}
    (hoperand : ∀ op op', R op op' → t'.ofOperand? op'.toList = t.ofOperand? op.toList)
    (policy : BranchPolicy) {p p' : PlacedBlock} (hp : p.Corresponds L R p') {i i' : Instruction}
    (hi : i.Corresponds R i') : featureOf policy t' p' i' = featureOf policy t p i := by
  have hoffset : branchOffset policy t' (p'.site i'.position) i' =
      branchOffset policy t (p.site i.position) i := by
    unfold branchOffset
    rw [hi.mnemonic, hp.site_eq, hi.position]
    split
    · rename_i hbranch
      rw [resolve?_of_corresponds hoperand hi hbranch]
    · rfl
  unfold featureOf
  rw [hoffset, hi.mnemonic, hi.position, hp.block.index]

/-- Corresponding listings have the same features if the operands of their branches name the same
    places. -/
theorem extractFeatures_of_corresponds {blocks blocks' : List Block}
    (h : List.Forall₂ (Block.Corresponds L R) blocks blocks')
    (hoperand : ∀ t t' : TargetIndex, t.Alike L t' → ∀ op op', R op op' →
      t'.ofOperand? op'.toList = t.ofOperand? op.toList) (policy : BranchPolicy) :
    extractFeatures policy blocks' = extractFeatures policy blocks := by
  have hplaced := forall₂_placeBlocks h
  have hindex := alike_ofPlaced hplaced
  have hrel : List.Forall₂ Eq (extractFeatures policy blocks) (extractFeatures policy blocks') := by
    refine List.rel_flatMap hplaced fun p p' hp => ?_
    rw [List.forall₂_map_left_iff, List.forall₂_map_right_iff]
    exact hp.block.instructions.imp fun i i' hi =>
      (featureOf_of_corresponds (hoperand _ _ hindex) policy hp hi).symm
  rw [List.forall₂_eq_eq_eq] at hrel
  exact hrel.symm

end Corresponds

/-! ## Annotated operands -/

theorem trimStart_append_angle (front rest : List Char) :
    trimStart (front ++ '<' :: rest) = trimStart front ++ '<' :: rest := by
  unfold trimStart
  rw [List.dropWhile_append]
  split
  · rename_i hempty
    rw [List.isEmpty_iff.mp hempty]
    rfl
  · rfl

/-- The number in front of a bracket does not depend on what follows. -/
theorem readAddress?_headWord_angle (front rest rest' : List Char) :
    readAddress? (headWord (front ++ '<' :: rest)) =
      readAddress? (headWord (front ++ '<' :: rest')) := by
  have hnone : ∀ w tail : List Char, readAddress? (w ++ '<' :: tail) = none := by
    intro w tail
    rw [Option.eq_none_iff_forall_ne_some]
    intro a h
    exact not_mem_of_readAddress? h (by simp)
  have hangle : ∀ tail : List Char, ('<' :: tail).takeWhile (!isBlank ·) =
      '<' :: tail.takeWhile (!isBlank ·) := fun _ => rfl
  unfold headWord
  rw [trimStart_append_angle, trimStart_append_angle, List.takeWhile_append,
    List.takeWhile_append]
  -- without a blank in between the first word holds the bracket and is no number
  split
  · rw [hangle, hangle, hnone, hnone]
  · rfl

/-- An annotation at the end of an operand holds all that stands between its brackets. -/
theorem annotation?_trim_angle {front : List Char} (hfront : '<' ∉ front) (symbol : List Char) :
    annotation? (trim (front ++ '<' :: (symbol ++ ['>']))) = some symbol := by
  have hstart : '<' ∉ trimStart front := fun hmem =>
    hfront ((List.dropWhile_suffix isBlank).subset hmem)
  have htrim : trim (front ++ '<' :: (symbol ++ ['>'])) =
      trimStart front ++ '<' :: (symbol ++ ['>']) := by
    unfold trim
    rw [trimStart_append_angle, ← List.cons_append, ← List.append_assoc,
      trimEnd_append_solid _ (by decide)]
  have hcut : cut? (· == '<') ('<' :: (symbol ++ ['>'])) = some ([], symbol ++ ['>']) := rfl
  rw [htrim, annotation?_word_append hstart]
  unfold annotation?
  rw [hcut]
  simp

/-- An operand with an annotation names what the number in front names, or else the symbol. -/
theorem TargetIndex.ofOperand?_annotated (t : TargetIndex) {front : List Char} (h : '<' ∉ front)
    (symbol : List Char) :
    t.ofOperand? (front ++ '<' :: (symbol ++ ['>'])) =
      ((readAddress? (headWord (front ++ ['<']))).bind fun a => t.byAddress[a]?).or
        (t.ofSymbol? symbol) := by
  rw [ofOperand?_eq, annotation?_trim_angle h, readAddress?_headWord_angle front _ []]

/-! ## Names -/

/-- A name that a label can have and that a branch does not take for a number. -/
@[ext] structure LabelName where
  text : String
  isIdentifier : Line.isIdentifier text.toList
  isNoNumber : readAddress? text.toList = none
deriving DecidableEq

/-- A name and the one that a renaming gives it. -/
inductive Renamed (f : LabelName → LabelName) : String → String → Prop
  | intro (n : LabelName) : Renamed f n.text (f n).text

/-- The first operand of a branch before and after a renaming: an operand without a name, such as a
    number; a name; or an annotation `<name>` or `<name+offset>` behind anything without a bracket,
    such as an address, or behind nothing. -/
inductive RenamedOperand (f : LabelName → LabelName) : String → String → Prop
  | unnamed (operand : String) (hangle : '<' ∉ operand.toList)
      (hword : ∀ n : LabelName, n.text.toList ≠ headWord operand.toList) :
      RenamedOperand f operand operand
  | label (n : LabelName) : RenamedOperand f n.text (f n).text
  | annotation (front : String) (n : LabelName) (hfront : '<' ∉ front.toList) :
      RenamedOperand f (front ++ "<" ++ n.text ++ ">") (front ++ "<" ++ (f n).text ++ ">")
  | offset (front : String) (n : LabelName) (more : String) (hfront : '<' ∉ front.toList) :
      RenamedOperand f (front ++ "<" ++ n.text ++ "+" ++ more ++ ">")
        (front ++ "<" ++ (f n).text ++ "+" ++ more ++ ">")

/-- Blocks before and after a renaming of their labels and of what their branches name. Operands at
    which no branch looks may be anything. -/
def RenamedBlocks (f : LabelName → LabelName) : List Block → List Block → Prop :=
  List.Forall₂ (Block.Corresponds (Renamed f) (RenamedOperand f))

/-- Blocks that differ only in operands of instructions that are no branches, and in operands of
    branches behind the first. -/
def SameTargets : List Block → List Block → Prop :=
  List.Forall₂ (Block.Corresponds Eq Eq)

namespace LabelName

variable (n : LabelName)

theorem not_mem_text {c : Char} (h : isNameChar c = false) : c ∉ n.text.toList := by
  intro hc
  rw [(forall_mem_of_isIdentifier n.isIdentifier).2 c hc] at h
  exact absurd h (by decide)

theorem headWord_text : headWord n.text.toList = n.text.toList := by
  obtain ⟨hne, hchars⟩ := forall_mem_of_isIdentifier n.isIdentifier
  have hblank : ∀ c ∈ n.text.toList, isBlank c = false := fun c hc =>
    (isNameChar_properties (hchars c hc)).1
  exact headWord_of_solid hne hblank

end LabelName

/-- A number is an operand without a name. -/
theorem RenamedOperand.of_number (f : LabelName → LabelName) {operand : String}
    (h : (readAddress? operand.toList).isSome) : RenamedOperand f operand operand := by
  obtain ⟨a, ha⟩ := Option.isSome_iff_exists.mp h
  have hchars := forall_mem_of_readAddress? ha
  have hblank : ∀ c ∈ operand.toList, isBlank c = false := by
    intro c hc
    rcases hchars c hc with hc | rfl
    · exact isBlank_of_isAlphanum hc
    · decide
  have hne : operand.toList ≠ [] := by
    intro hnil
    rw [hnil] at ha
    exact absurd ha (by simp [readAddress?, readHex64?, readHex?, isHex])
  refine .unnamed operand (not_mem_of_readAddress? ha) fun n hn => ?_
  have hnone := n.isNoNumber
  rw [hn, headWord_of_solid hne hblank, ha] at hnone
  exact absurd hnone (by simp)

/-- Different names stay different. -/
theorem sameLabel_renamed {f : LabelName → LabelName} (hf : f.Injective) (n : LabelName) :
    SameLabel (Renamed f) n.text (f n).text := by
  rintro _ _ ⟨m⟩
  rw [← LabelName.ext_iff, ← LabelName.ext_iff, hf.eq_iff]

/-- What is no name labels nothing. -/
theorem sameLabel_unnamed {f : LabelName → LabelName} {w : String}
    (h : ∀ n : LabelName, n.text ≠ w) : SameLabel (Renamed f) w w := by
  rintro _ _ ⟨m⟩
  exact iff_of_false (h m) (h (f m))

/-! ## Renamed operands -/

namespace TargetIndex

section Names

variable (t : TargetIndex) (n : LabelName)

/-- A name as an operand names the label. -/
theorem ofOperand?_text : t.ofOperand? n.text.toList = t.byLabel[n.text]? := by
  rw [ofOperand?_unannotated t (n.not_mem_text (by decide)), n.headWord_text, n.isNoNumber,
    Option.bind_none, Option.none_or, ofLabel?, String.ofList_toList]

theorem ofSymbol?_text : t.ofSymbol? n.text.toList = t.byLabel[n.text]? := by
  unfold ofSymbol?
  rw [cut?_eq_none (beq_eq_false_of_not_mem (n.not_mem_text (by decide)))]
  exact congrArg (t.byLabel[·]?) String.ofList_toList

theorem ofSymbol?_offset (more : List Char) :
    t.ofSymbol? (n.text.toList ++ '+' :: more) =
      (readAddress? (trim more)).bind fun offset =>
        if offset == 0 then t.byLabel[n.text]?
        else t.labelAddress[n.text]?.bind fun base =>
          (addAddress? base offset).bind fun a => t.byAddress[a]? := by
  unfold ofSymbol?
  rw [cut?_append more (beq_eq_false_of_not_mem (n.not_mem_text (by decide))) rfl]
  simp only [ofLabel?, String.ofList_toList]

end Names

/-- A renamed operand names the same place. -/
theorem ofOperand?_renamed {f : LabelName → LabelName} (hf : f.Injective) {t t' : TargetIndex}
    (h : t.Alike (Renamed f) t') {op op' : String} (hop : RenamedOperand f op op') :
    t'.ofOperand? op'.toList = t.ofOperand? op.toList := by
  have hlabel : ∀ n, t'.byLabel[(f n).text]? = t.byLabel[n.text]? := fun n =>
    h.byLabel _ _ (sameLabel_renamed hf n)
  have hbase : ∀ n, t'.labelAddress[(f n).text]? = t.labelAddress[n.text]? := fun n =>
    h.labelAddress _ _ (sameLabel_renamed hf n)
  -- annotated operands have the same front, so it is enough to follow their symbols
  have hannotated : ∀ {front : String} (symbol symbol' : String), '<' ∉ front.toList →
      t'.ofSymbol? symbol'.toList = t.ofSymbol? symbol.toList →
      t'.ofOperand? (front ++ "<" ++ symbol' ++ ">").toList =
        t.ofOperand? (front ++ "<" ++ symbol ++ ">").toList := by
    intro front symbol symbol' hfront hsymbol
    have hlist : ∀ s : String, (front ++ "<" ++ s ++ ">").toList =
        front.toList ++ '<' :: (s.toList ++ ['>']) := fun s => by simp
    rw [hlist, hlist, ofOperand?_annotated t' hfront, ofOperand?_annotated t hfront, hsymbol]
    simp only [h.byAddress]
  cases hop with
  | unnamed operand hangle hword =>
    have hunnamed : SameLabel (Renamed f) (String.ofList (headWord op.toList))
        (String.ofList (headWord op.toList)) :=
      sameLabel_unnamed fun n hn => hword n (by rw [hn, String.toList_ofList])
    rw [ofOperand?_unannotated t' hangle, ofOperand?_unannotated t hangle]
    simp only [h.byAddress, ofLabel?, h.byLabel _ _ hunnamed]
  | label n => rw [ofOperand?_text, ofOperand?_text, hlabel]
  | annotation front n hfront =>
    exact hannotated _ _ hfront (by rw [ofSymbol?_text, ofSymbol?_text, hlabel])
  | offset front n more hfront =>
    have hlist : ∀ n : LabelName, (n.text ++ "+" ++ more).toList =
        n.text.toList ++ '+' :: more.toList := fun n => by simp
    have hsymbol : t'.ofSymbol? ((f n).text ++ "+" ++ more).toList =
        t.ofSymbol? (n.text ++ "+" ++ more).toList := by
      rw [hlist, hlist, ofSymbol?_offset, ofSymbol?_offset]
      simp only [hlabel, hbase, h.byAddress]
    simpa only [String.append_assoc] using hannotated _ _ hfront hsymbol

/-- The same operand names the same place if all labels have kept their names. -/
theorem ofOperand?_of_alike_eq {t t' : TargetIndex} (h : t.Alike Eq t') (op : List Char) :
    t'.ofOperand? op = t.ofOperand? op := by
  have hsame : ∀ x, SameLabel Eq x x := fun x n n' hn => by rw [hn]
  simp only [ofOperand?_eq, ofSymbol?, ofLabel?, h.byAddress, h.byLabel _ _ (hsame _),
    h.labelAddress _ _ (hsame _)]

end TargetIndex

/-! ## Features -/

/-- Features depend neither on the names of labels nor on operands at which no branch looks: every
    renaming that keeps different names different gives the same features, and so does every change
    of operands of other instructions, or of operands of branches behind the first. -/
theorem extractFeatures_rename (policy : BranchPolicy) (blocks blocks' : List Block) :
    (∀ f : LabelName → LabelName, f.Injective → RenamedBlocks f blocks blocks' →
      extractFeatures policy blocks' = extractFeatures policy blocks) ∧
    (SameTargets blocks blocks' →
      extractFeatures policy blocks' = extractFeatures policy blocks) := by
  constructor
  · intro f hf h
    exact extractFeatures_of_corresponds h
      (fun t t' ht op op' hop => TargetIndex.ofOperand?_renamed hf ht hop) policy
  · intro h
    refine extractFeatures_of_corresponds h (fun t t' ht op op' hop => ?_) policy
    rw [hop]
    exact TargetIndex.ofOperand?_of_alike_eq ht _

/-- A label of two blocks exchanges names with a branch to nowhere; then the operands of a load are
    dropped. -/
theorem extractFeatures_rename_exchanged :
    let start : LabelName := ⟨"start", by decide +kernel, by decide +kernel⟩
    let done : LabelName := ⟨"done", by decide +kernel, by decide +kernel⟩
    let exit : LabelName := ⟨"exit", by decide +kernel, by decide +kernel⟩
    let f : LabelName → LabelName := Equiv.swap start exit
    let listing (label nowhere : LabelName) (loaded : List String) : List Block :=
      [⟨".text", 0, some label.text, [],
        [⟨"nop", [], 0, some 0x8000⟩,
          ⟨"bne", ["8000 " ++ "<" ++ label.text ++ ">"], 1, some 0x8004⟩,
          ⟨"ldr", loaded, 2, some 0x8008⟩, ⟨"bl", [nowhere.text], 3, some 0x800c⟩]⟩,
       ⟨".text", 1, some done.text, [label.text],
        [⟨"b", ["" ++ "<" ++ label.text ++ "+" ++ "0x4" ++ ">"], 0, some 0x8010⟩,
          ⟨"b", ["0x8010"], 1, some 0x8014⟩]⟩]
    f.Injective ∧
    RenamedBlocks f (listing start exit ["r0", "=done"]) (listing exit start ["r0", "=done"]) ∧
    SameTargets (listing exit start ["r0", "=done"]) (listing exit start []) ∧
    (extractFeatures .sectionLinear (listing exit start [])).map (fun f => f.vector.branch) =
      [0, -1, 0, 0, -3, -1] := by
  intro start done exit f listing
  have hf : f.Injective := (Equiv.swap start exit).injective
  have hstart : f start = exit := Equiv.swap_apply_left start exit
  have hexit : f exit = start := Equiv.swap_apply_right start exit
  have hdone : f done = done :=
    Equiv.swap_apply_of_ne_of_ne (by decide +kernel) (by decide +kernel)
  have hload : ¬ isBranch "ldr" := by decide
  have hrenamed : RenamedBlocks f (listing start exit ["r0", "=done"])
      (listing exit start ["r0", "=done"]) := by
    have hlabel : Renamed f start.text exit.text := hstart ▸ .intro start
    have hkept : Renamed f done.text done.text := hdone ▸ .intro done
    have hbne := RenamedOperand.annotation (f := f) "8000 " start (by decide +kernel)
    have hbl := RenamedOperand.label (f := f) exit
    have hoffset := RenamedOperand.offset (f := f) "" start "0x4" (by decide +kernel)
    have hnumber : RenamedOperand f "0x8010" "0x8010" := .of_number f (by decide +kernel)
    rw [hstart] at hbne hoffset
    rw [hexit] at hbl
    exact .cons ⟨rfl, rfl, .some hlabel, .nil,
        .cons ⟨rfl, rfl, rfl, fun _ => .none⟩ <| .cons ⟨rfl, rfl, rfl, fun _ => .some hbne⟩ <|
        .cons ⟨rfl, rfl, rfl, fun h => absurd h hload⟩ <|
        .cons ⟨rfl, rfl, rfl, fun _ => .some hbl⟩ .nil⟩ <|
      .cons ⟨rfl, rfl, .some hkept, .cons hlabel .nil,
        .cons ⟨rfl, rfl, rfl, fun _ => .some hoffset⟩ <|
        .cons ⟨rfl, rfl, rfl, fun _ => .some hnumber⟩ .nil⟩ .nil
  have hsame : SameTargets (listing exit start ["r0", "=done"]) (listing exit start []) :=
    .cons ⟨rfl, rfl, .some rfl, .nil,
        .cons ⟨rfl, rfl, rfl, fun _ => .none⟩ <| .cons ⟨rfl, rfl, rfl, fun _ => .some rfl⟩ <|
        .cons ⟨rfl, rfl, rfl, fun h => absurd h hload⟩ <|
        .cons ⟨rfl, rfl, rfl, fun _ => .some rfl⟩ .nil⟩ <|
      .cons ⟨rfl, rfl, .some rfl, .cons rfl .nil,
        .cons ⟨rfl, rfl, rfl, fun _ => .some rfl⟩ <|
        .cons ⟨rfl, rfl, rfl, fun _ => .some rfl⟩ .nil⟩ .nil
  refine ⟨hf, hrenamed, hsame, ?_⟩
  rw [(extractFeatures_rename .sectionLinear _ _).2 hsame,
    (extractFeatures_rename .sectionLinear _ _).1 f hf hrenamed]
  decide +kernel

end FirmwareMatch
