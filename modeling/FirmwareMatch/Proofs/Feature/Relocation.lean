import Mathlib
import FirmwareMatch.Proofs.Feature.Placement
import FirmwareMatch.Proofs.Feature.Targets
import FirmwareMatch.Proofs.Text.Pieces

/-
  A listing that is loaded at another address.

  Its addresses are shifted, and with them the numbers at which its branches aim. The index of the
  shifted listing names at a shifted address what the index of the listing names at the address
  (`TargetIndex.Relocated`), so every branch resolves to the same place. An operand that starts with
  a number keeps its annotation, and where the annotation is the last resort, both listings look it
  up under the same name; offsets from a label count from the shifted address of the label.

  Labels that are numbers themselves are left out: such a label is found by the number only, and the
  shifted number is another name.

  Proved:
  * `readAddress?_hexText`: a number is read back from its digits behind `0x`.
  * `relocated_ofPlaced`: the indexes of a listing and of the shifted one.
  * `ofOperand?_relocate`: an operand and the shifted one name the same place.
  * `extractFeatures_relocate`: the features do not depend on the load address.
-/

namespace FirmwareMatch

open Std Text

/-! ## Numbers -/

/-- The address `δ` bytes further on. -/
def shiftAddress (δ : Nat) (a : UInt64) : UInt64 :=
  UInt64.ofNat (a.toNat + δ)

/-- A number in hexadecimal digits behind `0x`. -/
def hexText (n : Nat) : List Char :=
  '0' :: 'x' :: Nat.toDigits 16 n

theorem toNat_shiftAddress {δ : Nat} {a : UInt64} (h : a.toNat + δ < UInt64.size) :
    (shiftAddress δ a).toNat = a.toNat + δ := by
  unfold shiftAddress
  rw [UInt64.toNat_ofNat', Nat.mod_eq_of_lt h]

theorem shiftAddress_inj {δ : Nat} {a b : UInt64} (ha : a.toNat + δ < UInt64.size)
    (hb : b.toNat + δ < UInt64.size) (h : shiftAddress δ a = shiftAddress δ b) : a = b := by
  have hnat := congrArg UInt64.toNat h
  rw [toNat_shiftAddress ha, toNat_shiftAddress hb] at hnat
  exact UInt64.toNat_inj.mp (Nat.add_right_cancel hnat)

theorem hexValue_digitChar {d : Nat} (h : d < 16) :
    isHexDigit (Nat.digitChar d) ∧ hexValue (Nat.digitChar d) = d := by
  have hall : ∀ d < 16, isHexDigit (Nat.digitChar d) ∧ hexValue (Nat.digitChar d) = d := by decide
  exact hall d h

theorem hexNat_concat (cs : List Char) (c : Char) :
    hexNat (cs ++ [c]) = 16 * hexNat cs + hexValue c := by
  simp [hexNat]

/-- The digits of a number are hexadecimal and have its value. -/
theorem hexNat_toDigits (n : Nat) :
    (Nat.toDigits 16 n).all isHexDigit ∧ hexNat (Nat.toDigits 16 n) = n := by
  induction n using Nat.strongRecOn with
  | ind n ih =>
    by_cases h : n < 16
    · obtain ⟨hdigit, hvalue⟩ := hexValue_digitChar h
      rw [Nat.toDigits_of_lt_base h]
      exact ⟨by simp [hdigit], by simp [hexNat, hvalue]⟩
    · obtain ⟨hdigits, hhigh⟩ := ih (n / 16) (by omega)
      obtain ⟨hdigit, hlow⟩ := hexValue_digitChar (Nat.mod_lt n (by decide : 0 < 16))
      rw [Nat.toDigits_of_base_le (by decide) (by omega), hexNat_concat, hhigh, hlow]
      refine ⟨by simp [hdigits, hdigit], by omega⟩

theorem readHex64?_toDigits {n : Nat} (h : n < UInt64.size) :
    readHex64? (Nat.toDigits 16 n) = some (UInt64.ofNat n) := by
  obtain ⟨hdigits, hvalue⟩ := hexNat_toDigits n
  apply readHex64?_of_hexNat
  · simp [isHex, hdigits, Nat.toDigits_ne_nil]
  · rw [hvalue, UInt64.toNat_ofNat', Nat.mod_eq_of_lt h]

theorem readAddress?_hexText {n : Nat} (h : n < UInt64.size) :
    readAddress? (hexText n) = some (UInt64.ofNat n) :=
  readHex64?_toDigits h

theorem hexText_ne_nil (n : Nat) : hexText n ≠ [] :=
  List.cons_ne_nil _ _

theorem isBlank_of_mem_hexText {n : Nat} : ∀ c ∈ hexText n, isBlank c = false := by
  intro c hc
  simp only [hexText, List.mem_cons] at hc
  rcases hc with rfl | rfl | hc
  · decide
  · decide
  · exact isBlank_of_isAlphanum
      (isAlphanum_of_isHexDigit (List.all_eq_true.mp (hexNat_toDigits n).1 c hc))

/-! ## The first word of an operand -/

/-- The first word of an operand, at which a branch looks for a number; nothing if there is none. -/
def headWord (cs : List Char) : List Char :=
  (trimStart cs).takeWhile (!isBlank ·)

/-- What follows the first word of an operand. -/
def afterHead (cs : List Char) : List Char :=
  (trimStart cs).dropWhile (!isBlank ·)

/-- An operand is blanks, its first word and what follows. -/
theorem takeWhile_append_headWord (cs : List Char) :
    cs.takeWhile isBlank ++ (headWord cs ++ afterHead cs) = cs := by
  unfold headWord afterHead trimStart
  rw [List.takeWhile_append_dropWhile, List.takeWhile_append_dropWhile]

theorem isGap_takeWhile (cs : List Char) : IsGap (cs.takeWhile isBlank) := by
  intro c hc
  exact List.all_eq_true.mp List.all_takeWhile c hc

theorem isBlank_of_mem_headWord {cs : List Char} : ∀ c ∈ headWord cs, isBlank c = false := by
  intro c hc
  have h := List.all_eq_true.mp List.all_takeWhile c hc
  simpa using h

/-- What follows the first word starts with a blank. -/
theorem isBlank_of_head?_afterHead {cs : List Char} : ∀ c ∈ (afterHead cs).head?, isBlank c :=
  isBlank_of_head?_dropWhile (trimStart cs)

/-- A word in front keeps its place when the end is trimmed. -/
theorem trimEnd_word_append {w : List Char} (hw : ∀ c ∈ w, isBlank c = false)
    (rest : List Char) : trimEnd (w ++ rest) = w ++ trimEnd rest := by
  have hword : trimEnd w = w :=
    trimEnd_of_solid fun c hc => hw c (List.mem_of_getLast? hc)
  unfold trimEnd at hword ⊢
  rw [List.reverse_append, List.dropWhile_append]
  split
  · rename_i hempty
    rw [List.isEmpty_iff.mp hempty, hword]
    simp
  · simp

theorem trim_headed {gap w : List Char} (hgap : IsGap gap) (hne : w ≠ [])
    (hw : ∀ c ∈ w, isBlank c = false) (rest : List Char) :
    trim (gap ++ (w ++ rest)) = w ++ trimEnd rest := by
  obtain ⟨c, cs, rfl⟩ := List.exists_cons_of_ne_nil hne
  rw [trim_gap_append hgap, trim, List.cons_append,
    trimStart_cons_solid _ (hw c List.mem_cons_self), ← List.cons_append,
    trimEnd_word_append hw]

theorem head?_words_headed {w rest : List Char} (hne : w ≠ []) (hw : ∀ c ∈ w, isBlank c = false)
    (hrest : ∀ c ∈ rest.head?, isBlank c) : (words (w ++ trimEnd rest)).head? = some w := by
  have hprefix := trimEnd_prefix rest
  cases htrim : trimEnd rest with
  | nil => rw [List.append_nil, words_eq_singleton hne hw, List.head?_cons]
  | cons b bs =>
    have hb : isBlank b := by
      rw [htrim] at hprefix
      obtain ⟨tail, rfl⟩ := hprefix
      exact hrest b rfl
    have hgap : IsGap [b] := by simpa [IsGap] using hb
    have hwords := words_append_gap bs hne hw hgap (List.cons_ne_nil b [])
    rw [List.singleton_append] at hwords
    rw [hwords, List.head?_cons]

/-- The first word is the one at which a branch looks for a number. -/
theorem head_words_trim (cs : List Char) :
    (words (trim cs)).head?.getD (trim cs) = headWord cs := by
  cases h : trimStart cs with
  | nil => simp [trim, headWord, trimEnd, words, h]
  | cons c rest =>
    have hc := isBlank_of_trimStart_eq_cons h
    have hne : headWord cs ≠ [] := by simp [headWord, h, hc]
    have htrim := trim_headed (isGap_takeWhile cs) hne isBlank_of_mem_headWord (afterHead cs)
    rw [takeWhile_append_headWord] at htrim
    rw [htrim, head?_words_headed hne isBlank_of_mem_headWord isBlank_of_head?_afterHead,
      Option.getD_some]

/-- The first word of a text of blanks, a word and something set off from it. -/
theorem headWord_headed {gap w rest : List Char} (hgap : IsGap gap) (hne : w ≠ [])
    (hw : ∀ c ∈ w, isBlank c = false) (hrest : ∀ c ∈ rest.head?, isBlank c) :
    headWord (gap ++ (w ++ rest)) = w := by
  rw [← head_words_trim, trim_headed hgap hne hw, head?_words_headed hne hw hrest,
    Option.getD_some]

/-- A text without blanks is its own first word. -/
theorem headWord_of_solid {w : List Char} (hne : w ≠ []) (hw : ∀ c ∈ w, isBlank c = false) :
    headWord w = w := by
  have hheaded : headWord ([] ++ (w ++ [])) = w := headWord_headed isGap_nil hne hw (by simp)
  rwa [List.nil_append, List.append_nil] at hheaded

/-! ## Annotations -/

theorem annotation?_eq_none {cs : List Char} (h : '<' ∉ cs) : annotation? cs = none := by
  simp only [annotation?, cut?_eq_none (beq_eq_false_of_not_mem h)]

theorem cut?_word_append {sep : Char → Bool} {w : List Char} (hw : ∀ c ∈ w, sep c = false)
    (rest : List Char) :
    (cut? sep (w ++ rest)).map Prod.snd = (cut? sep rest).map Prod.snd := by
  have hpass : ∀ c ∈ w, (!sep c) = true := fun c hc => by simp [hw c hc]
  unfold cut?
  rw [List.dropWhile_append_of_pos hpass]
  split <;> rfl

/-- What stands in front of the first `<` does not matter for the annotation. -/
theorem annotation?_word_append {w : List Char} (hw : '<' ∉ w) (rest : List Char) :
    annotation? (w ++ rest) = annotation? rest := by
  have hcut := cut?_word_append (beq_eq_false_of_not_mem hw) rest
  unfold annotation?
  cases h : cut? (· == '<') (w ++ rest) with
  | none =>
    rw [h] at hcut
    rw [Option.map_eq_none_iff.mp hcut.symm]
  | some cut =>
    rw [h] at hcut
    obtain ⟨cut', h', hsnd⟩ := Option.map_eq_some_iff.mp hcut.symm
    rw [h']
    dsimp only
    rw [hsnd]

/-- A number consists of letters, digits and number signs. -/
theorem forall_mem_of_readAddress? {w : List Char} {a : UInt64} (h : readAddress? w = some a) :
    ∀ c ∈ w, c.isAlphanum ∨ c = '#' := by
  have hdigits : ∀ {cs : List Char}, readHex64? cs = some a → ∀ c ∈ cs, c.isAlphanum := by
    intro cs hread
    have hhex : isHex cs := by
      rw [← isSome_readHex?]
      unfold readHex64? at hread
      split at hread
      · rename_i n hn
        rw [hn]
        rfl
      · simp at hread
    simp only [isHex, Bool.and_eq_true, List.all_eq_true] at hhex
    exact fun c hc => isAlphanum_of_isHexDigit (hhex.2 c hc)
  have hbehind : ∀ c ∈ w.dropWhile (· == '#'), c.isAlphanum := by
    unfold readAddress? at h
    split at h
    · rename_i digits hsign
      rw [hsign]
      simpa using hdigits h
    · rename_i digits hsign
      rw [hsign]
      simpa using hdigits h
    · exact hdigits h
  intro c hc
  rw [← List.takeWhile_append_dropWhile (p := (· == '#')) (l := w), List.mem_append] at hc
  rcases hc with hsign | hc
  · exact Or.inr (by simpa using List.all_eq_true.mp List.all_takeWhile c hsign)
  · exact Or.inl (hbehind c hc)

/-- A number has no angle bracket. -/
theorem not_mem_of_readAddress? {w : List Char} {a : UInt64} (h : readAddress? w = some a) :
    '<' ∉ w := by
  intro hmem
  exact absurd (forall_mem_of_readAddress? h '<' hmem) (by decide)

/-! ## Shifted listings -/

/-- An operand whose first word is a number, with the number shifted; other operands stay as they
    are. -/
def relocateOperand (δ : Nat) (operand : String) : String :=
  let cs := operand.toList
  match readAddress? (headWord cs) with
  | some target =>
    String.ofList (cs.takeWhile isBlank ++ (hexText (target.toNat + δ) ++ afterHead cs))
  | none => operand

/-- An instruction with its address shifted, and if it is a branch, the number at which it aims. -/
def Instruction.relocate (δ : Nat) (i : Instruction) : Instruction :=
  { i with
    address := i.address.map (shiftAddress δ)
    operands :=
      if isBranch i.mnemonic then i.operands.modifyHead (relocateOperand δ) else i.operands }

/-- A block with all its instructions shifted. -/
def Block.relocate (δ : Nat) (b : Block) : Block :=
  { b with instructions := b.instructions.map (Instruction.relocate δ) }

/-- A placed block with all its instructions shifted. -/
def PlacedBlock.relocate (δ : Nat) (p : PlacedBlock) : PlacedBlock :=
  { p with block := p.block.relocate δ }

/-- 64 bits can hold all shifted addresses, those of the instructions and those at which branches
    aim. -/
structure Fits (δ : Nat) (blocks : List Block) : Prop where
  address : ∀ b ∈ blocks, ∀ i ∈ b.instructions, ∀ a ∈ i.address, a.toNat + δ < UInt64.size
  target : ∀ b ∈ blocks, ∀ i ∈ b.instructions, isBranch i.mnemonic →
    ∀ operand ∈ i.operands.head?, ∀ t ∈ readAddress? (headWord operand.toList),
      t.toNat + δ < UInt64.size

theorem relocateOperand_of_none {δ : Nat} {operand : String}
    (h : readAddress? (headWord operand.toList) = none) : relocateOperand δ operand = operand := by
  simp [relocateOperand, h]

section Operand

variable {δ : Nat} {operand : String} {target : UInt64}
  (h : readAddress? (headWord operand.toList) = some target)

include h

theorem toList_relocateOperand :
    (relocateOperand δ operand).toList =
      operand.toList.takeWhile isBlank ++
        (hexText (target.toNat + δ) ++ afterHead operand.toList) := by
  simp [relocateOperand, h]

theorem headWord_relocateOperand :
    headWord (relocateOperand δ operand).toList = hexText (target.toNat + δ) := by
  rw [toList_relocateOperand h]
  exact headWord_headed (isGap_takeWhile _) (hexText_ne_nil _) isBlank_of_mem_hexText
    isBlank_of_head?_afterHead

/-- A shifted operand keeps its annotation. -/
theorem annotation?_relocateOperand (hfits : target.toNat + δ < UInt64.size) :
    annotation? (trim (relocateOperand δ operand).toList) = annotation? (trim operand.toList) := by
  have hne : headWord operand.toList ≠ [] := by
    intro hnil
    rw [hnil] at h
    exact absurd h (by simp [readAddress?, readHex64?, readHex?, isHex])
  have htrim : trim operand.toList =
      headWord operand.toList ++ trimEnd (afterHead operand.toList) := by
    rw [← trim_headed (isGap_takeWhile _) hne isBlank_of_mem_headWord, takeWhile_append_headWord]
  rw [toList_relocateOperand h, htrim,
    trim_headed (isGap_takeWhile _) (hexText_ne_nil _) isBlank_of_mem_hexText,
    annotation?_word_append (not_mem_of_readAddress? h),
    annotation?_word_append (not_mem_of_readAddress? (readAddress?_hexText hfits))]

end Operand

theorem Instruction.head?_operands_relocate {δ : Nat} {i : Instruction}
    (h : isBranch i.mnemonic) :
    (i.relocate δ).operands.head? = i.operands.head?.map (relocateOperand δ) := by
  unfold relocate
  rw [if_pos h]
  cases i.operands <;> rfl

theorem sectionLength_relocate (δ : Nat) (blocks : List Block) (name : String) :
    sectionLength (blocks.map (Block.relocate δ)) name = sectionLength blocks name := by
  induction blocks using List.reverseRecOn with
  | nil => rfl
  | append_singleton bs b ih =>
    rw [List.map_append, List.map_singleton, sectionLength_concat, sectionLength_concat, ih]
    simp [Block.relocate]

/-- Blocks keep their places. -/
theorem placeBlocks_relocate (δ : Nat) (blocks : List Block) :
    placeBlocks (blocks.map (Block.relocate δ)) =
      (placeBlocks blocks).map (PlacedBlock.relocate δ) := by
  induction blocks using List.reverseRecOn with
  | nil => rfl
  | append_singleton bs b ih =>
    rw [List.map_append, List.map_singleton, placeBlocks_concat, placeBlocks_concat, ih,
      List.map_append, List.length_map, sectionLength_relocate]
    rfl

/-! ## Shifted indexes -/

/-- The index of the shifted listing names the same places, by names and by shifted addresses. -/
structure TargetIndex.Relocated (δ : Nat) (t t' : TargetIndex) : Prop where
  byLabel : ∀ name : String, t'.byLabel[name]? = t.byLabel[name]?
  labelAddress : ∀ name : String,
    t'.labelAddress[name]? = t.labelAddress[name]?.map (shiftAddress δ)
  byAddress : ∀ a : UInt64, a.toNat + δ < UInt64.size →
    t'.byAddress[shiftAddress δ a]? = t.byAddress[a]?
  addressFits : ∀ (a : UInt64) (site : Site), t.byAddress[a]? = some site →
    a.toNat + δ < UInt64.size
  baseFits : ∀ (name : String) (a : UInt64), t.labelAddress[name]? = some a →
    a.toNat + δ < UInt64.size

section Placed

variable {δ : Nat} {p : PlacedBlock}

theorem baseOf?_relocate (δ : Nat) (p : PlacedBlock) (name : String) :
    (p.relocate δ).baseOf? name = (p.baseOf? name).map (shiftAddress δ) := by
  have hfirst : (p.relocate δ).block.instructions.head?.bind Instruction.address =
      (p.block.instructions.head?.bind Instruction.address).map (shiftAddress δ) := by
    simp only [PlacedBlock.relocate, Block.relocate, List.head?_map]
    cases p.block.instructions.head? <;> rfl
  have hlabels : (p.relocate δ).block.labels = p.block.labels := rfl
  unfold PlacedBlock.baseOf?
  rw [hfirst, hlabels]
  split <;> rfl

theorem siteAt?_relocate
    (hp : ∀ i ∈ p.block.instructions, ∀ a ∈ i.address, a.toNat + δ < UInt64.size) {a : UInt64}
    (ha : a.toNat + δ < UInt64.size) :
    (p.relocate δ).siteAt? (shiftAddress δ a) = p.siteAt? a := by
  have hfind : p.block.instructions.find?
        ((fun i => i.address == some (shiftAddress δ a)) ∘ Instruction.relocate δ) =
      p.block.instructions.find? fun i => i.address == some a := by
    apply List.find?_congr
    intro i hi
    simp only [Function.comp_apply, Instruction.relocate]
    cases hb : i.address with
    | none => rfl
    | some b =>
      have hinj : shiftAddress δ b = shiftAddress δ a ↔ b = a :=
        ⟨shiftAddress_inj (hp i hi b hb) ha, congrArg _⟩
      rw [Bool.eq_iff_iff]
      simp [hinj]
  unfold PlacedBlock.siteAt?
  simp only [PlacedBlock.relocate, Block.relocate, List.find?_map, Option.map_map]
  rw [hfind]
  rfl

end Placed

theorem findSome?_congr {α β : Type} {f g : α → Option β} {xs : List α}
    (h : ∀ x ∈ xs, f x = g x) : xs.findSome? f = xs.findSome? g := by
  induction xs with
  | nil => rfl
  | cons x xs ih =>
    rw [List.findSome?_cons, List.findSome?_cons, h x List.mem_cons_self,
      ih fun y hy => h y (List.mem_cons_of_mem x hy)]

/-- The indexes of a listing and of the shifted one. -/
theorem relocated_ofPlaced {δ : Nat} {blocks : List Block} (h : Fits δ blocks) :
    TargetIndex.Relocated δ (.ofPlaced (placeBlocks blocks))
      (.ofPlaced (placeBlocks (blocks.map (Block.relocate δ)))) := by
  have hplaced : ∀ p ∈ placeBlocks blocks, ∀ i ∈ p.block.instructions, ∀ a ∈ i.address,
      a.toNat + δ < UInt64.size :=
    fun p hp => h.address p.block (block_mem_of_mem_placeBlocks hp)
  rw [placeBlocks_relocate]
  refine ⟨fun name => ?_, fun name => ?_, fun a ha => ?_, fun a site hsite => ?_,
    fun name a hbase => ?_⟩
  · rw [TargetIndex.getElem?_byLabel_ofPlaced, TargetIndex.getElem?_byLabel_ofPlaced,
      List.findSome?_map]
    rfl
  · rw [TargetIndex.getElem?_labelAddress_ofPlaced, TargetIndex.getElem?_labelAddress_ofPlaced,
      List.findSome?_map, List.map_findSome?]
    congr 1
    funext p
    exact baseOf?_relocate δ p name
  · rw [TargetIndex.getElem?_byAddress_ofPlaced, TargetIndex.getElem?_byAddress_ofPlaced,
      List.findSome?_map]
    exact findSome?_congr fun p hp => siteAt?_relocate (hplaced p hp) ha
  · rw [TargetIndex.getElem?_byAddress_ofPlaced] at hsite
    obtain ⟨p, hp, hfound⟩ := List.exists_of_findSome?_eq_some hsite
    obtain ⟨i, hi, -⟩ := Option.map_eq_some_iff.mp hfound
    exact hplaced p hp i (List.mem_of_find?_eq_some hi) a (by simpa using List.find?_some hi)
  · rw [TargetIndex.getElem?_labelAddress_ofPlaced] at hbase
    obtain ⟨p, hp, hfound⟩ := List.exists_of_findSome?_eq_some hbase
    unfold PlacedBlock.baseOf? at hfound
    split at hfound
    · obtain ⟨i, hi, haddress⟩ := Option.bind_eq_some_iff.mp hfound
      exact hplaced p hp i (List.mem_of_mem_head? hi) a haddress
    · simp at hfound

/-! ## Operands -/

namespace TargetIndex

variable {δ : Nat} {t t' : TargetIndex}

theorem ofLabel?_relocate (h : Relocated δ t t') (name : List Char) :
    t'.ofLabel? name = t.ofLabel? name :=
  h.byLabel _

/-- The sum of a shifted address and an offset names what the sum names, also where only one of the
    two sums fits into 64 bits. -/
theorem ofSum?_relocate (h : Relocated δ t t') {base : UInt64}
    (hbase : base.toNat + δ < UInt64.size) (offset : UInt64) :
    ((addAddress? (shiftAddress δ base) offset).bind fun a => t'.byAddress[a]?) =
      (addAddress? base offset).bind fun a => t.byAddress[a]? := by
  unfold addAddress?
  rw [toNat_shiftAddress hbase]
  by_cases hsum : base.toNat + offset.toNat < UInt64.size
  · have htoNat : (base + offset).toNat = base.toNat + offset.toNat := by
      rw [UInt64.toNat_add, Nat.mod_eq_of_lt hsum]
    rw [if_pos hsum, Option.bind_some]
    by_cases hshifted : base.toNat + δ + offset.toNat < UInt64.size
    · have hfits : (base + offset).toNat + δ < UInt64.size := by omega
      have hcomm : shiftAddress δ base + offset = shiftAddress δ (base + offset) := by
        apply UInt64.toNat_inj.mp
        rw [toNat_shiftAddress hfits, UInt64.toNat_add, toNat_shiftAddress hbase,
          Nat.mod_eq_of_lt hshifted]
        omega
      rw [if_pos hshifted, Option.bind_some, hcomm, h.byAddress _ hfits]
    · rw [if_neg hshifted, Option.bind_none]
      cases hsite : t.byAddress[base + offset]? with
      | none => rfl
      | some site =>
        have hfits := h.addressFits _ _ hsite
        omega
  · rw [if_neg hsum, if_neg (by omega)]
    rfl

theorem ofSymbol?_relocate (h : Relocated δ t t') (symbol : List Char) :
    t'.ofSymbol? symbol = t.ofSymbol? symbol := by
  unfold ofSymbol?
  split
  · exact ofLabel?_relocate h symbol
  · rename_i name offsetText _
    congr 1
    funext offset
    rw [ofLabel?_relocate h, h.labelAddress]
    split
    · rfl
    · cases hbase : t.labelAddress[String.ofList name]? with
      | none => rfl
      | some base => exact ofSum?_relocate h (h.baseFits _ _ hbase) offset

/-- The place that an operand names, from its first word and its annotation. -/
theorem ofOperand?_eq (t : TargetIndex) (operand : List Char) :
    t.ofOperand? operand =
      (((readAddress? (headWord operand)).bind fun a => t.byAddress[a]?).or
        (match annotation? (trim operand) with
          | some symbol => t.ofSymbol? symbol
          | none => t.ofLabel? (headWord operand))) := by
  unfold ofOperand?
  dsimp only
  rw [head_words_trim]
  cases (readAddress? (headWord operand)).bind fun a => t.byAddress[a]? <;> rfl

/-- An operand without an annotation names what its first word names. -/
theorem ofOperand?_unannotated (t : TargetIndex) {operand : List Char} (h : '<' ∉ operand) :
    t.ofOperand? operand = ((readAddress? (headWord operand)).bind fun a => t.byAddress[a]?).or
      (t.ofLabel? (headWord operand)) := by
  rw [ofOperand?_eq, annotation?_eq_none fun hmem => h (mem_of_mem_trim hmem)]

/-- An operand and the shifted one name the same place, if no label is a number. -/
theorem ofOperand?_relocate (h : Relocated δ t t')
    (hlabels : ∀ word : List Char, (readAddress? word).isSome → t.ofLabel? word = none)
    {operand : String}
    (hfits : ∀ a ∈ readAddress? (headWord operand.toList), a.toNat + δ < UInt64.size) :
    t'.ofOperand? (relocateOperand δ operand).toList = t.ofOperand? operand.toList := by
  cases hread : readAddress? (headWord operand.toList) with
  | none =>
    rw [relocateOperand_of_none hread]
    simp only [ofOperand?_eq, hread, Option.bind_none, ofSymbol?_relocate h, ofLabel?_relocate h]
  | some target =>
    have htarget := hfits target hread
    have hshifted : readAddress? (hexText (target.toNat + δ)) = some (shiftAddress δ target) :=
      readAddress?_hexText htarget
    -- neither number is a label, so without an annotation both operands name nothing
    have hlabel : t.ofLabel? (headWord operand.toList) = none := hlabels _ (by rw [hread]; rfl)
    have hlabel' : t.ofLabel? (hexText (target.toNat + δ)) = none :=
      hlabels _ (by rw [hshifted]; rfl)
    rw [ofOperand?_eq, ofOperand?_eq, annotation?_relocateOperand hread htarget,
      headWord_relocateOperand hread, hread, hshifted, Option.bind_some, Option.bind_some,
      h.byAddress target htarget]
    simp only [ofSymbol?_relocate h, ofLabel?_relocate h, hlabel, hlabel']

end TargetIndex

/-! ## Features -/

/-- Every branch of a listing resolves to the place to which it resolves in the shifted one. -/
theorem resolve?_relocate {δ : Nat} {blocks : List Block} (hfits : Fits δ blocks)
    (hlabels : ∀ b ∈ blocks, ∀ name ∈ b.labels, readAddress? name.toList = none) {b : Block}
    (hb : b ∈ blocks) {i : Instruction} (hi : i ∈ b.instructions) (hbranch : isBranch i.mnemonic) :
    (TargetIndex.ofPlaced (placeBlocks (blocks.map (Block.relocate δ)))).resolve?
        (i.relocate δ) =
      (TargetIndex.ofPlaced (placeBlocks blocks)).resolve? i := by
  have hnumber : ∀ word : List Char, (readAddress? word).isSome →
      (TargetIndex.ofPlaced (placeBlocks blocks)).ofLabel? word = none := by
    intro word hword
    unfold TargetIndex.ofLabel?
    rw [TargetIndex.getElem?_byLabel_ofPlaced, List.findSome?_eq_none_iff]
    intro p hp
    unfold PlacedBlock.siteOf?
    rw [if_neg]
    intro hcontains
    have hread := hlabels p.block (block_mem_of_mem_placeBlocks hp) _
      (List.contains_iff_mem.mp hcontains)
    rw [String.toList_ofList] at hread
    simp [hread] at hword
  unfold TargetIndex.resolve?
  rw [Instruction.head?_operands_relocate hbranch]
  cases hoperand : i.operands.head? with
  | none => rfl
  | some operand =>
    rw [Option.map_some, Option.bind_some, Option.bind_some]
    exact TargetIndex.ofOperand?_relocate (relocated_ofPlaced hfits) hnumber
      (hfits.target b hb i hi hbranch operand hoperand)

theorem featureOf_relocate {δ : Nat} {policy : BranchPolicy} {t t' : TargetIndex}
    {p : PlacedBlock} {i : Instruction}
    (h : isBranch i.mnemonic → t'.resolve? (i.relocate δ) = t.resolve? i) :
    featureOf policy t' (p.relocate δ) (i.relocate δ) = featureOf policy t p i := by
  have hoffset : branchOffset policy t' ((p.relocate δ).site i.position) (i.relocate δ) =
      branchOffset policy t (p.site i.position) i := by
    unfold branchOffset
    change (if isBranch i.mnemonic then _ else _) = _
    split
    · rename_i hbranch
      rw [h hbranch]
      rfl
    · rfl
  unfold featureOf
  exact congrArg (fun offset => Feature.mk i.mnemonic ⟨_, _, offset⟩) hoffset

/-- The features of a listing do not depend on the address at which it is loaded. Its addresses and
    the numbers at which its branches aim are shifted alike, 64 bits can hold the shifted ones, and
    no label is a number. -/
theorem extractFeatures_relocate {δ : Nat} {blocks : List Block} (hfits : Fits δ blocks)
    (hlabels : ∀ b ∈ blocks, ∀ name ∈ b.labels, readAddress? name.toList = none)
    (policy : BranchPolicy) :
    extractFeatures policy (blocks.map (Block.relocate δ)) = extractFeatures policy blocks := by
  unfold extractFeatures
  dsimp only
  have hblock : ∀ p ∈ placeBlocks blocks,
      (p.relocate δ).block.instructions.map
          (featureOf policy (.ofPlaced (placeBlocks (blocks.map (Block.relocate δ))))
            (p.relocate δ)) =
        p.block.instructions.map
          (featureOf policy (.ofPlaced (placeBlocks blocks)) p) := by
    intro p hp
    have hinstructions : (p.relocate δ).block.instructions =
        p.block.instructions.map (Instruction.relocate δ) := rfl
    rw [hinstructions, List.map_map]
    apply List.map_congr_left
    intro i hi
    exact featureOf_relocate
      (resolve?_relocate hfits hlabels (block_mem_of_mem_placeBlocks hp) hi)
  conv =>
    lhs
    arg 2
    rw [placeBlocks_relocate]
  rw [List.flatMap_map]
  exact List.flatMap_congr hblock

/-- A loop that is entered by number, by annotation and by offset from its label, loaded 4 KiB
    higher. -/
theorem extractFeatures_relocate_page :
    let loop : Block := ⟨".text", 0, some "loop", [],
      [⟨"nop", [], 0, some 0x8000⟩, ⟨"bne", ["8000 <loop>"], 1, some 0x8004⟩,
        ⟨"b", ["900c <loop+0x4>"], 2, some 0x8008⟩, ⟨"bl", ["loop"], 3, some 0x800c⟩]⟩
    Fits 4096 [loop] ∧ (∀ name ∈ loop.labels, readAddress? name.toList = none) ∧
    (loop.relocate 4096).instructions.map Instruction.operands =
      [[], ["0x9000 <loop>"], ["0xa00c <loop+0x4>"], ["loop"]] ∧
    (extractFeatures .sameBlock [loop.relocate 4096]).map (fun f => f.vector.branch) =
      [0, -1, -1, -3] := by
  intro loop
  have haddress : ∀ i ∈ loop.instructions,
      i.address.all (fun a => a.toNat + 4096 < UInt64.size) := by
    decide +kernel
  have htarget : ∀ i ∈ loop.instructions, ∀ operand ∈ i.operands,
      (readAddress? (headWord operand.toList)).all fun t => t.toNat + 4096 < UInt64.size := by
    decide +kernel
  have hfits : Fits 4096 [loop] := by
    constructor
    · intro b hb i hi a ha
      rw [List.mem_singleton.mp hb] at hi
      exact of_decide_eq_true ((Option.all_eq_true _ _).mp (haddress i hi) a ha)
    · intro b hb i hi _ operand hoperand t ht
      rw [List.mem_singleton.mp hb] at hi
      exact of_decide_eq_true ((Option.all_eq_true _ _).mp
        (htarget i hi operand (List.mem_of_mem_head? hoperand)) t ht)
  have hlabels : ∀ b ∈ [loop], ∀ name ∈ b.labels, readAddress? name.toList = none := by
    decide +kernel
  have hfeatures : extractFeatures .sameBlock [loop.relocate 4096] =
      extractFeatures .sameBlock [loop] := extractFeatures_relocate hfits hlabels .sameBlock
  refine ⟨hfits, hlabels loop List.mem_cons_self, by decide +kernel, ?_⟩
  rw [hfeatures]
  decide +kernel

end FirmwareMatch
