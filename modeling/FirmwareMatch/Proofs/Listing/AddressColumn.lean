import FirmwareMatch.Proofs.Listing.Columns

/-
  Addresses of any length in front of an instruction in columns.

  An address is a row of hexadecimal digits, and its value may need more than 64 bits. The column is
  taken off the line in both cases, but the bytes behind it only if the value fits: otherwise what
  stands behind the colon is read as an instruction without an address, and the first group of bytes
  is its first word. A group that starts with a letter is a mnemonic by its form, one that starts
  with a digit is none.

  Proved:
  * `readHex64?_of_le`: a value that needs more than 64 bits.
  * `isByteGroup_firstGroup`, `isBlank_of_head?_behind`: the first group of bytes and what follows it.
  * `trim_tabbed`: what stands behind the colon of an address.
  * `mnemonic?_of_isByteGroup`, `ofAssembly?_headed`: bytes that are read as an instruction.
  * `read?_of_lt`, `read?_of_le`, `read_addressed`: a line with an address, bytes and a text, by
    whether the value fits.
  * `read_long_address`: an address that does not fit.
-/

namespace FirmwareMatch

open Text

namespace Text

/-! ## Values -/

/-- A number whose value needs more than 64 bits is not read. -/
theorem readHex64?_of_le {digits : List Char} (h : UInt64.size ≤ hexNat digits) :
    readHex64? digits = none := by
  unfold readHex64? readHex?
  split
  · rename_i n hread
    split at hread
    · rw [← Option.some.inj hread, if_neg (Nat.not_lt.mpr h)]
    · cases hread
  · rfl

end Text

namespace Statement

/-! ## Bytes -/

/-- The first group of a column of bytes. -/
def firstGroup (bytes : List Char) : List Char :=
  bytes.takeWhile (!isBlank ·)

/-- What follows the first group of a column of bytes. -/
def behindFirstGroup (bytes : List Char) : List Char :=
  bytes.dropWhile (!isBlank ·)

theorem firstGroup_append_behind (bytes : List Char) :
    firstGroup bytes ++ behindFirstGroup bytes = bytes :=
  List.takeWhile_append_dropWhile

/-- A blank follows the first group, whether it is the only one or not. -/
theorem isBlank_of_head?_behind {bytes pad rest : List Char} (hpad : IsPad pad)
    (hrest : ∀ c ∈ rest.head?, isBlank c) :
    ∀ c ∈ (behindFirstGroup bytes ++ pad ++ rest).head?, isBlank c := by
  have hbehind : ∀ c ∈ (behindFirstGroup bytes).head?, isBlank c := isBlank_of_head?_dropWhile bytes
  cases h : behindFirstGroup bytes with
  | cons b more =>
    rw [h] at hbehind
    exact hbehind
  | nil =>
    cases pad with
    | cons b more => exact fun c hc => hpad.isGap c (List.mem_of_head? hc)
    | nil => exact hrest

theorem isByteGroup_firstGroup {bytes : List Char} (h : Bytes bytes) :
    isByteGroup (firstGroup bytes) := by
  have hsolid : ∀ {word : List Char}, isByteGroup word → ∀ c ∈ word, (!isBlank c) = true :=
    fun hword c hc => by simp [isBlank_of_mem_byteGroup hword c hc]
  unfold firstGroup
  cases h with
  | group hword =>
    rwa [List.takeWhile_eq_self_iff.mpr (hsolid hword)]
  | @cons word pad bytes hword hpad hne h =>
    obtain ⟨b, pad, rfl⟩ := List.exists_cons_of_ne_nil hne
    have hb : isBlank b := hpad.isGap b List.mem_cons_self
    rw [List.takeWhile_append_of_pos (hsolid hword), List.cons_append, List.takeWhile_cons_of_neg,
      List.append_nil]
    · exact hword
    · simpa using hb

/-- A group of bytes is a mnemonic by its form if it starts with a letter. -/
theorem mnemonic?_of_isByteGroup {group : List Char} (h : isByteGroup group) :
    mnemonic? group =
      if group.head?.any Char.isAlpha then some (group.map Char.toLower) else none := by
  have hdigits : ∀ c ∈ group, c.isAlphanum := by
    simp only [isByteGroup, isHex, Bool.and_eq_true, List.all_eq_true] at h
    exact fun c hc => isAlphanum_of_isHexDigit (h.1.2 c hc)
  have hall : group.all isMnemonicChar :=
    List.all_eq_true.mpr fun c hc => by simp [isMnemonicChar, hdigits c hc]
  have hpoint : group.takeWhile (· != '.') = group := by
    refine List.takeWhile_eq_self_iff.mpr fun c hc => bne_iff_ne.mpr ?_
    rintro rfl
    exact absurd (hdigits _ hc) (by decide)
  cases group with
  | nil => rfl
  | cons c cs =>
    unfold mnemonic?
    dsimp only
    rw [hall, Bool.and_true, hpoint]
    rfl

/-! ## Behind the colon -/

/-- Behind the colon of an address stand the bytes, and a text that may have lost blanks at its
    end. -/
theorem trim_tabbed {bytes text : List Char} (hbytes : Bytes bytes) (pad : List Char)
    (hne : trim text ≠ []) :
    ∃ column tail, IsGap tail ∧ text = column ++ tail ∧ trim column = trim text ∧
      IsSolid (bytes ++ pad ++ '\t' :: column) ∧
      trim ('\t' :: (bytes ++ pad ++ '\t' :: text)) = bytes ++ pad ++ '\t' :: column := by
  obtain ⟨lead, tail, hlead, htail, htext⟩ := exists_gaps_trim text
  have hsolid := (isOperand_append hbytes.isOperand (pad ++ '\t' :: lead)
    (show IsOperand (trim text) from ⟨hne, isSolid_trim text⟩)).2
  have hjoin : bytes ++ (pad ++ '\t' :: lead ++ trim text) =
      bytes ++ pad ++ '\t' :: (lead ++ trim text) := by simp
  have hline : '\t' :: (bytes ++ pad ++ '\t' :: text) =
      ['\t'] ++ (bytes ++ pad ++ '\t' :: (lead ++ trim text) ++ tail) := by
    conv_lhs => rw [htext]
    simp
  rw [hjoin] at hsolid
  refine ⟨lead ++ trim text, tail, htail, by rw [List.append_assoc, ← htext], ?_, hsolid, ?_⟩
  · rw [trim_gap_append hlead, trim_of_solid (isSolid_trim text)]
  · rw [hline, trim_gap_append (show IsGap ['\t'] by decide), trim_append_gap htail,
      trim_of_solid hsolid]

/-- A text of a word and something set off from it: the word stands for the mnemonic, and the rest
    for the operands. -/
theorem ofAssembly?_headed (address : Option UInt64) {word rest : List Char}
    (hword : ∀ c ∈ word, isBlank c = false) (hrest : ∀ c ∈ rest.head?, isBlank c)
    (hsolid : IsSolid (word ++ rest)) :
    ofAssembly? address (word ++ rest) = (mnemonic? word).map fun m =>
      ⟨address, String.ofList m, (splitOperands (trim rest)).map String.ofList⟩ := by
  unfold ofAssembly?
  rw [trim_of_solid hsolid]
  cases rest with
  | nil =>
    rw [List.append_nil]
    simp only [cut?_eq_none hword, Option.getD_none]
  | cons b rest =>
    have hb : isBlank b := hrest b rfl
    have hgap : IsGap [b] := fun c hc => List.mem_singleton.mp hc ▸ hb
    have htrim : trim (b :: rest) = trim rest := trim_gap_append hgap rest
    simp only [cut?_append rest hword hb, Option.getD_some, htrim]

/-! ## Lines -/

theorem trim_ne_nil_of_ofAssembly? {address : Option UInt64} {text : List Char} {s : Statement}
    (h : ofAssembly? address text = some s) : trim text ≠ [] := by
  intro hnil
  rw [ofAssembly?, hnil] at h
  cases h

section Addressed

variable {digits bytes pad text : List Char} (hdigits : isHex digits) (hbytes : Bytes bytes)
  (hpad : IsPad pad)

include hdigits hbytes hpad

/-- Behind an address that fits the bytes are taken off. -/
theorem read?_of_lt {s : Statement} (htab : '\t' ∉ text) (hassembly : ofAssembly? none text = some s)
    (hfits : hexNat digits < UInt64.size) :
    read? (digits ++ ':' :: '\t' :: (bytes ++ pad ++ '\t' :: text)) =
      some { s with address := some (UInt64.ofNat (hexNat digits)) } := by
  have hne := trim_ne_nil_of_ofAssembly? hassembly
  obtain ⟨column, tail, -, htext, htrim, -, hbehind⟩ := trim_tabbed hbytes pad hne
  have hcolumn : '\t' ∉ column := fun hc => htab (htext ▸ List.mem_append_left tail hc)
  have hvalue : hexNat digits = (UInt64.ofNat (hexNat digits)).toNat := by
    rw [UInt64.toNat_ofNat', Nat.mod_eq_of_lt hfits]
  have htrimmed : ofAssembly? none (trim text) = ofAssembly? none text := by
    rw [ofAssembly?, ofAssembly?, trim_of_solid (isSolid_trim text)]
  rw [Line.read?_columns hdigits hvalue, hbehind,
    dropEncoding?_tabbed hbytes hpad (htrim ▸ hne) hcolumn, Option.bind_some, htrim,
    ofAssembly?_address, htrimmed, hassembly, Option.map_some]

/-- Behind an address that does not fit the first group of bytes stands for the mnemonic and all that
    follows for the operands. -/
theorem read?_of_le (hne : trim text ≠ []) (hlong : UInt64.size ≤ hexNat digits) :
    read? (digits ++ ':' :: '\t' :: (bytes ++ pad ++ '\t' :: text)) =
      if (firstGroup bytes).head?.any Char.isAlpha then
        some ⟨none, String.ofList ((firstGroup bytes).map Char.toLower),
          (splitOperands (trim (behindFirstGroup bytes ++ pad ++ '\t' :: text))).map String.ofList⟩
      else none := by
  obtain ⟨column, tail, htail, htext, -, hsolid, hbehind⟩ := trim_tabbed hbytes pad hne
  have hgroup := isByteGroup_firstGroup hbytes
  have hsplit : bytes ++ pad ++ '\t' :: column =
      firstGroup bytes ++ (behindFirstGroup bytes ++ pad ++ '\t' :: column) := by
    conv_lhs => rw [← firstGroup_append_behind bytes]
    simp only [List.append_assoc]
  have hset : ∀ c ∈ (behindFirstGroup bytes ++ pad ++ '\t' :: column).head?, isBlank c :=
    isBlank_of_head?_behind hpad (by simp [show isBlank '\t' from by decide])
  have hoperands : trim (behindFirstGroup bytes ++ pad ++ '\t' :: text) =
      trim (behindFirstGroup bytes ++ pad ++ '\t' :: column) := by
    rw [htext, ← List.cons_append, ← List.append_assoc, trim_append_gap htail]
  rw [hsplit] at hsolid hbehind
  rw [read?, Line.addressColumn?_of_isHex hdigits]
  dsimp only
  rw [readHex64?_of_le hlong, hbehind]
  dsimp only
  rw [ofAssembly?_headed none (isBlank_of_mem_byteGroup hgroup) hset hsolid,
    mnemonic?_of_isByteGroup hgroup, hoperands]
  split <;> rfl

end Addressed

/-- The line with an address, bytes and the text of an instruction, between tabs. If 64 bits hold
    the value of the address, it is read as the instruction with this address. Otherwise the bytes
    are not taken off: if the first group of them starts with a letter, this group is the mnemonic
    and all that follow are operands; if it starts with a digit, the line holds no instruction. -/
theorem read_addressed {digits bytes pad text : List Char} {s : Statement}
    (hdigits : isHex digits) (hbytes : Bytes bytes) (hpad : IsPad pad) (htab : '\t' ∉ text)
    (hcolon : ':' ∉ text) (hread : read? text = some s) :
    let line := digits ++ ':' :: '\t' :: (bytes ++ pad ++ '\t' :: text)
    (hexNat digits < UInt64.size →
      read? line = some { s with address := some (UInt64.ofNat (hexNat digits)) }) ∧
    (UInt64.size ≤ hexNat digits →
      read? line =
        if (firstGroup bytes).head?.any Char.isAlpha then
          some ⟨none, String.ofList ((firstGroup bytes).map Char.toLower),
            (splitOperands (trim (behindFirstGroup bytes ++ pad ++ '\t' :: text))).map String.ofList⟩
        else none) := by
  have hassembly : ofAssembly? none text = some s := by
    rwa [read?, addressColumn?, cut?_eq_none (beq_eq_false_of_not_mem hcolon)] at hread
  exact ⟨read?_of_lt hdigits hbytes hpad htab hassembly,
    read?_of_le hdigits hbytes hpad (trim_ne_nil_of_ofAssembly? hassembly)⟩

/-- An address of 16 digits, and one of 17 that does not fit in front of bytes that start with a
    letter. -/
theorem read_addressed_long :
    read? "ffffffffffffffff:\tbf00 \tmov r0, r1".toList =
      some ⟨some 0xffffffffffffffff, "mov", ["r0", "r1"]⟩ ∧
    read? "10000000000000000:\tbf00 4770 \tmov r0, r1".toList =
      some ⟨none, "bf00", ["4770 \tmov r0", "r1"]⟩ := by
  have hread : read? "mov r0, r1".toList = some ⟨none, "mov", ["r0", "r1"]⟩ := by decide +kernel
  have hbytes : Bytes ("bf00".toList ++ ([' '] ++ "4770".toList)) :=
    .cons (by decide +kernel) (by decide) (by decide) (.group (by decide +kernel))
  have hpad : IsPad [' '] := by decide
  have hlongest : isHex "ffffffffffffffff".toList := by decide +kernel
  have htoolong : isHex "10000000000000000".toList := by decide +kernel
  have hfits := (read_addressed hlongest (.group (by decide +kernel : isByteGroup "bf00".toList))
    hpad (by decide +kernel) (by decide +kernel) hread).1 (by decide +kernel)
  have hlong := (read_addressed htoolong hbytes hpad (by decide +kernel) (by decide +kernel)
    hread).2 (by decide +kernel)
  exact ⟨hfits, hlong.trans (by decide +kernel)⟩

/-- Behind an address of 17 digits the bytes are not taken off: they are the mnemonic if they start
    with a letter, and otherwise the line holds no instruction. -/
theorem read_long_address :
    let read := fun text : String => read? text.toList
    isHex "10000000000000000".toList ∧ isByteGroup "bf00".toList ∧ isByteGroup "4770".toList ∧
    read "nop" = some ⟨none, "nop", []⟩ ∧
    read "10000000000000000:\tbf00\tnop" = some ⟨none, "bf00", ["nop"]⟩ ∧
    read "10000000000000000:\t4770\tnop" = none := by
  decide +kernel

end Statement

end FirmwareMatch
