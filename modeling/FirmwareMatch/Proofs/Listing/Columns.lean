import FirmwareMatch.Proofs.Listing.Disassembly
import FirmwareMatch.Proofs.Text.Spacing

/-
  Address, bytes and instruction on one line, with tabs or with spaces between them.

  Behind a tab the text of the instruction stays as it is. Behind spaces it is taken apart into
  words, and those that are whole bytes in hexadecimal are dropped from the front; what is left is
  joined again by single spaces. So a mnemonic that is a number with an even count of digits
  (`fadd`) is lost, and the blanks inside an operand become one space each.

  Proved:
  * `pieces_squeeze`, `splitOperands_squeeze`: the operands of a text with single spaces.
  * `ofAssembly?_singleSpaced`: the instruction of such a text.
  * `dropEncoding?_tabbed`, `dropEncoding?_words`: the bytes of a line with tabs and with spaces.
  * `read_tabbed`, `read_spaced`, `read_tabbed_and_spaced`: both kinds of lines, by what the text of
    the instruction is on its own.
-/

namespace FirmwareMatch

open Text

namespace Statement

/-! ## Operands -/

/-- An instruction whose operands have one space for every run of blanks. -/
def singleSpaced (s : Statement) : Statement :=
  { s with operands := s.operands.map fun op => String.ofList (Text.singleSpaced op.toList) }

theorem pieces_cons_blank {b : Char} (h : isBlank b) (depth : Int) (cs : List Char) :
    pieces depth (b :: cs) = extendField b (pieces depth cs) := by
  simp [pieces, nesting, ne_of_isBlank h]

/-- The first piece of a text starts with a blank if the text does. -/
theorem exists_pieces_eq_cons (depth : Int) (cs : List Char) :
    ∃ f fs, pieces depth cs = f :: fs ∧ f.head?.any isBlank = cs.head?.any isBlank := by
  cases cs with
  | nil => exact ⟨[], [], rfl, rfl⟩
  | cons c cs =>
    rw [pieces]
    split
    · rename_i hcomma
      have hc : c = ',' := by simpa using (Bool.and_eq_true_iff.mp hcomma).1
      exact ⟨[], _, rfl, by rw [hc]; rfl⟩
    · obtain ⟨f, fs, hpieces⟩ :=
        List.exists_cons_of_ne_nil (pieces_ne_nil (depth + nesting c) cs)
      rw [hpieces]
      exact ⟨c :: f, fs, rfl, rfl⟩

/-- Commas and brackets are no blanks, so squeezing a text squeezes its pieces. -/
theorem pieces_squeeze (depth : Int) (cs : List Char) :
    pieces depth (squeeze cs) = (pieces depth cs).map squeeze := by
  induction cs generalizing depth with
  | nil => rfl
  | cons c cs ih =>
    cases hc : isBlank c with
    | true =>
      -- a run of blanks stays in one piece, so it is a run there exactly if it is one in the text
      obtain ⟨f, fs, hpieces, hhead⟩ := exists_pieces_eq_cons depth cs
      have ih := ih depth
      rw [hpieces] at ih
      rw [pieces_cons_blank hc, hpieces, extendField, List.map_cons, squeeze, squeeze, if_pos hc,
        if_pos hc, hhead]
      split
      · rw [ih, List.map_cons]
      · rw [pieces_cons_blank (by decide), ih, List.map_cons, extendField]
    | false =>
      obtain ⟨f, fs, hpieces, -⟩ := exists_pieces_eq_cons (depth + nesting c) cs
      rw [squeeze_cons_solid hc, pieces, pieces]
      split
      · rw [ih, List.map_cons]
        rfl
      · rw [ih, hpieces, List.map_cons, extendField, extendField, List.map_cons,
          squeeze_cons_solid hc]

/-- The operands of a squeezed text are those of the text, each with single spaces. -/
theorem splitOperands_squeeze (cs : List Char) :
    splitOperands (squeeze cs) = (splitOperands cs).map Text.singleSpaced := by
  have htrim : ∀ f, trim (squeeze f) = Text.singleSpaced (trim f) := by
    intro f
    rw [trim_squeeze, Text.singleSpaced, Text.singleSpaced, words_trim]
  have hempty : ∀ f, (trim (squeeze f)).isEmpty = (trim f).isEmpty := by
    intro f
    rw [Bool.eq_iff_iff, List.isEmpty_iff, List.isEmpty_iff, trim_squeeze, ← squeeze_trim,
      squeeze_eq_nil_iff]
  unfold splitOperands
  rw [pieces_squeeze, List.map_map, List.filter_map, List.filter_map, List.map_map]
  have hkept : ((!·.isEmpty) ∘ (trim ∘ squeeze) : List Char → Bool) = (!·.isEmpty) ∘ trim :=
    funext fun f => congrArg (! ·) (hempty f)
  rw [hkept]
  exact List.map_congr_left fun f _ => htrim f

/-- Joined by single spaces, the words of a text are the instruction of the text with single spaces
    in its operands. -/
theorem ofAssembly?_singleSpaced (address : Option UInt64) (text : List Char) :
    ofAssembly? address (Text.singleSpaced text) =
      (ofAssembly? address text).map singleSpaced := by
  have htrim : trim (Text.singleSpaced text) = squeeze (trim text) := by
    rw [squeeze_trim, ← trim_squeeze, trim_of_solid (isSolid_trim _)]
  have hoperands : ∀ rest, splitOperands (trim (trimStart (squeeze rest))) =
      (splitOperands (trim rest)).map Text.singleSpaced := by
    intro rest
    rw [trim_trimStart, trim_squeeze, ← squeeze_trim, splitOperands_squeeze]
  unfold ofAssembly?
  rw [htrim]
  dsimp only
  rw [cut?_squeeze]
  cases hcut : cut? isBlank (trim text) with
  | none =>
    rw [squeeze_of_cut?_eq_none hcut]
    simp [singleSpaced, splitOperands, pieces, Function.comp_def]
  | some sides =>
    simp only [Option.map_some, Option.getD_some, hoperands]
    cases mnemonic? sides.1 <;> simp [singleSpaced]

/-! ## Columns -/

theorem ofAssembly?_address (address : Option UInt64) (text : List Char) :
    ofAssembly? address text =
      (ofAssembly? none text).map fun s => { s with address } := by
  unfold ofAssembly?
  dsimp only
  rw [Option.map_map]
  rfl

theorem Bytes.words_eq {bytes : List Char} (h : Bytes bytes) :
    words bytes ≠ [] ∧ ∀ w ∈ words bytes, isByteGroup w := by
  have hencoding := h.isEncoding
  unfold Statement.isEncoding at hencoding
  obtain ⟨hne, hgroups⟩ := Bool.and_eq_true_iff.mp hencoding
  exact ⟨by simpa using hne, List.all_eq_true.mp hgroups⟩

/-- Behind an address with tabs the column of bytes is dropped. -/
theorem dropEncoding?_tabbed {bytes pad column : List Char} (hbytes : Bytes bytes)
    (hpad : IsPad pad) (hne : trim column ≠ []) (htab : '\t' ∉ column) :
    dropEncoding? (bytes ++ pad ++ '\t' :: column) = some (trim column) := by
  have hdrop := dropEncoding?_columns hbytes hpad (List.cons_ne_nil column [])
    (List.forall_mem_singleton.mpr ⟨hne, htab⟩)
  have hjoin : ['\t'].intercalate [bytes ++ pad, column] = bytes ++ pad ++ '\t' :: column := by
    simp [List.intercalate_cons_cons]
  rwa [hjoin, List.map_singleton, List.intercalate_singleton] at hdrop

/-- Behind an address with spaces the leading groups of bytes are dropped. -/
theorem dropEncoding?_words {bytes text : List Char} (hbytes : Bytes bytes) (htab : '\t' ∉ text)
    (hne : words text ≠ []) (hfirst : (words text).head?.any isByteGroup = false) :
    dropEncoding? (bytes ++ ' ' :: text) = some (Text.singleSpaced text) := by
  have htabs : (bytes ++ ' ' :: text).contains '\t' = false := by
    rw [Bool.eq_false_iff, ne_eq, List.contains_iff_mem, List.mem_append, List.mem_cons]
    rintro (h | h | h)
    · exact hbytes.not_mem_tab h
    · exact absurd h (by decide)
    · exact htab h
  unfold dropEncoding?
  rw [htabs, if_neg Bool.false_ne_true, words_append_blank (by decide),
    List.dropWhile_append_of_pos hbytes.words_eq.2, Text.singleSpaced]
  cases hwords : words text with
  | nil => exact absurd hwords hne
  | cons w ws =>
    rw [hwords] at hfirst
    have hw : isByteGroup w = false := by simpa using hfirst
    rw [List.dropWhile_cons, hw, if_neg Bool.false_ne_true]
    rfl

end Statement

namespace Line

/-- A group of bytes behind a colon looks like columns. -/
theorem looksLikeColumns_of_bytes (line : List Char) {bytes : List Char}
    (hbytes : Statement.Bytes bytes) (rest : List Char) :
    looksLikeColumns line (trim (bytes ++ ' ' :: rest)) := by
  obtain ⟨hne, hgroups⟩ := hbytes.words_eq
  obtain ⟨w, ws, hwords⟩ := List.exists_cons_of_ne_nil hne
  have hw : Statement.isEncoding w :=
    (Statement.Bytes.group (hgroups w (hwords ▸ List.mem_cons_self))).isEncoding
  unfold looksLikeColumns
  rw [words_trim, words_append_blank (by decide), hwords]
  simp [hw]

/-- What is left of a line without colons that holds an instruction is its text. -/
theorem ofAssembly?_of_read {sections : List String} {raw : List Char} {s : Statement}
    (hcolon : ':' ∉ bare raw) (h : read sections raw = .content (.instruction s)) :
    bare raw ≠ [] ∧ Statement.ofAssembly? none (bare raw) = some s := by
  have haddress : Statement.addressColumn? (bare raw) = none := by
    unfold Statement.addressColumn?
    rw [cut?_eq_none (beq_eq_false_of_not_mem hcolon)]
  rcases read_cases sections raw with ⟨-, hread⟩ | ⟨_, -, hread⟩ | ⟨_, _, -, -, -, hread⟩ |
    ⟨hne, -, -, hread⟩
  · cases h.symm.trans hread
  · cases h.symm.trans hread
  · cases h.symm.trans hread
  · refine ⟨hne, ?_⟩
    have hcontent := Line.content.inj (hread.symm.trans h)
    rw [readContent, Statement.read?, haddress] at hcontent
    dsimp only at hcontent
    cases hassembly : Statement.ofAssembly? none (bare raw) with
    | none => simp [hassembly] at hcontent
    | some t => simpa [hassembly] using hcontent

/-- What is left of a line with an address, bytes and a text: the text may have lost blanks at its
    end, but not those at its start. -/
theorem bare_columns {lead digits bytes text : List Char} {b : Char} (hlead : IsGap lead)
    (hdigits : isHex digits) (hbytes : Statement.Bytes bytes) (hb : isAsciiBlank b)
    (hcomment : cutComment true text = text) (hne : bare text ≠ []) :
    ∃ column, trim column = bare text ∧ (∀ c ∈ column, c ∈ text) ∧
      trim (b :: (bytes ++ b :: column)) = bytes ++ b :: column ∧
      bare (lead ++ (digits ++ ':' :: b :: (bytes ++ b :: text))) =
        digits ++ ':' :: b :: (bytes ++ b :: column) := by
  obtain ⟨hdigits_ne, hchars⟩ := forall_mem_of_isHex hdigits
  have hblank : IsGap [b] := fun c hc => List.mem_singleton.mp hc ▸ isBlank_of_isAsciiBlank hb
  have hhead : IsPlain (digits ++ [':'] ++ ([b] ++ bytes)) :=
    (isPlain_label hchars).append_gap hblank (List.cons_ne_nil _ _) hbytes.isPlain
  obtain ⟨before, after, hbefore, -, hcut, hline⟩ :=
    bare_behind hlead hhead isGap_nil hb text
  have htext : IsOperand (bare text) := ⟨hne, isSolid_trim _⟩
  have hcolumns : IsOperand (bytes ++ (b :: before ++ bare text)) :=
    Statement.isOperand_append hbytes.isOperand (b :: before) htext
  have hall : IsOperand (digits ++ ([':', b] ++ (bytes ++ (b :: before ++ bare text)))) :=
    Statement.isOperand_append (isOperand_of_names hdigits_ne hchars) [':', b] hcolumns
  refine ⟨before ++ bare text, ?_, fun c hc => ?_, ?_, ?_⟩
  · rw [trim_gap_append hbefore, trim_of_solid htext.2]
  · rw [hcomment] at hcut
    rw [hcut, ← List.append_assoc]
    exact List.mem_append_left after hc
  · exact (trim_gap_append hblank _).trans (trim_of_solid hcolumns.2)
  · have htrim := trim_of_solid hall.2
    simp only [List.append_assoc, List.cons_append, List.nil_append] at hline htrim
    rw [hline, htrim]

section Read

variable {sections : List String} {lead digits bytes text : List Char} {address : UInt64}
  {s : Statement} (hlead : IsGap lead) (hdigits : isHex digits)
  (hvalue : hexNat digits = address.toNat) (hbytes : Statement.Bytes bytes) (htab : '\t' ∉ text)
  (hcomment : cutComment true text = text) (hne : bare text ≠ [])
  (hassembly : Statement.ofAssembly? none (bare text) = some s)

include hlead hdigits hvalue hbytes htab hcomment hne hassembly

theorem read_tabbed :
    read sections (lead ++ (digits ++ ':' :: '\t' :: (bytes ++ '\t' :: text))) =
      .content (.instruction { s with address := some address }) := by
  obtain ⟨column, htrim, hmem, hsolid, hline⟩ :=
    bare_columns hlead hdigits hbytes (b := '\t') (by decide) hcomment hne
  have hpad : Statement.IsPad [] := by decide
  have hdrop := Statement.dropEncoding?_tabbed hbytes hpad (htrim ▸ hne) fun hc => htab (hmem _ hc)
  rw [List.append_nil, htrim] at hdrop
  rw [read, hline, ofBare_columns sections hdigits (by decide) (by simp [looksLikeColumns]),
    readContent, read?_columns hdigits hvalue, hsolid, hdrop, Option.bind_some,
    Statement.ofAssembly?_address, hassembly, Option.map_some]

theorem read_spaced (hfirst : (words text).head?.any Statement.isByteGroup = false) :
    read sections (lead ++ (digits ++ ':' :: ' ' :: (bytes ++ ' ' :: text))) =
      .content (.instruction { s.singleSpaced with address := some address }) := by
  obtain ⟨column, htrim, hmem, hsolid, hline⟩ :=
    bare_columns hlead hdigits hbytes (b := ' ') (by decide) hcomment hne
  have hwords : words column = words (bare text) := by rw [← htrim, words_trim]
  have hwords_ne : words column ≠ [] := hwords ▸ words_ne_nil_of_solid hne (isSolid_trim _)
  have hwords_text : words (bare text) = words text := by rw [bare, hcomment, words_trim]
  have hcolumns := looksLikeColumns_of_bytes (digits ++ ':' :: ' ' :: (bytes ++ ' ' :: column))
    hbytes column
  have hdrop := Statement.dropEncoding?_words hbytes (fun hc => htab (hmem _ hc)) hwords_ne
    (by rwa [hwords, hwords_text])
  have hspaced : Text.singleSpaced column = Text.singleSpaced (bare text) :=
    congrArg [' '].intercalate hwords
  rw [read, hline, ofBare_columns sections hdigits (by decide) hcolumns, readContent,
    read?_columns hdigits hvalue, hsolid, hdrop, Option.bind_some, hspaced,
    Statement.ofAssembly?_singleSpaced, Statement.ofAssembly?_address, hassembly]
  rfl

end Read

/-- An instruction with an address and bytes before it. In columns between tabs it is read as it is
    on a line of its own. Between spaces it is so too, with single spaces in its operands, if its
    first word cannot be taken for bytes. -/
theorem read_tabbed_and_spaced {sections : List String} {lead digits bytes text : List Char}
    {address : UInt64} {s : Statement} (hlead : IsGap lead) (hdigits : isHex digits)
    (hvalue : hexNat digits = address.toNat) (hbytes : Statement.Bytes bytes)
    (htab : '\t' ∉ text) (hcolon : ':' ∉ text) (hcomment : cutComment true text = text)
    (hread : read sections text = .content (.instruction s)) :
    read sections (lead ++ (digits ++ ':' :: '\t' :: (bytes ++ '\t' :: text))) =
        .content (.instruction { s with address := some address }) ∧
    ((words text).head?.any Statement.isByteGroup = false →
      read sections (lead ++ (digits ++ ':' :: ' ' :: (bytes ++ ' ' :: text))) =
        .content (.instruction { s.singleSpaced with address := some address })) := by
  have hcolon' : ':' ∉ bare text := by
    rw [bare, hcomment]
    exact fun hc => hcolon (mem_of_mem_trim hc)
  obtain ⟨hne, hassembly⟩ := ofAssembly?_of_read hcolon' hread
  exact ⟨read_tabbed hlead hdigits hvalue hbytes htab hcomment hne hassembly,
    read_spaced hlead hdigits hvalue hbytes htab hcomment hne hassembly⟩

/-- Two groups of bytes before an instruction with a run of blanks in an operand. -/
theorem read_tabbed_and_spaced_load :
    read [".text"] "  8:\t6848 bf00\tldr r0, [r1,  #4]".toList =
      .content (.instruction ⟨some 8, "ldr", ["r0", "[r1,  #4]"]⟩) ∧
    read [".text"] "  8: 6848 bf00 ldr r0, [r1,  #4]".toList =
      .content (.instruction ⟨some 8, "ldr", ["r0", "[r1, #4]"]⟩) := by
  have hbytes : Statement.Bytes ("6848".toList ++ ([' '] ++ "bf00".toList)) :=
    .cons (by decide +kernel) (by decide) (by decide) (.group (by decide +kernel))
  have hread : read [".text"] "ldr r0, [r1,  #4]".toList =
      .content (.instruction ⟨none, "ldr", ["r0", "[r1,  #4]"]⟩) := by decide +kernel
  have hspaced : Statement.singleSpaced ⟨none, "ldr", ["r0", "[r1,  #4]"]⟩ =
      ⟨none, "ldr", ["r0", "[r1, #4]"]⟩ := by decide +kernel
  have hlead : IsGap "  ".toList := by decide +kernel
  have hdigits : isHex "8".toList := by decide +kernel
  have hvalue : hexNat "8".toList = (8 : UInt64).toNat := by decide +kernel
  obtain ⟨htabbed, hspaces⟩ := read_tabbed_and_spaced hlead hdigits hvalue hbytes
    (by decide +kernel) (by decide +kernel) (by decide +kernel) hread
  have hspaces := hspaces (by decide +kernel)
  rw [hspaced] at hspaces
  exact ⟨htabbed, hspaces⟩

/-- Behind spaces a mnemonic that is a number of whole bytes is dropped with the bytes, and a run of
    blanks in an operand becomes one space. -/
theorem read_spaced_otherwise :
    let read := fun text : String => read [".text"] text.toList
    (read "fadd s0, s1" = .content (.instruction ⟨none, "fadd", ["s0", "s1"]⟩) ∧
      read "8000: ee30 fadd s0, s1" = .content .unknown) ∧
    read "foo a  b" = .content (.instruction ⟨none, "foo", ["a  b"]⟩) ∧
      read "8: bf00 foo a  b" = .content (.instruction ⟨some 8, "foo", ["a b"]⟩) := by
  decide +kernel

end Line

end FirmwareMatch
