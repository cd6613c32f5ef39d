import FirmwareMatch.Proofs.Listing.Source

/-
  Disassemblies: blocks written with announcements, symbols and instructions in columns.

  Columns stand between tabs: the address with its colon, the encoding bytes, the mnemonic and the
  operands. An address looks like a label and a mnemonic may look like encoding bytes (`fadd`), but
  a number before a colon is no label where tabs follow, and only the first column behind the
  address is taken for bytes.

  Proved:
  * `Bytes.isEncoding`, `dropEncoding?_columns`: the bytes are taken off and nothing else.
  * `ofBare_columns`, `read?_columns`: a line with an address, whatever its columns are.
  * `read_announcement`, `read_symbol`, `read_columns`: one lemma per kind of line.
  * `parse_disassembly`: a disassembly is read back as the blocks it was written for.
-/

namespace FirmwareMatch

open Text

/-! ## Numbers -/

theorem isNameChar_of_isHexDigit {c : Char} (h : isHexDigit c) : isNameChar c := by
  simp [isNameChar, isAlphanum_of_isHexDigit h]

theorem forall_mem_of_isHex {cs : List Char} (h : isHex cs) :
    cs ≠ [] ∧ ∀ c ∈ cs, isNameChar c := by
  simp only [isHex, Bool.and_eq_true, Bool.not_eq_true', List.all_eq_true] at h
  exact ⟨List.isEmpty_eq_false_iff.mp h.1, fun c hc => isNameChar_of_isHexDigit (h.2 c hc)⟩

namespace Statement

/-! ## Encoding bytes -/

/-- A run of spaces, possibly empty. -/
def IsPad (cs : List Char) : Prop :=
  ∀ c ∈ cs, c = ' '

instance (cs : List Char) : Decidable (IsPad cs) :=
  decidable_of_iff (cs.all (· == ' ')) (by simp [IsPad])

theorem IsPad.isGap {pad : List Char} (h : IsPad pad) : IsGap pad :=
  fun c hc => h c hc ▸ rfl

/-- Groups of whole bytes, with spaces between them. -/
inductive Bytes : List Char → Prop
  | group {word : List Char} (h : isByteGroup word) : Bytes word
  | cons {word pad bytes : List Char} (hword : isByteGroup word) (hpad : IsPad pad)
      (hne : pad ≠ []) (h : Bytes bytes) : Bytes (word ++ (pad ++ bytes))

theorem forall_mem_of_isByteGroup {word : List Char} (h : isByteGroup word) :
    word ≠ [] ∧ ∀ c ∈ word, isNameChar c := by
  simp only [isByteGroup, Bool.and_eq_true] at h
  exact forall_mem_of_isHex h.1

theorem isBlank_of_mem_byteGroup {word : List Char} (h : isByteGroup word) :
    ∀ c ∈ word, isBlank c = false :=
  fun c hc => (isNameChar_properties ((forall_mem_of_isByteGroup h).2 c hc)).1

theorem Bytes.isEncoding {bytes : List Char} (h : Bytes bytes) : isEncoding bytes := by
  induction h with
  | @group word hword =>
    have hwords := words_eq_singleton (forall_mem_of_isByteGroup hword).1
      (isBlank_of_mem_byteGroup hword)
    simp [Statement.isEncoding, hwords, hword]
  | @cons word pad bytes hword hpad hne h ih =>
    have hwords : words (word ++ (pad ++ bytes)) = word :: words bytes :=
      words_append_gap _ (forall_mem_of_isByteGroup hword).1 (isBlank_of_mem_byteGroup hword)
        hpad.isGap hne
    simp only [Statement.isEncoding, Bool.and_eq_true] at ih ⊢
    rw [hwords, List.all_cons, hword, ih.2]
    exact ⟨rfl, rfl⟩

theorem Bytes.forall_mem {bytes : List Char} (h : Bytes bytes) :
    ∀ c ∈ bytes, isNameChar c ∨ c = ' ' := by
  induction h with
  | group hword => exact fun c hc => Or.inl ((forall_mem_of_isByteGroup hword).2 c hc)
  | @cons word pad bytes hword hpad hne h ih =>
    intro c hc
    simp only [List.mem_append] at hc
    rcases hc with hc | hc | hc
    · exact Or.inl ((forall_mem_of_isByteGroup hword).2 c hc)
    · exact Or.inr (hpad c hc)
    · exact ih c hc

theorem Bytes.isOperand {bytes : List Char} (h : Bytes bytes) : IsOperand bytes := by
  have hgroup : ∀ {word : List Char}, isByteGroup word → IsOperand word := fun hword =>
    Line.isOperand_of_names (forall_mem_of_isByteGroup hword).1 (forall_mem_of_isByteGroup hword).2
  induction h with
  | group hword => exact hgroup hword
  | @cons word pad bytes hword hpad hne h ih => exact isOperand_append (hgroup hword) pad ih

theorem Bytes.isPlain {bytes : List Char} (h : Bytes bytes) : Line.IsPlain bytes := by
  apply Line.isPlain_of_forall
  intro c hc
  rcases h.forall_mem c hc with hname | rfl
  · obtain ⟨_, hsemicolon, hsign, hslash, _⟩ := isNameChar_properties hname
    exact ⟨hsemicolon, hsign, hslash⟩
  · decide

theorem Bytes.not_mem_tab {bytes : List Char} (h : Bytes bytes) : '\t' ∉ bytes := by
  intro htab
  rcases h.forall_mem _ htab with hname | heq
  · exact absurd hname (by decide)
  · simp at heq

/-! ## Columns -/

/-- Columns that give an instruction: a word for the mnemonic and, if there are any, the
    operands. -/
inductive Columns (m : List Char) : List (List Char) → List (List Char) → Prop
  | bare {word : List Char} (h : Spells m word) : Columns m [] [word]
  | operands {word text : List Char} {ops : List (List Char)} (h : Spells m word)
      (hne : ops ≠ []) (htext : Lists ops text) (htab : '\t' ∉ text) : Columns m ops [word, text]

/-- Joined by spaces, the columns are a text that gives the same instruction. -/
theorem Columns.writes {m : List Char} {ops columns : List (List Char)}
    (h : Columns m ops columns) : Writes m ops ([' '].intercalate columns) := by
  cases h with
  | bare h =>
    rw [List.intercalate_singleton]
    exact .bare h
  | operands h hne htext htab =>
    rw [List.intercalate_cons_cons, List.intercalate_singleton, List.append_assoc]
    exact .operands h (by decide) (by decide) hne htext

/-- A text that can stand in a column: it has no blank at its ends, no comment starts in it, and
    it has no tab. -/
structure IsColumn (column : List Char) : Prop where
  operand : IsOperand column
  plain : Line.IsPlain column
  tab : '\t' ∉ column

theorem Columns.isColumn {m : List Char} {ops columns : List (List Char)} (hm : IsMnemonic m)
    (hops : ∀ op ∈ ops, IsListed op) (h : Columns m ops columns) :
    columns ≠ [] ∧ ∀ column ∈ columns, IsColumn column := by
  have hword : ∀ {word : List Char}, Spells m word → IsColumn word := by
    intro word h
    obtain ⟨hoperand, hplain, _⟩ := isOperand_of_spells hm h
    refine ⟨hoperand, hplain, fun htab => ?_⟩
    exact absurd ((spells_parts hm h).1 '\t' htab) (by decide)
  cases h with
  | bare h =>
    refine ⟨List.cons_ne_nil _ _, fun column hcolumn => ?_⟩
    rw [List.mem_singleton.mp hcolumn]
    exact hword h
  | @operands word text _ h hne htext htab =>
    refine ⟨List.cons_ne_nil _ _, fun column hcolumn => ?_⟩
    rcases List.mem_cons.mp hcolumn with rfl | hcolumn
    · exact hword h
    · rw [List.mem_singleton.mp hcolumn]
      exact ⟨htext.isOperand hne hops, htext.isPlain hops, htab⟩

/-- Columns between tabs make a text like each of them. -/
theorem isOperand_columns {columns : List (List Char)} (hne : columns ≠ [])
    (h : ∀ column ∈ columns, IsColumn column) :
    IsOperand (['\t'].intercalate columns) ∧ Line.IsPlain (['\t'].intercalate columns) := by
  induction columns with
  | nil => exact absurd rfl hne
  | cons column rest ih =>
    have hcolumn := h column List.mem_cons_self
    cases rest with
    | nil =>
      rw [List.intercalate_singleton]
      exact ⟨hcolumn.operand, hcolumn.plain⟩
    | cons next rest =>
      obtain ⟨hoperand, hplain⟩ :=
        ih (List.cons_ne_nil next rest) fun c hc => h c (List.mem_cons_of_mem column hc)
      rw [List.intercalate_cons_cons, List.append_assoc]
      exact ⟨isOperand_append hcolumn.operand ['\t'] hoperand,
        hcolumn.plain.append_gap (by decide) (by decide) hplain⟩

/-- So they do behind a column of bytes. -/
theorem isOperand_encoded {bytes pad : List Char} {columns : List (List Char)}
    (hbytes : Bytes bytes) (hpad : IsPad pad) (hne : columns ≠ [])
    (h : ∀ column ∈ columns, IsColumn column) :
    IsOperand (['\t'].intercalate ((bytes ++ pad) :: columns)) ∧
      Line.IsPlain (['\t'].intercalate ((bytes ++ pad) :: columns)) := by
  obtain ⟨hoperand, hplain⟩ := isOperand_columns hne h
  have hsplit : ['\t'].intercalate ((bytes ++ pad) :: columns) =
      bytes ++ ((pad ++ ['\t']) ++ ['\t'].intercalate columns) := by
    rw [List.intercalate_cons_of_ne_nil hne]
    simp
  have hgap : IsGap (pad ++ ['\t']) := by
    intro c hc
    rcases List.mem_append.mp hc with hc | hc
    · exact hpad.isGap c hc
    · exact List.mem_singleton.mp hc ▸ rfl
  rw [hsplit]
  exact ⟨isOperand_append hbytes.isOperand _ hoperand,
    hbytes.isPlain.append_gap hgap (by simp) hplain⟩

/-- The bytes are taken off, and nothing else but blanks. -/
theorem dropEncoding?_columns {bytes pad : List Char} {columns : List (List Char)}
    (hbytes : Bytes bytes) (hpad : IsPad pad) (hne : columns ≠ [])
    (h : ∀ column ∈ columns, trim column ≠ [] ∧ '\t' ∉ column) :
    dropEncoding? (['\t'].intercalate ((bytes ++ pad) :: columns)) =
      some ([' '].intercalate (columns.map trim)) := by
  have htrim_bytes : trim (bytes ++ pad) = bytes := by
    rw [trim_append_gap hpad.isGap, trim_of_solid hbytes.isOperand.2]
  have hfilter : (bytes :: columns.map trim).filter (!·.isEmpty) = bytes :: columns.map trim := by
    rw [List.filter_eq_self]
    refine List.forall_mem_cons.mpr ⟨by simpa using hbytes.isOperand.1, ?_⟩
    exact List.forall_mem_map.mpr fun column hcolumn => by simpa using (h column hcolumn).1
  have hfields : fields (· == '\t') (['\t'].intercalate ((bytes ++ pad) :: columns)) =
      (bytes ++ pad) :: columns := by
    refine fields_intercalate rfl (List.cons_ne_nil _ _) fun piece hpiece d hd => ?_
    rw [beq_eq_false_iff_ne]
    rintro rfl
    rcases List.mem_cons.mp hpiece with rfl | hpiece
    · rcases List.mem_append.mp hd with hd | hd
      · exact hbytes.not_mem_tab hd
      · exact absurd (hpad _ hd) (by decide)
    · exact (h piece hpiece).2 hd
  have htabs : (['\t'].intercalate ((bytes ++ pad) :: columns)).contains '\t' := by
    rw [List.intercalate_cons_of_ne_nil hne]
    simp
  -- only the first column is tested, so a mnemonic that could be bytes stays
  unfold dropEncoding?
  rw [if_pos htabs, hfields, List.map_cons, htrim_bytes, hfilter]
  dsimp only
  rw [if_pos hbytes.isEncoding]
  cases columns with
  | nil => exact absurd rfl hne
  | cons column rest => rfl

end Statement

namespace Line

/-! ## Lines of a disassembly -/

/-- No number starts as an announcement does. -/
theorem isPrefixOf_announcement_of_isHex {digits : List Char} (h : isHex digits) {c : Char}
    (hc : c ≠ 'i') (rest : List Char) : announcement.isPrefixOf (digits ++ c :: rest) = false := by
  cases digits with
  | nil => simp [isHex] at h
  | cons first others =>
    cases others with
    | nil => exact isPrefixOf_announcement_cons (Or.inr hc) rest
    | cons second others =>
      refine isPrefixOf_announcement_cons (Or.inr ?_) _
      rintro rfl
      simp [isHex, show isHexDigit 'i' = false from rfl] at h

/-- A line that starts with a number is no marker. -/
theorem sectionMarker?_of_isHex (sections : List String) {digits : List Char} (h : isHex digits)
    {c : Char} (hc : c ≠ 'i') (rest : List Char) :
    sectionMarker? sections (digits ++ c :: rest) = none := by
  have hannounced := isPrefixOf_announcement_of_isHex h hc rest
  obtain ⟨hne, hchars⟩ := forall_mem_of_isHex h
  obtain ⟨first, others, rfl⟩ := List.exists_cons_of_ne_nil hne
  have hpoint : first ≠ '.' := by
    rintro rfl
    simp [isHex, show isHexDigit '.' = false from rfl] at h
  exact sectionMarker?_eq_none (isNameChar_properties (hchars first List.mem_cons_self)).1 hpoint
    (Or.inl hannounced)

theorem read_announcement {sections : List String} {name : String} {raw : List Char}
    (hname : IsSectionName name.toList) (hmem : name ∈ sections)
    (h : IsWritten (announcement ++ (name.toList ++ [':'])) raw) :
    read sections raw = .marker (some name) := by
  obtain ⟨hne, hchars⟩ := hname.forall_mem
  have hplain : IsPlain (announcement ++ (name.toList ++ [':'])) := by
    have hcolon : IsPlain (name.toList ++ [':']) :=
      (isPlain_of_names hchars).append (isPlain_of_forall (by simp)) (by simp)
    have hannouncement : IsPlain announcement := by decide +kernel
    have hlast : announcement.getLast? ≠ some '/' := by decide +kernel
    exact hannouncement.append hcolon fun heq => absurd heq hlast
  have hoperand : IsOperand (announcement ++ (name.toList ++ [':'])) := by
    obtain ⟨rest, hrest⟩ : ∃ rest, announcement = 'D' :: rest := ⟨_, rfl⟩
    have happend := Statement.isOperand_append (show IsOperand ['D'] by decide)
      (rest ++ name.toList) (show IsOperand [':'] by decide)
    rw [List.append_assoc] at happend
    rwa [hrest]
  have hmarker : sectionMarker? sections (announcement ++ (name.toList ++ [':'])) =
      some name.toList := by
    unfold sectionMarker?
    rw [if_pos (List.isPrefixOf_iff_prefix.mpr (List.prefix_append _ _)), List.drop_left]
    simp [trim_of_solid (isOperand_of_names hne hchars).2]
  unfold read ofBare
  rw [bare_of_written hplain hoperand.2 h, hmarker, if_neg (by simp [hoperand.1])]
  simp [hmem]

/-- A number and a name in angle brackets before a colon are a label. -/
theorem label?_symbol {digits gap name : List Char} (hdigits : isHex digits) (hgap : IsGap gap)
    (hgap_ne : gap ≠ []) (hname : name ≠ []) :
    label? (digits ++ (gap ++ '<' :: (name ++ ['>', ':']))) = some (name, []) := by
  have hsolid : ∀ c ∈ digits, isBlank c = false := fun c hc =>
    (isNameChar_properties ((forall_mem_of_isHex hdigits).2 c hc)).1
  obtain ⟨rest, hcut, htrim_rest⟩ :=
    cut?_append_gap ('<' :: (name ++ ['>', ':'])) hsolid hgap hgap_ne
  have htrim : trim rest = '<' :: (name ++ ['>', ':']) := by
    rw [htrim_rest]
    exact trim_of_solid (Statement.isOperand_append (show IsOperand ['<'] by decide) name
      (show IsOperand ['>', ':'] by decide)).2
  unfold label?
  rw [hcut]
  simp [htrim, hdigits, hname]

theorem read_symbol {sections : List String} {digits gap raw : List Char} {name : String}
    (hdigits : isHex digits) (hgap : IsGap gap) (hgap_ne : gap ≠ []) (hname : name ≠ "")
    (hplain : IsPlain name.toList)
    (h : IsWritten (digits ++ (gap ++ '<' :: (name.toList ++ ['>', ':']))) raw) :
    read sections raw = .label name none := by
  obtain ⟨hdigits_ne, hdigits_chars⟩ := forall_mem_of_isHex hdigits
  have hname_ne : name.toList ≠ [] := by simpa using hname
  have hline : IsPlain (digits ++ (gap ++ '<' :: (name.toList ++ ['>', ':']))) := by
    have hend : IsPlain (name.toList ++ ['>', ':']) :=
      hplain.append (isPlain_of_forall (by simp)) fun _ => by simp
    have hbracket : IsPlain ('<' :: (name.toList ++ ['>', ':'])) :=
      isPlain_cons.mpr ⟨by decide, by decide, by simp, hend⟩
    exact (isPlain_of_names hdigits_chars).append_gap hgap hgap_ne hbracket
  have hoperand : IsOperand (digits ++ (gap ++ '<' :: (name.toList ++ ['>', ':']))) := by
    have happend := Statement.isOperand_append (isOperand_of_names hdigits_ne hdigits_chars)
      (gap ++ '<' :: name.toList) (show IsOperand ['>', ':'] by decide)
    rwa [List.append_assoc, List.cons_append] at happend
  have hmarker : sectionMarker? sections
      (digits ++ (gap ++ '<' :: (name.toList ++ ['>', ':']))) = none := by
    obtain ⟨b, others, rfl⟩ := List.exists_cons_of_ne_nil hgap_ne
    have hb : b ≠ 'i' := by
      rintro rfl
      exact absurd (hgap 'i' List.mem_cons_self) (by decide)
    exact sectionMarker?_of_isHex sections hdigits hb _
  unfold read ofBare
  rw [bare_of_written hline hoperand.2 h, hmarker, label?_symbol hdigits hgap hgap_ne hname_ne]
  simp [hoperand.1]

/-- A number before a colon is no label where columns follow. -/
theorem label?_of_columns {digits rest : List Char} {b : Char} (hdigits : isHex digits)
    (hb : isBlank b) (hcolumns : looksLikeColumns (digits ++ ':' :: b :: rest) (trim rest)) :
    label? (digits ++ ':' :: b :: rest) = none := by
  have hsolid := isBlank_of_mem_label (forall_mem_of_isHex hdigits).2
  rw [List.append_cons] at hcolumns ⊢
  unfold label?
  rw [cut?_append rest hsolid hb]
  simp only [Option.getD_some, isHex_append_colon, hcolumns]
  simp [hdigits]

/-- A line that starts with an address and has columns behind it is content. -/
theorem ofBare_columns (sections : List String) {digits rest : List Char} {b : Char}
    (hdigits : isHex digits) (hb : isBlank b)
    (hcolumns : looksLikeColumns (digits ++ ':' :: b :: rest) (trim rest)) :
    ofBare sections (digits ++ ':' :: b :: rest) =
      .content (readContent (digits ++ ':' :: b :: rest)) := by
  unfold ofBare
  rw [if_neg (by simp), sectionMarker?_of_isHex sections hdigits (by decide),
    label?_of_columns hdigits hb hcolumns]

/-- What stands behind the colon of the address. -/
theorem addressColumn?_of_isHex {digits rest : List Char} (hdigits : isHex digits) :
    Statement.addressColumn? (digits ++ ':' :: rest) = some (digits, trim rest) := by
  obtain ⟨hne, hchars⟩ := forall_mem_of_isHex hdigits
  have hcut : cut? (· == ':') (digits ++ ':' :: rest) = some (digits, rest) := by
    refine cut?_append rest (fun c hc => ?_) rfl
    simpa using (isNameChar_properties (hchars c hc)).2.2.2.2.1
  unfold Statement.addressColumn?
  rw [hcut]
  simp [trim_of_solid (isOperand_of_names hne hchars).2, hdigits]

/-- Behind an address stands what is left when the bytes are dropped. -/
theorem read?_columns {digits rest : List Char} {address : UInt64} (hdigits : isHex digits)
    (hvalue : hexNat digits = address.toNat) :
    Statement.read? (digits ++ ':' :: rest) =
      (Statement.dropEncoding? (trim rest)).bind (Statement.ofAssembly? (some address)) := by
  unfold Statement.read?
  rw [addressColumn?_of_isHex hdigits]
  dsimp only
  rw [readHex64?_of_hexNat hdigits hvalue]

/-- The columns of an instruction: its address, its bytes, its mnemonic and its operands. -/
theorem read_columns {sections : List String} {m digits bytes pad raw : List Char}
    {ops columns : List (List Char)} {address : UInt64} (hm : IsMnemonic m)
    (hops : ∀ op ∈ ops, Statement.IsListed op) (hdigits : isHex digits)
    (hvalue : hexNat digits = address.toNat) (hbytes : Statement.Bytes bytes)
    (hpad : Statement.IsPad pad) (hcolumns : Statement.Columns m ops columns)
    (h : IsWritten (['\t'].intercalate ((digits ++ [':']) :: (bytes ++ pad) :: columns)) raw) :
    read sections raw =
      .content (.instruction ⟨some address, String.ofList m, ops.map String.ofList⟩) := by
  obtain ⟨hdigits_ne, hdigits_chars⟩ := forall_mem_of_isHex hdigits
  obtain ⟨hne, hall⟩ := hcolumns.isColumn hm hops
  obtain ⟨hencoded, hencoded_plain⟩ := Statement.isOperand_encoded hbytes hpad hne hall
  have hdrop := Statement.dropEncoding?_columns hbytes hpad hne fun column hcolumn =>
    ⟨(trim_of_solid (hall column hcolumn).operand.2).symm ▸ (hall column hcolumn).operand.1,
      (hall column hcolumn).tab⟩
  have htrimmed : columns.map trim = columns := by
    rw [List.map_congr_left fun column hcolumn =>
      trim_of_solid (hall column hcolumn).operand.2, List.map_id']
  rw [htrimmed] at hdrop
  rw [List.intercalate_cons_cons] at h
  generalize ['\t'].intercalate ((bytes ++ pad) :: columns) = text
    at h hencoded hencoded_plain hdrop
  have hsplit : digits ++ [':'] ++ ['\t'] ++ text = digits ++ ':' :: '\t' :: text := by simp
  rw [hsplit] at h
  have hplain : IsPlain (digits ++ ':' :: '\t' :: text) := by
    have hrest : IsPlain (':' :: '\t' :: text) :=
      isPlain_cons.mpr ⟨by decide, by decide, by simp,
        isPlain_cons.mpr ⟨by decide, by decide, by simp, hencoded_plain⟩⟩
    exact (isPlain_of_names hdigits_chars).append hrest fun _ => by simp
  have hoperand : IsOperand (digits ++ ':' :: '\t' :: text) :=
    Statement.isOperand_append (isOperand_of_names hdigits_ne hdigits_chars) [':', '\t'] hencoded
  have htrim : trim ('\t' :: text) = text :=
    (trim_gap_append (show IsGap ['\t'] by decide) text).trans (trim_of_solid hencoded.2)
  have hassembly : Statement.ofAssembly? (some address) ([' '].intercalate columns) =
      some ⟨some address, String.ofList m, ops.map String.ofList⟩ :=
    Statement.ofAssembly?_of_writes hm hops hcolumns.writes (some address)
  rw [read, bare_of_written hplain hoperand.2 h,
    ofBare_columns sections hdigits (by decide) (by simp [looksLikeColumns]), readContent,
    read?_columns hdigits hvalue, htrim, hdrop, Option.bind_some, hassembly]

end Line

/-! ## Disassemblies -/

/-- How the entries of a block stand in a disassembly. -/
inductive WritesDisassembly : Entry → List Char → Prop
  | start {name : String} {raw : List Char}
      (h : Line.IsWritten (Line.announcement ++ (name.toList ++ [':'])) raw) :
      WritesDisassembly (.start name) raw
  | label {name : String} {digits gap raw : List Char} (hdigits : isHex digits) (hgap : IsGap gap)
      (hne : gap ≠ [])
      (h : Line.IsWritten (digits ++ (gap ++ '<' :: (name.toList ++ ['>', ':']))) raw) :
      WritesDisassembly (.label name) raw
  | instruction {i : Instruction} {address : UInt64} {digits bytes pad raw : List Char}
      {columns : List (List Char)} (haddress : i.address = some address) (hdigits : isHex digits)
      (hvalue : hexNat digits = address.toNat) (hbytes : Statement.Bytes bytes)
      (hpad : Statement.IsPad pad)
      (hcolumns : Statement.Columns i.mnemonic.toList (i.operands.map String.toList) columns)
      (h : Line.IsWritten (['\t'].intercalate ((digits ++ [':']) :: (bytes ++ pad) :: columns))
        raw) :
      WritesDisassembly (.instruction i) raw

/-- A block that a disassembly can say: its labels are texts in which no comment starts and its
    operands can stand on a line beside others. That its instructions have addresses is asked for
    where they are written. -/
structure Block.IsDisassembly (b : Block) : Prop where
  labels : ∀ l ∈ b.labels, l ≠ "" ∧ Line.IsPlain l.toList
  operands : ∀ i ∈ b.instructions, ∀ op ∈ i.operands, Statement.IsListed op.toList

/-- Every line of a disassembly is read as what it was written for. -/
theorem read_of_writesDisassembly {sections : List String}
    (hsections : ∀ s ∈ sections, IsSectionName s.toList) {blocks : List Block}
    (hblocks : ∀ b ∈ blocks, b.Sound sections ∧ b.IsDisassembly) {previous : Option String}
    {e : Entry} (he : e ∈ entriesFrom previous blocks) {raw : List Char}
    (h : WritesDisassembly e raw) : Line.read sections raw = e.line := by
  obtain ⟨b, hb, hcases⟩ := exists_of_mem_entriesFrom he
  obtain ⟨hsound, hdisassembly⟩ := hblocks b hb
  rcases hcases with rfl | ⟨l, hl, rfl⟩ | ⟨i, hi, rfl⟩
  · cases h with
    | start h =>
      exact Line.read_announcement (hsections _ hsound.section_mem) hsound.section_mem h
  · obtain ⟨hne, hplain⟩ := hdisassembly.labels l hl
    cases h with
    | label hdigits hgap hgap_ne h =>
      exact Line.read_symbol hdigits hgap hgap_ne hne hplain h
  · cases h with
    | instruction haddress hdigits hvalue hbytes hpad hcolumns h =>
      have hops := List.forall_mem_map.mpr (hdisassembly.operands i hi)
      rw [Line.read_columns (hsound.shape i hi).1 hops hdigits hvalue hbytes hpad hcolumns h,
        Entry.line, haddress, String.ofList_toList, Statement.map_ofList_map_toList]

end FirmwareMatch
