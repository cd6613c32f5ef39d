import FirmwareMatch.Proofs.Listing.Comment
import FirmwareMatch.Proofs.Listing.Depth
import FirmwareMatch.Proofs.Listing.Statement

/-
  Instructions as they are written: a mnemonic in any case, possibly with a qualifier, and
  operands with commas between them.

  An operand may hold commas of its own inside brackets. The splitter only counts how deep it is;
  on properly nested brackets the depth is the number of brackets that wait to be closed, so it is
  zero at the commas between operands and nowhere else.

  Proved:
  * `isWhole_of_isNested`, `pieces_append_nested`: a nested text is never cut.
  * `splitOperands_of_lists`: the operands of a list are found again, whatever blanks stand around
    the commas.
  * `mnemonic?_of_spells`: so is the mnemonic.
  * `ofAssembly?_of_writes`: both together.
-/

namespace FirmwareMatch.Statement

open Text

/-! ## Brackets -/

/-- The bracket that closes an opening one. -/
def closing? : Char → Option Char
  | '[' => some ']'
  | '\x7b' => some '\x7d'
  | '(' => some ')'
  | '<' => some '>'
  | _ => none

/-- Whether brackets are properly nested and commas stand inside brackets only. The brackets in
    `waiting` are still to be closed, the first of them next. -/
def isNested (waiting : List Char) : List Char → Bool
  | [] => waiting.isEmpty
  | c :: cs =>
    match closing? c with
    | some d => isNested (d :: waiting) cs
    | none =>
      if isClosing c then waiting.head? == some c && isNested waiting.tail cs
      else (c != ',' || !waiting.isEmpty) && isNested waiting cs

theorem nesting_of_closing?_eq_some {c d : Char} (h : closing? c = some d) :
    nesting c = 1 ∧ c ≠ ',' := by
  unfold closing? at h
  split at h
  case h_5 => simp at h
  all_goals decide

theorem nesting_of_isClosing {c : Char} (h : isClosing c) : nesting c = -1 ∧ c ≠ ',' := by
  simp only [isClosing, Bool.or_eq_true, beq_iff_eq] at h
  rcases h with ((rfl | rfl) | rfl) | rfl <;> decide

theorem nesting_of_no_bracket {c : Char} (hopen : closing? c = none)
    (hclose : isClosing c = false) : nesting c = 0 := by
  unfold closing? at hopen
  split at hopen
  case h_5 hsquare hcurly hround hangle =>
    have hopening : (c == '[' || c == '\x7b' || c == '(' || c == '<') = false := by
      simp only [Bool.or_eq_false_iff, beq_eq_false_iff_ne]
      exact ⟨⟨⟨hsquare, hcurly⟩, hround⟩, hangle⟩
    unfold isClosing at hclose
    unfold nesting
    rw [hopening, hclose]
    rfl
  all_goals simp at hopen

/-- Nested texts in a row are nested. -/
theorem isNested_append {waiting cs ds : List Char} (hcs : isNested waiting cs)
    (hds : isNested [] ds) : isNested waiting (cs ++ ds) := by
  induction cs generalizing waiting with
  | nil =>
    obtain rfl : waiting = [] := List.isEmpty_iff.mp hcs
    exact hds
  | cons c cs ih =>
    rw [isNested] at hcs
    rw [List.cons_append, isNested]
    cases hopen : closing? c with
    | some d =>
      rw [hopen] at hcs
      exact ih hcs
    | none =>
      rw [hopen] at hcs
      dsimp only at hcs ⊢
      split
      · rename_i hclose
        rw [if_pos hclose, Bool.and_eq_true] at hcs
        rw [Bool.and_eq_true]
        exact ⟨hcs.1, ih hcs.2⟩
      · rename_i hclose
        rw [if_neg hclose, Bool.and_eq_true] at hcs
        rw [Bool.and_eq_true]
        exact ⟨hcs.1, ih hcs.2⟩

theorem isNested_of_gap {gap : List Char} (h : IsGap gap) : isNested [] gap := by
  induction gap with
  | nil => rfl
  | cons c gap ih =>
    have hne := ne_of_isBlank (h c List.mem_cons_self)
    have hrest := ih fun d hd => h d (List.mem_cons_of_mem c hd)
    simp [isNested, closing?, isClosing, hne, hrest]

/-! ## Pieces -/

/-- Nested brackets close what waits to be closed, and no comma between them cuts. -/
theorem isWhole_of_isNested {waiting cs : List Char} (h : isNested waiting cs) :
    IsWhole waiting.length cs ∧ waiting.length + depth cs = 0 := by
  induction cs generalizing waiting with
  | nil =>
    obtain rfl : waiting = [] := List.isEmpty_iff.mp h
    exact ⟨isWhole_nil _, rfl⟩
  | cons c cs ih =>
    rw [isNested] at h
    rw [isWhole_cons, depth_cons]
    cases hopen : closing? c with
    | some d =>
      rw [hopen] at h
      obtain ⟨hdepth, hcomma⟩ := nesting_of_closing?_eq_some hopen
      obtain ⟨hwhole, hzero⟩ := ih h
      rw [List.length_cons, Int.natCast_succ] at hwhole hzero
      rw [hdepth]
      exact ⟨⟨fun hc => absurd hc hcomma, hwhole⟩, by omega⟩
    | none =>
      rw [hopen] at h
      dsimp only at h
      split at h
      · rename_i hclose
        obtain ⟨hdepth, hcomma⟩ := nesting_of_isClosing hclose
        rw [Bool.and_eq_true, beq_iff_eq] at h
        obtain ⟨next, rest, rfl⟩ := List.exists_cons_of_ne_nil
          (show waiting ≠ [] by rintro rfl; simp at h)
        obtain ⟨hwhole, hzero⟩ := ih h.2
        have hlength : ((next :: rest).length : Int) + -1 = rest.length := by
          rw [List.length_cons]
          omega
        rw [hdepth, hlength]
        exact ⟨⟨fun hc => absurd hc hcomma, hwhole⟩, by rw [List.tail_cons] at hzero; omega⟩
      · rename_i hclose
        have hdepth := nesting_of_no_bracket hopen (by simpa using hclose)
        rw [Bool.and_eq_true, Bool.or_eq_true, bne_iff_ne, Bool.not_eq_true'] at h
        obtain ⟨hwhole, hzero⟩ := ih h.2
        rw [hdepth, Int.add_zero, Int.zero_add]
        refine ⟨⟨fun hc => ?_, hwhole⟩, hzero⟩
        have hwaiting : waiting ≠ [] := fun hnil => by simp [hc, hnil] at h
        have hpos := List.length_pos_iff.mpr hwaiting
        omega

/-- A nested text is not cut, as deep as the brackets that wait to be closed. -/
theorem pieces_append_nested {waiting cs : List Char} (h : isNested waiting cs)
    (rest : List Char) :
    pieces waiting.length (cs ++ rest) = cs.foldr extendField (pieces 0 rest) := by
  obtain ⟨hwhole, hzero⟩ := isWhole_of_isNested h
  rw [pieces_append_whole hwhole, hzero]

/-! ## Lists of operands -/

/-- An operand that a line can hold beside others: not empty and without blanks at its ends, with
    nothing in it that ends the line, the column or the label of a line or starts a comment, with
    nested brackets, and with commas inside them only. -/
structure IsListed (op : List Char) : Prop where
  operand : IsOperand op
  line : '\n' ∉ op
  tab : '\t' ∉ op
  colon : ':' ∉ op
  plain : Line.IsPlain op
  nested : isNested [] op

theorem isOperand_iff {op : List Char} :
    op ≠ [] ∧ op.head?.all (!isBlank ·) ∧ op.getLast?.all (!isBlank ·) ↔ IsOperand op := by
  simp [IsOperand, Option.all_eq_true]

instance (op : List Char) : Decidable (IsOperand op) :=
  decidable_of_iff _ isOperand_iff

/-- A text that starts as an operand and ends as one is like an operand itself. -/
theorem isOperand_append {cs ds : List Char} (hcs : IsOperand cs) (between : List Char)
    (hds : IsOperand ds) : IsOperand (cs ++ (between ++ ds)) := by
  obtain ⟨c, rest, rfl⟩ := List.exists_cons_of_ne_nil hcs.1
  have hsolid := isSolid_append (List.cons_ne_nil c (rest ++ between)) hds.1 hcs.2.1 hds.2.2
  rw [← List.cons_append, List.append_assoc] at hsolid
  exact ⟨List.cons_ne_nil _ _, hsolid⟩

instance (op : List Char) : Decidable (IsListed op) :=
  decidable_of_iff (IsOperand op ∧ '\n' ∉ op ∧ '\t' ∉ op ∧ ':' ∉ op ∧ Line.IsPlain op ∧
      isNested [] op)
    ⟨fun ⟨operand, line, tab, colon, plain, nested⟩ => ⟨operand, line, tab, colon, plain, nested⟩,
      fun h => ⟨h.operand, h.line, h.tab, h.colon, h.plain, h.nested⟩⟩

/-- A text that lists operands: commas between them, and blanks around the commas. -/
inductive Lists : List (List Char) → List Char → Prop
  | nil : Lists [] []
  | single (op : List Char) : Lists [op] op
  | cons {op next before behind text : List Char} {ops : List (List Char)}
      (hbefore : IsGap before) (hbehind : IsGap behind) (h : Lists (next :: ops) text) :
      Lists (op :: next :: ops) (op ++ before ++ ',' :: (behind ++ text))

theorem splitOperands_gap_append {gap : List Char} (h : IsGap gap) (cs : List Char) :
    splitOperands (gap ++ cs) = splitOperands cs := by
  have hpieces := pieces_append_nested (isNested_of_gap h) cs
  rw [List.length_nil, Int.natCast_zero] at hpieces
  unfold splitOperands
  rw [hpieces]
  cases hrest : pieces 0 cs with
  | nil => exact absurd hrest (pieces_ne_nil 0 cs)
  | cons f fs => rw [extendField_foldr, List.map_cons, List.map_cons, trim_gap_append h]

/-- The operands of a list are found again. -/
theorem splitOperands_of_lists {ops : List (List Char)} {text : List Char}
    (hops : ∀ op ∈ ops, IsListed op) (h : Lists ops text) : splitOperands text = ops := by
  have htrim : ∀ op, IsListed op → trim op = op := fun op hop =>
    trim_of_solid hop.operand.2
  induction h with
  | nil => rfl
  | single op =>
    have hop := hops op List.mem_cons_self
    have hpieces := pieces_append_nested hop.nested []
    rw [List.append_nil, List.length_nil, Int.natCast_zero, pieces, extendField_foldr,
      List.append_nil] at hpieces
    unfold splitOperands
    rw [hpieces, List.map_singleton, htrim op hop,
      List.filter_cons_of_pos (by simpa using hop.operand.1), List.filter_nil]
  | @cons op next before behind text ops hbefore hbehind h ih =>
    have hop := hops op List.mem_cons_self
    have hrest := ih fun p hp => hops p (List.mem_cons_of_mem op hp)
    have hpieces := pieces_append_nested
      (isNested_append hop.nested (isNested_of_gap hbefore)) (',' :: (behind ++ text))
    have hcomma : pieces 0 (',' :: (behind ++ text)) = [] :: pieces 0 (behind ++ text) := rfl
    rw [List.length_nil, Int.natCast_zero, hcomma, extendField_foldr, List.append_nil] at hpieces
    rw [← splitOperands_gap_append hbehind text] at hrest
    unfold splitOperands at hrest ⊢
    rw [hpieces, List.map_cons, trim_append_gap hbefore, htrim op hop,
      List.filter_cons_of_pos (by simpa using hop.operand.1), hrest]

/-- What holds of blanks, of the comma and of the characters of the operands holds of the
    characters of their list. -/
theorem Lists.forall_mem {P : Char → Prop} {ops : List (List Char)} {text : List Char}
    (hblank : ∀ c, isBlank c → P c) (hcomma : P ',') (hops : ∀ op ∈ ops, ∀ c ∈ op, P c)
    (h : Lists ops text) : ∀ c ∈ text, P c := by
  induction h with
  | nil => simp
  | single op => exact hops op List.mem_cons_self
  | @cons op next before behind text ops hbefore hbehind h ih =>
    intro c hc
    simp only [List.mem_append, List.mem_cons] at hc
    rcases hc with (hc | hc) | rfl | hc | hc
    · exact hops op List.mem_cons_self c hc
    · exact hblank c (hbefore c hc)
    · exact hcomma
    · exact hblank c (hbehind c hc)
    · exact ih (fun p hp => hops p (List.mem_cons_of_mem op hp)) c hc

theorem Lists.isPlain {ops : List (List Char)} {text : List Char}
    (hops : ∀ op ∈ ops, IsListed op) (h : Lists ops text) : Line.IsPlain text := by
  induction h with
  | nil => exact Line.isPlain_nil
  | single op => exact (hops op List.mem_cons_self).plain
  | @cons op next before behind text ops hbefore hbehind h ih =>
    have htext := ih fun p hp => hops p (List.mem_cons_of_mem op hp)
    have hcomma : Line.IsPlain (',' :: (behind ++ text)) :=
      Line.isPlain_cons.mpr ⟨by decide, by decide, by simp, Line.isPlain_gap_append hbehind htext⟩
    have hop := (hops op List.mem_cons_self).plain.append (Line.isPlain_of_gap hbefore)
      fun _ => Line.head?_ne_slash_of_gap hbefore
    exact hop.append hcomma fun _ => by simp

/-- A list that is not empty starts with its first operand and ends with its last one. -/
theorem Lists.isOperand {ops : List (List Char)} {text : List Char} (hne : ops ≠ [])
    (hops : ∀ op ∈ ops, IsListed op) (h : Lists ops text) : IsOperand text := by
  induction h with
  | nil => exact absurd rfl hne
  | single op => exact (hops op List.mem_cons_self).operand
  | @cons op next before behind text ops hbefore hbehind h ih =>
    have hop := (hops op List.mem_cons_self).operand
    have htext := ih (List.cons_ne_nil next ops) fun p hp => hops p (List.mem_cons_of_mem op hp)
    have hsplit : op ++ before ++ ',' :: (behind ++ text) =
        op ++ ((before ++ ',' :: behind) ++ text) := by simp
    rw [hsplit]
    exact isOperand_append hop _ htext

/-! ## Mnemonics -/

theorem isMnemonic_cons {c : Char} {rest : List Char} :
    (c.isLower && rest.all fun d => d.isLower || d.isDigit || d == '_') = true ↔
      IsMnemonic (c :: rest) := by
  simp [IsMnemonic, or_assoc]

instance : (cs : List Char) → Decidable (IsMnemonic cs)
  | [] => isFalse (by simp [IsMnemonic])
  | _ :: _ => decidable_of_iff _ isMnemonic_cons

/-- A word that stands for a mnemonic: its letters in any case, possibly with a point and a
    qualifier behind it. -/
inductive Spells (m : List Char) : List Char → Prop
  | plain {word : List Char} (h : word.map Char.toLower = m) : Spells m word
  | qualified {word qualifier : List Char} (h : word.map Char.toLower = m)
      (hqualifier : ∀ c ∈ qualifier, isMnemonicChar c) : Spells m (word ++ '.' :: qualifier)

/-- What a character of a mnemonic is written as. -/
theorem isMnemonicChar_of_toLower {c : Char}
    (h : c.toLower.isLower ∨ c.toLower.isDigit ∨ c.toLower = '_') :
    isMnemonicChar c ∧ c ≠ '.' := by
  constructor
  · simp only [isMnemonicChar, Char.isAlphanum, Char.isAlpha, Bool.or_eq_true, beq_iff_eq]
    by_cases hupper : c.isUpper
    · exact Or.inl (Or.inl (Or.inl (Or.inl hupper)))
    · rw [Char.toLower_eq_of_not_isUpper hupper] at h
      rcases h with h | h | h
      · exact Or.inl (Or.inl (Or.inl (Or.inr h)))
      · exact Or.inl (Or.inl (Or.inr h))
      · exact Or.inr h
  · rintro rfl
    exact absurd h (by decide)

/-- The characters of a word that stands for a mnemonic, and the part of it that counts. -/
theorem spells_parts {m word : List Char} (hm : IsMnemonic m) (h : Spells m word) :
    (∀ c ∈ word, isMnemonicChar c) ∧ (word.takeWhile (· != '.')).map Char.toLower = m ∧
      ∃ c rest, word = c :: rest ∧ c.isAlpha := by
  obtain ⟨first, others, rfl, hfirst, hothers⟩ := hm
  -- a letter, digit or underscore in lower case is one itself, and no point
  have hbase : ∀ base : List Char, base.map Char.toLower = first :: others →
      ∀ c ∈ base, isMnemonicChar c ∧ c ≠ '.' := by
    intro base hlower c hc
    apply isMnemonicChar_of_toLower
    have hmem : c.toLower ∈ first :: others := hlower ▸ List.mem_map_of_mem hc
    rcases List.mem_cons.mp hmem with heq | hmem
    · exact Or.inl (heq ▸ hfirst)
    · exact hothers _ hmem
  have hhead : ∀ base : List Char, base.map Char.toLower = first :: others →
      ∃ c rest, base = c :: rest ∧ c.isAlpha := by
    intro base hlower
    cases base with
    | nil => simp at hlower
    | cons c rest =>
      refine ⟨c, rest, rfl, ?_⟩
      rw [List.map_cons, List.cons.injEq] at hlower
      rw [← Char.isLower_toLower_eq_isAlpha, hlower.1]
      exact hfirst
  cases h with
  | plain h =>
    refine ⟨fun c hc => (hbase _ h c hc).1, ?_, hhead _ h⟩
    rw [List.takeWhile_eq_self_iff.mpr fun c hc => by simpa using (hbase _ h c hc).2]
    exact h
  | @qualified base qualifier h hqualifier =>
    refine ⟨?_, ?_, ?_⟩
    · intro c hc
      rcases List.mem_append.mp hc with hc | hc
      · exact (hbase _ h c hc).1
      rcases List.mem_cons.mp hc with rfl | hc
      · decide
      · exact hqualifier c hc
    · rw [List.takeWhile_append_of_pos fun c hc => by simpa using (hbase _ h c hc).2]
      simpa using h
    · obtain ⟨c, rest, rfl, hc⟩ := hhead _ h
      exact ⟨c, rest ++ '.' :: qualifier, rfl, hc⟩

theorem mnemonic?_of_spells {m word : List Char} (hm : IsMnemonic m) (h : Spells m word) :
    mnemonic? word = some m := by
  obtain ⟨hall, hlower, c, rest, rfl, hc⟩ := spells_parts hm h
  unfold mnemonic?
  dsimp only
  rw [if_pos (by rw [hc, List.all_eq_true.mpr hall]; rfl), hlower]

/-! ## Instructions without columns -/

/-- A text that gives an instruction: a word for the mnemonic and, behind blanks, its operands. -/
inductive Writes (m : List Char) : List (List Char) → List Char → Prop
  | bare {word : List Char} (h : Spells m word) : Writes m [] word
  | operands {word gap text : List Char} {ops : List (List Char)} (h : Spells m word)
      (hgap : IsGap gap) (hgap_ne : gap ≠ []) (hne : ops ≠ []) (htext : Lists ops text) :
      Writes m ops (word ++ (gap ++ text))

theorem isMnemonicChar_properties {c : Char} (h : isMnemonicChar c) :
    isBlank c = false ∧ c ≠ ';' ∧ c ≠ '@' ∧ c ≠ '/' ∧ c ≠ ':' := by
  have hblank : isBlank c = false := by
    simp only [isMnemonicChar, Bool.or_eq_true, beq_iff_eq] at h
    rcases h with (h | rfl) | rfl
    · exact isBlank_of_isAlphanum h
    · decide
    · decide
  refine ⟨hblank, ?_, ?_, ?_, ?_⟩ <;> (rintro rfl; exact absurd h (by decide))

/-- What is known of the word for a mnemonic. -/
theorem isOperand_of_spells {m word : List Char} (hm : IsMnemonic m) (h : Spells m word) :
    IsOperand word ∧ Line.IsPlain word ∧ ':' ∉ word := by
  obtain ⟨hall, _, c, rest, hword, _⟩ := spells_parts hm h
  have hsolid := isSolid_of_forall fun d hd => (isMnemonicChar_properties (hall d hd)).1
  refine ⟨⟨by simp [hword], hsolid.1, hsolid.2⟩, ?_, ?_⟩
  · apply Line.isPlain_of_forall
    intro d hd
    obtain ⟨_, hsemicolon, hsign, hslash, _⟩ := isMnemonicChar_properties (hall d hd)
    exact ⟨hsemicolon, hsign, hslash⟩
  · exact fun hd => (isMnemonicChar_properties (hall _ hd)).2.2.2.2 rfl

/-- What is known of a text that gives an instruction. -/
theorem Writes.isOperand {m text : List Char} {ops : List (List Char)} (hm : IsMnemonic m)
    (hops : ∀ op ∈ ops, IsListed op) (h : Writes m ops text) :
    IsOperand text ∧ Line.IsPlain text ∧ ':' ∉ text := by
  cases h with
  | bare h => exact isOperand_of_spells hm h
  | @operands word gap list _ h hgap hgap_ne hne htext =>
    obtain ⟨hword, hplain, hcolon⟩ := isOperand_of_spells hm h
    refine ⟨isOperand_append hword gap (htext.isOperand hne hops),
      hplain.append_gap hgap hgap_ne (htext.isPlain hops), ?_⟩
    have hcolon_list := htext.forall_mem (P := (· ≠ ':'))
      (by rintro c hc rfl; exact absurd hc (by decide)) (by decide)
      fun op hop c hc heq => (hops op hop).colon (heq ▸ hc)
    simp only [List.mem_append, not_or]
    refine ⟨hcolon, fun hd => ?_, fun hd => hcolon_list _ hd rfl⟩
    exact absurd (hgap _ hd) (by decide)

/-- A text that gives an instruction starts with a letter. -/
theorem Writes.exists_cons {m text : List Char} {ops : List (List Char)} (hm : IsMnemonic m)
    (h : Writes m ops text) : ∃ c rest, text = c :: rest ∧ c.isAlpha := by
  cases h with
  | bare h => exact (spells_parts hm h).2.2
  | @operands word gap list _ h _ _ _ _ =>
    obtain ⟨c, rest, rfl, hc⟩ := (spells_parts hm h).2.2
    exact ⟨c, rest ++ (gap ++ list), rfl, hc⟩

/-- The instruction that a text gives is found again. -/
theorem ofAssembly?_of_writes {m text : List Char} {ops : List (List Char)} (hm : IsMnemonic m)
    (hops : ∀ op ∈ ops, IsListed op) (h : Writes m ops text) (address : Option UInt64) :
    ofAssembly? address text =
      some ⟨address, String.ofList m, ops.map String.ofList⟩ := by
  have hsolid := (h.isOperand hm hops).1
  unfold ofAssembly?
  rw [trim_of_solid hsolid.2]
  cases h with
  | bare h =>
    have hword : ∀ c ∈ text, isBlank c = false := fun c hc =>
      (isMnemonicChar_properties ((spells_parts hm h).1 c hc)).1
    simp only [cut?_eq_none hword, Option.getD_none, mnemonic?_of_spells hm h, Option.map_some]
    rfl
  | @operands word gap list _ h hgap hgap_ne hne htext =>
    have hword : ∀ c ∈ word, isBlank c = false := fun c hc =>
      (isMnemonicChar_properties ((spells_parts hm h).1 c hc)).1
    have hlist := htext.isOperand hne hops
    obtain ⟨rest, hcut, htrim⟩ := cut?_append_gap list hword hgap hgap_ne
    dsimp only
    rw [hcut]
    simp only [Option.getD_some, mnemonic?_of_spells hm h, Option.map_some]
    rw [htrim, trim_of_solid hlist.2, splitOperands_of_lists hops htext]

theorem map_ofList_map_toList (ops : List String) :
    (ops.map String.toList).map String.ofList = ops := by
  have hid : String.ofList ∘ String.toList = id := funext fun s => String.ofList_toList
  rw [List.map_map, hid, List.map_id]

end FirmwareMatch.Statement
