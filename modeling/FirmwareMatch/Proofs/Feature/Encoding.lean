import FirmwareMatch.Feature.Basic
import FirmwareMatch.Proofs.Json.RoundTrip
import FirmwareMatch.Proofs.Sha256

/-
  The canonical encoding of a feature can be taken apart again.

  It is a JSON object on one line, so the reader of JSON gives its members back, whatever characters
  the mnemonic holds. A feature is decoded from the members by their names; so two features with one
  encoding are the same, and whether two features can share a digest is a question about SHA-256
  alone.

  Proved:
  * `encoding_eq`: the encoding written out.
  * `filter_isSpace_encoding`: the only blanks of the encoding are the spaces of the mnemonic.
  * `ofJson_canonical`: a feature is decoded from its members.
  * `encoding_inj`: features with the same encoding are the same.
  * `injOn_digest`: features are told apart by their digests if SHA-256 tells their encodings apart.
  * `encoding_canonical`: all of this, and what it means for digests.
-/

namespace FirmwareMatch

open Json

/-! ## The text -/

namespace Json

theorem toList_toString (n : Int) :
    (toString n).toList = Decimal.signText (n < 0) ++ Decimal.natText n.natAbs := by
  unfold Decimal.natText
  cases n with
  | ofNat k =>
    have htext : toString (Int.ofNat k) = Nat.repr k := rfl
    rw [htext, Nat.repr_eq_ofList_toDigits, String.toList_ofList]
    simp [Decimal.signText]
  | negSucc k =>
    have htext : toString (Int.negSucc k) = "-" ++ Nat.repr (k + 1) := rfl
    rw [htext, Nat.repr_eq_ofList_toDigits, String.toList_append, String.toList_ofList]
    simp [Decimal.signText]

/-- A whole number is written in decimal. -/
theorem print_ofInt (style : Style) (depth : Nat) (n : Int) :
    printAt style depth (ofInt n) = (toString n).toList := by
  rw [toList_toString]
  simp [ofInt, printAt, Numeral.print, Decimal.fixedText]

theorem print_str (style : Style) (depth : Nat) (s : String) :
    printAt style depth (str s) = quote s.toList := by
  rw [str, printAt]
  rfl

theorem print_some (s : String) : Text.print (some s) = quote s.toList := rfl

@[simp] theorem compact_newline (depth : Nat) : Style.compact.newline depth = [] := rfl

@[simp] theorem compact_colon : Style.compact.colon = [':'] := rfl

end Json

namespace Feature

/-- The encoding written out. -/
theorem encoding_eq (f : Feature) :
    f.encoding = "\x7b\"branch_offset\":" ++ toString f.vector.branch.toInt ++
      ",\"codeblock_offset\":" ++ toString f.vector.block.toInt ++
      ",\"mnemonic\":" ++ String.ofList (quote f.mnemonic.toList) ++
      ",\"opcode_offset\":" ++ toString f.vector.opcode.toInt ++ "\x7d" := by
  have hbranch : "\x7b\"branch_offset\":".toList =
      '\x7b' :: (quote "branch_offset".toList ++ [':']) := by decide +kernel
  have hblock : ",\"codeblock_offset\":".toList =
      ',' :: (quote "codeblock_offset".toList ++ [':']) := by decide +kernel
  have hmnemonic : ",\"mnemonic\":".toList =
      ',' :: (quote "mnemonic".toList ++ [':']) := by decide +kernel
  have hopcode : ",\"opcode_offset\":".toList =
      ',' :: (quote "opcode_offset".toList ++ [':']) := by decide +kernel
  have hclosing : "\x7d".toList = ['\x7d'] := by decide +kernel
  apply String.toList_inj.mp
  unfold encoding Json.compact canonical Json.record
  rw [String.toList_ofList, printAt]
  simp only [List.map_cons, List.map_nil, printMembers, print_ofInt, print_str, print_some]
  simp only [enclose, List.intercalate_cons_cons, List.intercalate_singleton, compact_newline,
    compact_colon, List.nil_append, List.append_assoc, List.cons_append]
  simp only [String.toList_append, hbranch, hblock, hmnemonic, hopcode, hclosing,
    String.toList_ofList, List.nil_append, List.append_assoc, List.cons_append]

/-- Of the blanks only the space stands for itself in a string. -/
theorem filter_isSpace_escape (c : Char) :
    (escape c).filter isSpace = [c].filter (· == ' ') := by
  cases hletter : escapeLetter? c with
  | some l =>
    have hall : ∀ p ∈ escapeLetters,
        (escape p.1).filter isSpace = [p.1].filter (· == ' ') := by decide
    exact hall _ (mem_escapeLetters hletter)
  | none =>
    unfold escape
    rw [hletter]
    dsimp only
    split
    · rename_i hcontrol
      have hall : ∀ n < 32, ['\\', 'u', '0', '0', Nat.digitChar (n / 16),
          Nat.digitChar (n % 16)].filter isSpace = [] := by decide
      have hspace : c ≠ ' ' := by
        rintro rfl
        exact absurd hcontrol (by decide)
      rw [hall _ hcontrol]
      simp [hspace]
    · have hne : c ≠ '\t' ∧ c ≠ '\n' ∧ c ≠ '\r' := by
        refine ⟨?_, ?_, ?_⟩ <;> (rintro rfl; exact absurd hletter (by decide))
      simp [isSpace, hne, List.filter_cons]

theorem filter_isSpace_toString (n : Int) : (toString n).toList.filter isSpace = [] := by
  rw [List.filter_eq_nil_iff, toList_toString]
  intro c hc
  have hnumber : c.isDigit ∨ c = '-' := by
    rcases List.mem_append.mp hc with hc | hc
    · unfold Decimal.signText at hc
      split at hc
      · exact Or.inr (List.mem_singleton.mp hc)
      · exact absurd hc List.not_mem_nil
    · exact Or.inl (isDigit_of_mem_natText hc)
  rw [(ne_of_isDigit_or_minus hnumber).1]
  exact Bool.false_ne_true

/-- The only blanks of the encoding are the spaces of the mnemonic. -/
theorem filter_isSpace_encoding (f : Feature) :
    f.encoding.toList.filter isSpace = f.mnemonic.toList.filter (· == ' ') := by
  have hquote : (quote f.mnemonic.toList).filter isSpace =
      f.mnemonic.toList.filter (· == ' ') := by
    have hends : isSpace '"' = false := by decide
    rw [quote, List.cons_append, List.filter_cons_of_neg (by simp [hends]), List.filter_append,
      List.filter_cons_of_neg (by simp [hends]), List.filter_nil, List.append_nil,
      List.filter_flatMap]
    simp only [filter_isSpace_escape]
    rw [← List.filter_flatMap, List.flatMap_singleton']
  have hnames : ∀ s ∈ ["\x7b\"branch_offset\":", ",\"codeblock_offset\":", ",\"mnemonic\":",
      ",\"opcode_offset\":", "\x7d"], s.toList.filter isSpace = [] := by decide +kernel
  simp only [List.mem_cons, List.not_mem_nil, or_false, forall_eq_or_imp, forall_eq] at hnames
  rw [encoding_eq]
  simp only [String.toList_append, List.filter_append, filter_isSpace_toString, String.toList_ofList,
    hquote, hnames, List.append_nil, List.nil_append]

/-! ## Decoding -/

end Feature

namespace Json

/-- The integer that a number is: whole and of at most 64 bits with its sign. -/
def Numeral.toInt64? (n : Numeral) : Option Int64 :=
  let i : Int := if n.negative then -n.mantissa else n.mantissa
  if n.scale = 0 ∧ n.exponent = none ∧ -2 ^ 63 ≤ i ∧ i < 2 ^ 63 then some (Int64.ofInt i) else none

/-- An integer of 64 bits. -/
def asInt64 : Json → Decoded Int64
  | .number n =>
    match n.toInt64? with
    | some i => .ok i
    | none => .error "expected an integer of at most 64 bits"
  | _ => .error "expected an integer"

theorem asInt64_ofInt (i : Int64) : asInt64 (ofInt i.toInt) = .ok i := by
  have hsigned : (if i.toInt < 0 then -(i.toInt.natAbs : Int) else i.toInt.natAbs) = i.toInt := by
    split <;> omega
  have hlower : -2 ^ 63 ≤ i.toInt := i.le_toInt
  have hupper : i.toInt < 2 ^ 63 := i.toInt_lt
  have hread : Numeral.toInt64? ⟨i.toInt < 0, i.toInt.natAbs, 0, none⟩ = some i := by
    simp only [Numeral.toInt64?, decide_eq_true_eq, hsigned]
    rw [if_pos ⟨trivial, trivial, hlower, hupper⟩, Int64.ofInt_toInt]
  simp only [ofInt, asInt64, hread]

end Json

namespace Feature

/-- The feature that a record with the members of the canonical encoding describes. -/
def ofJson (v : Json) : Decoded Feature := do
  let ms ← asRecord ["branch_offset", "codeblock_offset", "mnemonic", "opcode_offset"] v
  let branch ← ms.required "branch_offset" asInt64
  let block ← ms.required "codeblock_offset" asInt64
  let mnemonic ← ms.required "mnemonic" asString
  let opcode ← ms.required "opcode_offset" asInt64
  return ⟨mnemonic, ⟨opcode, block, branch⟩⟩

/-- A feature is decoded from its members. -/
theorem ofJson_canonical (f : Feature) : ofJson f.canonical = .ok f := by
  unfold ofJson canonical
  rw [asRecord_record (by simp) (by simp)]
  simp [Members.required, List.lookup_cons, asInt64_ofInt, asString, str, bind, Except.bind, pure,
    Except.pure]

theorem parse?_encoding (f : Feature) : parse? f.encoding = some f.canonical :=
  parse?_compact f.canonical

/-- Features with the same encoding are the same. -/
theorem encoding_inj {f g : Feature} (h : f.encoding = g.encoding) : f = g := by
  have hcanonical : f.canonical = g.canonical := by
    have hparse := parse?_encoding f
    rw [h, parse?_encoding] at hparse
    exact (Option.some.inj hparse).symm
  have hdecoded := ofJson_canonical f
  rw [hcanonical, ofJson_canonical] at hdecoded
  exact (Except.ok.inj hdecoded).symm

/-- Features whose encodings SHA-256 tells apart are told apart by their digests. -/
theorem injOn_digest {fs : Set Feature} (h : Sha256.Separates (encoding '' fs)) :
    Set.InjOn digest fs := by
  intro f hf g hg hdigest
  exact encoding_inj (h (Set.mem_image_of_mem _ hf) (Set.mem_image_of_mem _ hg) hdigest)

theorem nodup_map_digest {fs : List Feature} (hnodup : fs.Nodup)
    (h : Sha256.Separates (encoding '' {f | f ∈ fs})) : (fs.map digest).Nodup :=
  hnodup.map_on fun _ hf _ hg => injOn_digest h hf hg

/-- For all features, whatever their mnemonics are: the encoding is the text of an object with the
    four members in ascending order and no blanks but the spaces of the mnemonic, decoding gives the
    feature back, and so features with one encoding are the same. Among features on whose encodings
    SHA-256 is injective, those with one digest are the same. -/
theorem encoding_canonical :
    (∀ f g : Feature, f.encoding = g.encoding → f = g) ∧
    (∀ f : Feature,
      f.encoding = "\x7b\"branch_offset\":" ++ toString f.vector.branch.toInt ++
        ",\"codeblock_offset\":" ++ toString f.vector.block.toInt ++
        ",\"mnemonic\":" ++ String.ofList (quote f.mnemonic.toList) ++
        ",\"opcode_offset\":" ++ toString f.vector.opcode.toInt ++ "\x7d" ∧
      f.encoding.toList.filter isSpace = f.mnemonic.toList.filter (· == ' ') ∧
      ∃ members : Members, parse f.encoding = .ok (record members) ∧
        members.map Prod.fst =
          ["branch_offset", "codeblock_offset", "mnemonic", "opcode_offset"] ∧
        (members.map Prod.fst).Pairwise (· < ·) ∧
        ofJson (record members) = .ok f) ∧
    ∀ fs : Set Feature,
      Set.InjOn (fun text : String => Sha256.hexDigest text.toUTF8) (encoding '' fs) →
      Set.InjOn digest fs := by
  refine ⟨fun f g => encoding_inj, fun f => ⟨encoding_eq f, filter_isSpace_encoding f, _, ?_, rfl, ?_,
    ofJson_canonical f⟩, fun fs hinj => injOn_digest hinj⟩
  · rw [parse, parse?_encoding]
    rfl
  · have hnames : ["branch_offset", "codeblock_offset", "mnemonic", "opcode_offset"].Pairwise
        fun a b : String => a < b := by decide +kernel
    exact hnames

/-- Two features that differ in their offsets and in characters that are escaped. -/
theorem encoding_canonical_pair :
    let f : Feature := ⟨"b\"\\\n", ⟨0, 1, -2⟩⟩
    let g : Feature := ⟨"b \x01", ⟨1, 0, -2⟩⟩
    (parse f.encoding).bind ofJson = .ok f ∧ Set.InjOn digest {f, g} := by
  intro f g
  obtain ⟨_, hdecode, hdigest⟩ := encoding_canonical
  obtain ⟨_, _, members, hparse, _, _, hf⟩ := hdecode f
  refine ⟨by rw [hparse]; exact hf, hdigest _ ?_⟩
  rw [Set.image_pair, Set.injOn_pair]
  intro heq
  have hne : f.digest ≠ g.digest := by decide +kernel
  exact absurd heq hne

/-- The features of a block of two instructions and of one that repeats the first mnemonic. -/
def samples : List Feature :=
  [⟨"nop", ⟨0, 0, 0⟩⟩, ⟨"mov", ⟨1, 0, 0⟩⟩, ⟨"nop", ⟨0, 1, 0⟩⟩]

theorem separates_samples {fs : Set Feature} (h : ∀ f ∈ fs, f ∈ samples) :
    Sha256.Separates (encoding '' fs) := by
  have hnodup : ((samples.map encoding).map fun text => Sha256.hexDigest text.toUTF8).Nodup := by
    decide +kernel
  refine (Sha256.separates_of_nodup hnodup).mono ?_
  rintro _ ⟨f, hf, rfl⟩
  exact List.mem_map_of_mem (h f hf)

end Feature

end FirmwareMatch
