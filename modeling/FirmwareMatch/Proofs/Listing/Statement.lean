import Mathlib
import FirmwareMatch.Listing.Line

/-
  What is read from one line, whatever stands on it.

  A statement that was read has a mnemonic in lower case and operands that hold something and are
  trimmed. A marker of a code section names one of the sections that were asked for.

  Proved:
  * `isMnemonic_of_mnemonic?`, `isOperand_of_mem_splitOperands`: the shape of the two parts.
  * `wellShaped_of_read?`: every statement that is read from a line has that shape.
  * `sound_read`: so has the statement of every line, and its markers name sections.
-/

namespace FirmwareMatch

open Text

/-! ## Shapes -/

/-- A lower-case letter of ASCII, then lower-case letters, digits and underscores of ASCII. -/
def IsMnemonic (cs : List Char) : Prop :=
  ∃ c rest, cs = c :: rest ∧ c.isLower ∧ ∀ d ∈ rest, d.isLower ∨ d.isDigit ∨ d = '_'

/-- A text that is not empty and has no blank at its ends. -/
def IsOperand (cs : List Char) : Prop :=
  cs ≠ [] ∧ (∀ c ∈ cs.head?, isBlank c = false) ∧ ∀ c ∈ cs.getLast?, isBlank c = false

/-- A mnemonic and operands of the right shape. -/
def WellShaped (mnemonic : String) (operands : List String) : Prop :=
  IsMnemonic mnemonic.toList ∧ ∀ op ∈ operands, IsOperand op.toList

namespace Statement

/-! ## Mnemonics -/

/-- What a character of a mnemonic other than a point becomes. -/
theorem toLower_of_isMnemonicChar {c : Char} (h : isMnemonicChar c) (hc : c ≠ '.') :
    c.toLower.isLower ∨ c.toLower.isDigit ∨ c.toLower = '_' := by
  simp only [isMnemonicChar, Char.isAlphanum, Bool.or_eq_true, beq_iff_eq] at h
  rcases h with ((h | h) | h) | h
  · exact Or.inl ((Char.isLower_toLower_eq_isAlpha c).trans h)
  · right; left
    have hu : ¬ c.isUpper := by
      rw [Char.isDigit_iff_toNat] at h
      simp only [Char.isUpper, decide_eq_true_eq, ge_iff_le, UInt32.le_iff_toNat_le,
        Char.toNat_val]
      have h9 : '9'.toNat = 57 := rfl
      have hA : 'A'.toNat = 65 := rfl
      omega
    rwa [Char.toLower_eq_of_not_isUpper hu]
  · exact absurd h hc
  · subst h
    decide

theorem isMnemonic_of_mnemonic? {word m : List Char} (h : mnemonic? word = some m) :
    IsMnemonic m := by
  cases word with
  | nil => simp [mnemonic?] at h
  | cons c cs =>
    simp only [mnemonic?, Option.ite_none_right_eq_some, Bool.and_eq_true, Option.some.injEq] at h
    obtain ⟨⟨hc, hall⟩, rfl⟩ := h
    have hpoint : c ≠ '.' := by
      rintro rfl
      exact absurd hc (by decide)
    refine ⟨c.toLower, (cs.takeWhile (· != '.')).map Char.toLower, ?_,
      (Char.isLower_toLower_eq_isAlpha c).trans hc, ?_⟩
    · rw [List.takeWhile_cons_of_pos (by simpa using hpoint), List.map_cons]
    · intro d hd
      obtain ⟨e, he, rfl⟩ := List.mem_map.mp hd
      have hne : (e != '.') = true := List.all_eq_true.mp List.all_takeWhile e he
      have hmem : e ∈ c :: cs :=
        List.mem_cons_of_mem c ((List.takeWhile_prefix _).subset he)
      exact toLower_of_isMnemonicChar (List.all_eq_true.mp hall e hmem) (by simpa using hne)

/-! ## Operands -/

theorem isOperand_of_mem_splitOperands {cs op : List Char} (h : op ∈ splitOperands cs) :
    IsOperand op := by
  refine ⟨ne_nil_of_mem_splitOperands h, ?_⟩
  obtain ⟨hmem, _⟩ := List.mem_filter.mp h
  obtain ⟨piece, _, rfl⟩ := List.mem_map.mp hmem
  exact ⟨fun c hc => isBlank_of_head?_trim hc, fun c hc => isBlank_of_getLast?_trim hc⟩

/-! ## Statements -/

theorem wellShaped_of_ofAssembly? {address : Option UInt64} {text : List Char} {s : Statement}
    (h : ofAssembly? address text = some s) : WellShaped s.mnemonic s.operands := by
  unfold ofAssembly? at h
  obtain ⟨m, hm, rfl⟩ := Option.map_eq_some_iff.mp h
  refine ⟨?_, ?_⟩
  · rw [String.toList_ofList]
    exact isMnemonic_of_mnemonic? hm
  · intro op hop
    obtain ⟨cs, hcs, rfl⟩ := List.mem_map.mp hop
    rw [String.toList_ofList]
    exact isOperand_of_mem_splitOperands hcs

/-- Every statement that is read has the right shape, with or without columns. -/
theorem wellShaped_of_read? {line : List Char} {s : Statement} (h : read? line = some s) :
    WellShaped s.mnemonic s.operands := by
  unfold read? at h
  split at h
  · exact wellShaped_of_ofAssembly? h
  · split at h
    · exact wellShaped_of_ofAssembly? h
    · obtain ⟨text, _, ht⟩ := Option.bind_eq_some_iff.mp h
      exact wellShaped_of_ofAssembly? ht

end Statement

/-! ## Lines -/

/-- What stands where an instruction is expected, if it is one, has the right shape. -/
def Content.Sound : Content → Prop
  | .instruction s => WellShaped s.mnemonic s.operands
  | .unknown => True

/-- What is known of a line of a listing whose code sections are `sections`. -/
def Line.Sound (sections : List String) : Line → Prop
  | .blank => True
  | .marker code => ∀ name ∈ code, name ∈ sections
  | .label _ after => ∀ c ∈ after, c.Sound
  | .content c => c.Sound

namespace Line

theorem sound_readContent (text : List Char) : (readContent text).Sound := by
  unfold readContent
  cases h : Statement.read? text with
  | some s => exact Statement.wellShaped_of_read? h
  | none => trivial

theorem sound_read (sections : List String) (raw : List Char) :
    (read sections raw).Sound sections := by
  rcases read_cases sections raw with ⟨-, hread⟩ | ⟨name, -, hread⟩ | ⟨_, rest, -, -, -, hread⟩ |
    ⟨-, -, -, hread⟩
  · rw [hread]
    trivial
  · rw [hread]
    intro code hcode
    split at hcode
    · rename_i hmem
      obtain rfl := Option.some.inj hcode
      exact List.contains_iff_mem.mp hmem
    · cases hcode
  · rw [hread]
    intro c hc
    split at hc
    · cases hc
    · obtain rfl := Option.some.inj hc
      exact sound_readContent rest
  · rw [hread]
    exact sound_readContent (bare raw)

end Line

end FirmwareMatch
