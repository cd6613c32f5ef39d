import FirmwareMatch.Json.Decoder
import FirmwareMatch.Json.Printer
import Mathlib.Data.List.Basic
import Mathlib.Data.Nat.Digits.Defs
import Mathlib.Tactic.Ring

/-
  Every value is read back from its text.

  The text of a value tells what it is by its first character, and the reader stops where the text
  ends: a string at the quote that no backslash escapes, an array or object at its bracket, and a
  number where no digit, point or exponent follows, which is so in front of commas, brackets and
  blanks. How many blanks the printer puts between the parts does not matter, and the supply of
  steps lasts because each step takes at least one character.

  Proved:
  * `readString_print`, `readNumber_print`: strings and numbers in front of anything that may follow.
  * `readValue_printAt`: a value in front of anything that may follow, by recursion on the value.
  * `parse?_compact`, `parse?_pretty`: the values of whole texts.
  * `asList_map`, `asCount_ofNat`, `asRecord_record`: lists, counts and the members of a record.
-/

namespace FirmwareMatch.Json

/-! ## Blanks -/

/-- A run of blanks, possibly empty. -/
def IsSpacing (cs : List Char) : Prop :=
  ∀ c ∈ cs, isSpace c

theorem skipSpace_append {gap : List Char} (h : IsSpacing gap) (cs : List Char) :
    skipSpace (gap ++ cs) = skipSpace cs :=
  List.dropWhile_append_of_pos h

theorem skipSpace_cons {c : Char} (h : isSpace c = false) (cs : List Char) :
    skipSpace (c :: cs) = c :: cs := by
  simp [skipSpace, h]

/-! ## Strings -/

/-- The characters with a letter of their own, each with its letter. -/
def escapeLetters : List (Char × Char) :=
  [('"', '"'), ('\\', '\\'), ('\x08', 'b'), ('\t', 't'), ('\n', 'n'), ('\x0c', 'f'), ('\r', 'r')]

theorem mem_escapeLetters {c l : Char} (h : escapeLetter? c = some l) :
    (c, l) ∈ escapeLetters := by
  unfold escapeLetter? at h
  grind [escapeLetters]

/-- A letter behind a backslash stands for the character that has it, and for no number. -/
theorem unescapeLetter?_of_escapeLetter? {c l : Char} (h : escapeLetter? c = some l) :
    unescapeLetter? l = some c ∧ l ≠ 'u' := by
  have hall : ∀ p ∈ escapeLetters, unescapeLetter? p.2 = some p.1 ∧ p.2 ≠ 'u' := by decide
  exact hall _ (mem_escapeLetters h)

/-- What has no letter behind a backslash is neither a backslash nor a quote. -/
theorem ne_of_escapeLetter?_eq_none {c : Char} (h : escapeLetter? c = none) :
    c ≠ '\\' ∧ c ≠ '"' := by
  constructor <;> rintro rfl <;> exact absurd h (by decide)

/-- The number of a control character in four digits. -/
theorem hexNat_control {n : Nat} (h : n < 32) :
    Text.isHex ['0', '0', Nat.digitChar (n / 16), Nat.digitChar (n % 16)] ∧
      Text.hexNat ['0', '0', Nat.digitChar (n / 16), Nat.digitChar (n % 16)] = n := by
  have hall : ∀ k < 32,
      Text.isHex ['0', '0', Nat.digitChar (k / 16), Nat.digitChar (k % 16)] ∧
        Text.hexNat ['0', '0', Nat.digitChar (k / 16), Nat.digitChar (k % 16)] = k := by
    decide
  exact hall n h

/-- The form of a character is read as the character. -/
theorem readString_escape (c : Char) (t rest : List Char) :
    readString ⟨some t, none⟩ (escape c ++ rest) = readString ⟨some (c :: t), none⟩ rest := by
  unfold escape
  cases hletter : escapeLetter? c with
  | some l =>
    obtain ⟨hchar, hl⟩ := unescapeLetter?_of_escapeLetter? hletter
    simp only [List.cons_append, List.nil_append]
    rw [readString.eq_3 _ _ _ fun _ _ _ _ _ h _ => hl h, hchar]
    rfl
  | none =>
    obtain ⟨hslash, hquote⟩ := ne_of_escapeLetter?_eq_none hletter
    dsimp only
    split
    · rename_i hcontrol
      obtain ⟨hhex, hnat⟩ := hexNat_control hcontrol
      have hhigh : isHighSurrogate c.toNat = false := by simp [isHighSurrogate]; omega
      have hlow : isLowSurrogate c.toNat = false := by simp [isLowSurrogate]; omega
      simp only [List.cons_append, List.nil_append]
      rw [readString.eq_2, if_pos hhex, hnat]
      simp [Pending.unit, hhigh, hlow]
    · rename_i hplain
      rw [List.singleton_append, readString.eq_4 _ _ _ hquote (fun _ _ _ _ _ h _ => hslash h)
        (fun _ _ h _ => hslash h), if_neg (by simp [hslash]; omega)]
      rfl

theorem readString_flatMap_escape (cs t rest : List Char) :
    readString ⟨some t, none⟩ (cs.flatMap escape ++ '"' :: rest) =
      some (some (String.ofList (t.reverse ++ cs)), rest) := by
  induction cs generalizing t with
  | nil => simp [readString, Pending.settle]
  | cons c cs ih =>
    rw [List.flatMap_cons, List.append_assoc, readString_escape, ih]
    simp

/-- A string is read back, also a defective one. -/
theorem readString_print (s : Text) (rest : List Char) :
    ∃ body, s.print = '"' :: body ∧ readString .start (body ++ rest) = some (s, rest) := by
  cases s with
  | none => exact ⟨"\\ud800\"".toList, by decide +kernel, rfl⟩
  | some s =>
    refine ⟨s.toList.flatMap escape ++ ['"'], rfl, ?_⟩
    rw [List.append_assoc, List.singleton_append, Pending.start, readString_flatMap_escape]
    simp

/-! ## Numbers -/

/-- What may follow a number: nothing that goes on with it. -/
def Ends (rest : List Char) : Prop :=
  ∀ c ∈ rest.head?, c.isDigit = false ∧ c ≠ '.' ∧ c ≠ 'e' ∧ c ≠ 'E'

theorem ends_nil : Ends [] := by
  simp [Ends]

/-- The characters that stand behind values: blanks, commas and closing brackets. -/
def closers : List Char :=
  [' ', '\t', '\n', '\r', ',', ']', '\x7d']

theorem ends_cons {c : Char} (h : c ∈ closers) (cs : List Char) : Ends (c :: cs) := by
  have hall : closers.all fun d => !d.isDigit && d != '.' && d != 'e' && d != 'E' := by
    decide +kernel
  intro d hd
  obtain rfl := Option.some.inj hd
  simpa [and_assoc] using List.all_eq_true.mp hall c h

theorem mem_closers_of_isSpace {c : Char} (h : isSpace c) : c ∈ closers := by
  simp only [isSpace, Bool.or_eq_true, beq_iff_eq] at h
  rcases h with ((rfl | rfl) | rfl) | rfl <;> simp [closers]

theorem ends_append {gap cs : List Char} (hgap : IsSpacing gap) (h : Ends cs) :
    Ends (gap ++ cs) := by
  cases gap with
  | nil => exact h
  | cons c gap => exact ends_cons (mem_closers_of_isSpace (hgap c List.mem_cons_self)) _

theorem spanDigits_append {ds rest : List Char} (hds : ∀ c ∈ ds, c.isDigit)
    (hrest : ∀ c ∈ rest.head?, c.isDigit = false) : spanDigits (ds ++ rest) = (ds, rest) := by
  unfold spanDigits
  rw [List.takeWhile_append_of_pos hds, List.dropWhile_append_of_pos hds]
  cases rest with
  | nil => simp
  | cons c rest => simp [hrest c rfl]

theorem isDigit_of_mem_natText {n : Nat} {c : Char} (h : c ∈ Decimal.natText n) : c.isDigit :=
  Nat.isDigit_of_mem_toDigits (by decide) (by decide) h

theorem isDigit_of_mem_paddedText {width n : Nat} {c : Char}
    (h : c ∈ Decimal.paddedText width n) : c.isDigit := by
  rcases List.mem_append.mp h with h | h
  · rw [List.eq_of_mem_replicate h]
    decide
  · exact isDigit_of_mem_natText h

/-- No number but zero starts with a zero. -/
theorem head?_natText_ne {n : Nat} (h : 0 < n) : (Decimal.natText n).head? ≠ some '0' := by
  unfold Decimal.natText
  induction n using Nat.strongRecOn with
  | ind n ih =>
    by_cases hlt : n < 10
    · have hall : ∀ d < 10, 0 < d → [Nat.digitChar d].head? ≠ some '0' := by decide
      rw [Nat.toDigits_of_lt_base hlt]
      exact hall n hlt h
    · rw [Nat.toDigits_of_base_le (by decide) (by omega), List.head?_append_of_ne_nil _
        Nat.toDigits_ne_nil]
      exact ih (n / 10) (by omega) (by omega)

theorem head?_natText (n : Nat) :
    ((Decimal.natText n).head? == some '0' && (Decimal.natText n).length != 1) = false := by
  rcases Nat.eq_zero_or_pos n with rfl | hpos
  · decide
  · simp [head?_natText_ne hpos]

theorem length_paddedText {width n : Nat} (hwidth : 0 < width) (h : n < Decimal.tenTo width) :
    (Decimal.paddedText width n).length = width := by
  have hle : (Decimal.natText n).length ≤ width := Nat.toDigits_length 10 n width hwidth h
  simp only [Decimal.paddedText, List.length_append, List.length_replicate]
  omega

theorem ofDigitChars_append (cs ds : List Char) (n : Nat) :
    Nat.ofDigitChars 10 (cs ++ ds) n = Nat.ofDigitChars 10 ds (Nat.ofDigitChars 10 cs n) := by
  simp [Nat.ofDigitChars_eq_foldl]

theorem ofDigitChars_natText (n k : Nat) :
    Nat.ofDigitChars 10 (Decimal.natText n) k = 10 ^ (Decimal.natText n).length * k + n := by
  rw [Nat.ofDigitChars_eq_ofDigitChars_zero, Decimal.natText, Nat.ofDigitChars_ten_toDigits]

theorem ofDigitChars_replicate (width n : Nat) :
    Nat.ofDigitChars 10 (List.replicate width '0') n = 10 ^ width * n := by
  induction width generalizing n with
  | zero => simp
  | succ width ih =>
    have hzero : '0'.toNat - '0'.toNat = 0 := rfl
    rw [List.replicate_succ, Nat.ofDigitChars_cons, hzero, ih, Nat.pow_succ]
    ring

/-- Zeros in front of a number fill it up and do not change it. -/
theorem ofDigitChars_paddedText {width n : Nat} (hwidth : 0 < width)
    (h : n < Decimal.tenTo width) (k : Nat) :
    Nat.ofDigitChars 10 (Decimal.paddedText width n) k = Decimal.tenTo width * k + n := by
  have hle : (Decimal.natText n).length ≤ width := Nat.toDigits_length 10 n width hwidth h
  have hpow : Decimal.tenTo width =
      10 ^ (Decimal.natText n).length * 10 ^ (width - (Decimal.natText n).length) := by
    rw [← Nat.pow_add, Nat.add_sub_cancel' hle]
    rfl
  rw [Decimal.paddedText, ofDigitChars_append, ofDigitChars_replicate, ofDigitChars_natText, hpow,
    Nat.mul_assoc]

/-- The point and the digits behind it, if there are any. -/
def Numeral.fractionText (n : Numeral) : List Char :=
  if n.scale == 0 then [] else '.' :: n.fractionDigits

/-- The digits of a number are those in front of the point and those behind it. -/
theorem fixedText_eq (n : Numeral) :
    Decimal.fixedText n.scale n.mantissa = n.wholeDigits ++ n.fractionText := by
  unfold Decimal.fixedText Numeral.fractionText Numeral.wholeDigits Numeral.fractionDigits
  cases h : n.scale == 0 <;> simp

theorem mod_tenTo_lt (m scale : Nat) : m % Decimal.tenTo scale < Decimal.tenTo scale :=
  Nat.mod_lt _ (Decimal.tenTo_pos scale)

theorem length_fractionDigits (n : Numeral) : n.fractionDigits.length = n.scale := by
  unfold Numeral.fractionDigits
  by_cases h : n.scale = 0
  · simp [h]
  · rw [if_neg (by simpa using h), length_paddedText (Nat.pos_of_ne_zero h) (mod_tenTo_lt _ _)]

theorem ofDigitChars_digits (n : Numeral) :
    Nat.ofDigitChars 10 (n.wholeDigits ++ n.fractionDigits) 0 = n.mantissa := by
  have hwhole : Nat.ofDigitChars 10 n.wholeDigits 0 = n.mantissa / Decimal.tenTo n.scale := by
    rw [Numeral.wholeDigits, ofDigitChars_natText]
    simp
  rw [ofDigitChars_append, hwhole, Numeral.fractionDigits]
  by_cases h : n.scale = 0
  · simp [h]
  · rw [if_neg (by simpa using h),
      ofDigitChars_paddedText (Nat.pos_of_ne_zero h) (mod_tenTo_lt _ _), Nat.div_add_mod]

/-- The text of an exponent, if there is one. -/
def exponentText : Option Int → List Char
  | none => []
  | some e => 'e' :: Decimal.signText (e < 0) ++ Decimal.natText e.natAbs

theorem print_eq (n : Numeral) : n.print = Decimal.signText n.negative ++
    (n.wholeDigits ++ (n.fractionText ++ exponentText n.exponent)) := by
  unfold Numeral.print
  rw [fixedText_eq, List.append_assoc, List.append_assoc]
  cases n.exponent <;> rfl

/-- Behind a sign stands a digit. -/
theorem readSign_natText {negative : Bool} (k : Nat) (rest : List Char) :
    readSign (Decimal.signText negative ++ (Decimal.natText k ++ rest)) =
      (negative, Decimal.natText k ++ rest) := by
  cases negative with
  | true => rfl
  | false =>
    cases hk : Decimal.natText k with
    | nil => exact absurd hk Nat.toDigits_ne_nil
    | cons c cs =>
      have hdigit : c.isDigit := isDigit_of_mem_natText (hk ▸ List.mem_cons_self)
      have hplus : c ≠ '+' := by rintro rfl; exact absurd hdigit (by decide)
      have hminus : c ≠ '-' := by rintro rfl; exact absurd hdigit (by decide)
      simp only [Decimal.signText, Bool.false_eq_true, if_false, List.nil_append, List.cons_append]
      exact readSign.eq_3 _ (fun _ h => hplus (List.cons.inj h).1)
        fun _ h => hminus (List.cons.inj h).1

theorem readExponent_print (e : Option Int) {rest : List Char} (h : Ends rest) :
    readExponent (exponentText e ++ rest) = some (e, rest) := by
  cases e with
  | none =>
    cases rest with
    | nil => rfl
    | cons c rest =>
      obtain ⟨_, _, he, hE⟩ := h c rfl
      simp [exponentText, readExponent, he, hE]
  | some e =>
    have hspan : spanDigits (Decimal.natText e.natAbs ++ rest) =
        (Decimal.natText e.natAbs, rest) :=
      spanDigits_append (fun _ hc => isDigit_of_mem_natText hc) fun c hc => (h c hc).1
    have hvalue : Nat.ofDigitChars 10 (Decimal.natText e.natAbs) 0 = e.natAbs := by
      rw [ofDigitChars_natText]
      simp
    have hempty : (Decimal.natText e.natAbs).isEmpty = false := by
      simp [Decimal.natText, Nat.toDigits_ne_nil]
    simp only [exponentText, List.cons_append, List.append_assoc, readExponent]
    rw [if_pos (by decide), readSign_natText]
    simp only [hspan, hempty, hvalue, Bool.false_eq_true, if_false, decide_eq_true_eq]
    congr 3
    split <;> omega

theorem readFraction_print (n : Numeral) {rest : List Char} (hpoint : ∀ c ∈ rest.head?, c ≠ '.')
    (hdigit : ∀ c ∈ rest.head?, c.isDigit = false) :
    readFraction (n.fractionText ++ rest) = some (n.fractionDigits, rest) := by
  unfold Numeral.fractionText
  by_cases h : n.scale = 0
  · have hfraction : n.fractionDigits = [] := if_pos (by simpa using h)
    rw [if_pos (by simpa using h), hfraction, List.nil_append]
    cases rest with
    | nil => rfl
    | cons c rest => exact readFraction.eq_2 _ fun _ heq => hpoint c rfl (List.cons.inj heq).1
  · have hdigits : ∀ c ∈ n.fractionDigits, c.isDigit := by
      intro c hc
      rw [Numeral.fractionDigits, if_neg (by simpa using h)] at hc
      exact isDigit_of_mem_paddedText hc
    have hempty : n.fractionDigits.isEmpty = false := by
      rw [List.isEmpty_eq_false_iff, ← List.length_pos_iff, length_fractionDigits]
      exact Nat.pos_of_ne_zero h
    rw [if_neg (by simpa using h), List.cons_append, readFraction, spanDigits_append hdigits hdigit]
    simp [hempty]

theorem isDigit_of_mem_wholeDigits {n : Numeral} {c : Char} (h : c ∈ n.wholeDigits) :
    c.isDigit :=
  isDigit_of_mem_natText h

theorem wholeDigits_ne_nil (n : Numeral) : n.wholeDigits ≠ [] :=
  Nat.toDigits_ne_nil

theorem readUnsigned_print (n : Numeral) {rest : List Char} (h : Ends rest) :
    readUnsigned n.negative (n.wholeDigits ++ (n.fractionText ++
      (exponentText n.exponent ++ rest))) = some (n, rest) := by
  -- an exponent starts with its letter, which is neither a point nor a digit
  have hexponent : ∀ c ∈ (exponentText n.exponent ++ rest).head?, c ≠ '.' ∧ c.isDigit = false := by
    cases n.exponent with
    | none => exact fun c hc => ⟨(h c hc).2.1, (h c hc).1⟩
    | some e =>
      intro c hc
      obtain rfl := Option.some.inj hc
      decide
  have hfraction : ∀ c ∈ (n.fractionText ++ (exponentText n.exponent ++ rest)).head?,
      c.isDigit = false := by
    unfold Numeral.fractionText
    cases n.scale == 0 with
    | true => exact fun c hc => (hexponent c hc).2
    | false =>
      intro c hc
      obtain rfl := Option.some.inj hc
      decide
  have hwhole : (n.wholeDigits.isEmpty ||
      (n.wholeDigits.head? == some '0' && n.wholeDigits.length != 1)) = false := by
    rw [List.isEmpty_eq_false_iff.mpr (wholeDigits_ne_nil n), Bool.false_or]
    exact head?_natText _
  unfold readUnsigned
  rw [spanDigits_append (fun _ hc => isDigit_of_mem_wholeDigits hc) hfraction]
  dsimp only
  rw [hwhole, if_neg Bool.false_ne_true,
    readFraction_print n (fun c hc => (hexponent c hc).1) fun c hc => (hexponent c hc).2,
    Option.bind_some]
  dsimp only
  rw [readExponent_print n.exponent h, Option.map_some, ofDigitChars_digits,
    length_fractionDigits]

/-- A number is read back if nothing goes on with it. -/
theorem readNumber_print (n : Numeral) {rest : List Char} (h : Ends rest) :
    readNumber (n.print ++ rest) = some (n, rest) := by
  have hunsigned := readUnsigned_print n h
  rw [print_eq]
  simp only [List.append_assoc]
  cases hsign : n.negative with
  | true =>
    rw [hsign] at hunsigned
    exact hunsigned
  | false =>
    obtain ⟨c, cs, hwhole⟩ := List.exists_cons_of_ne_nil (wholeDigits_ne_nil n)
    have hdigit : c.isDigit := isDigit_of_mem_wholeDigits (hwhole ▸ List.mem_cons_self)
    have hminus : c ≠ '-' := by
      rintro rfl
      exact absurd hdigit (by decide)
    rw [hsign, hwhole] at hunsigned
    rw [hwhole]
    exact (readNumber.eq_2 _ fun _ heq => hminus (List.cons.inj heq).1).trans hunsigned

/-! ## Values -/

/-- A style that puts nothing but blanks around items, and behind colons. -/
structure Style.Spaced (style : Style) : Prop where
  newline : ∀ depth, IsSpacing (style.newline depth)
  colon : ∃ gap, style.colon = ':' :: gap ∧ IsSpacing gap

theorem spaced_compact : Style.compact.Spaced where
  newline _ := by simp [Style.compact, IsSpacing]
  colon := ⟨[], rfl, by simp [IsSpacing]⟩

theorem spaced_indented : Style.indented.Spaced where
  newline depth c hc := by
    rcases List.mem_cons.mp hc with rfl | hc
    · decide
    · rw [List.eq_of_mem_replicate hc]
      decide
  colon := ⟨[' '], rfl, by simp [IsSpacing, isSpace]⟩

theorem readValue_append {gap : List Char} (h : IsSpacing gap) (fuel : Nat) (cs : List Char) :
    readValue fuel (gap ++ cs) = readValue fuel cs := by
  cases fuel <;> simp only [readValue, skipSpace_append h]

theorem readItems_append {gap : List Char} (h : IsSpacing gap) (fuel : Nat) (done : List Json)
    (cs : List Char) : readItems fuel done (gap ++ cs) = readItems fuel done cs := by
  cases fuel <;> simp only [readItems, readValue_append h]

theorem readMembers_append {gap : List Char} (h : IsSpacing gap) (fuel : Nat)
    (done : List (Text × Json)) (cs : List Char) :
    readMembers fuel done (gap ++ cs) = readMembers fuel done cs := by
  cases fuel <;> simp only [readMembers, skipSpace_append h]

/-- The first character of a number. -/
theorem exists_head_print (n : Numeral) : ∃ c cs, n.print = c :: cs ∧ (c.isDigit ∨ c = '-') := by
  obtain ⟨c, cs, hwhole⟩ := List.exists_cons_of_ne_nil (wholeDigits_ne_nil n)
  have hdigit : c.isDigit := isDigit_of_mem_wholeDigits (hwhole ▸ List.mem_cons_self)
  rw [print_eq, hwhole]
  cases n.negative with
  | true => exact ⟨'-', _, rfl, Or.inr rfl⟩
  | false => exact ⟨c, _, rfl, Or.inl hdigit⟩

/-- No other value starts as a number does. -/
theorem ne_of_isDigit_or_minus {c : Char} (h : c.isDigit ∨ c = '-') : isSpace c = false ∧ c ≠ ']' ∧
    c ≠ '[' ∧ c ≠ '\x7b' ∧ c ≠ '"' ∧ c ≠ 'n' ∧ c ≠ 't' ∧ c ≠ 'f' := by
  have hspace : isSpace c = false := by
    rw [Bool.eq_false_iff]
    intro hspace
    have hall : closers.all fun d => !d.isDigit && d != '-' := by decide +kernel
    have hcloser := List.all_eq_true.mp hall c (mem_closers_of_isSpace hspace)
    rcases h with h | rfl
    · simp [h] at hcloser
    · simp at hcloser
  refine ⟨hspace, ?_, ?_, ?_, ?_, ?_, ?_, ?_⟩ <;> (rintro rfl; exact absurd h (by decide))

/-! ### One value, by its first character -/

theorem readValue_number (fuel : Nat) (n : Numeral) {rest : List Char} (h : Ends rest) :
    readValue (fuel + 1) (n.print ++ rest) = some (.number n, rest) := by
  have hnumber := readNumber_print n h
  obtain ⟨c, cs, hprint, hc⟩ := exists_head_print n
  obtain ⟨hspace, _, h1, h2, h3, h4, h5, h6⟩ := ne_of_isDigit_or_minus hc
  rw [hprint, List.cons_append] at hnumber ⊢
  rw [readValue, skipSpace_cons hspace]
  simp [h1, h2, h3, h4, h5, h6, hnumber]

theorem readValue_string (fuel : Nat) (s : Text) (rest : List Char) :
    readValue (fuel + 1) (s.print ++ rest) = some (.string s, rest) := by
  obtain ⟨body, hprint, hread⟩ := readString_print s rest
  rw [hprint, List.cons_append, readValue, skipSpace_cons (by decide)]
  simp [hread]

theorem readValue_items {fuel : Nat} {c : Char} {cs rest : List Char}
    (h : skipSpace rest = c :: cs) (hc : c ≠ ']') :
    readValue (fuel + 1) ('[' :: rest) = readItems fuel [] (c :: cs) := by
  rw [readValue, skipSpace_cons (by decide)]
  simp [h, hc]

theorem readValue_members {fuel : Nat} {c : Char} {cs rest : List Char}
    (h : skipSpace rest = c :: cs) (hc : c ≠ '\x7d') :
    readValue (fuel + 1) ('\x7b' :: rest) = readMembers fuel [] (c :: cs) := by
  rw [readValue, skipSpace_cons (by decide)]
  simp [h, hc]

theorem exists_enclose (style : Style) (depth : Nat) (opening closing : Char)
    (items : List (List Char)) : ∃ cs, enclose style depth opening closing items = opening :: cs := by
  cases items with
  | nil => exact ⟨_, rfl⟩
  | cons t ts => exact ⟨_, rfl⟩

/-- No value starts with a blank or a closing bracket. -/
theorem exists_head_printAt (style : Style) (depth : Nat) (v : Json) :
    ∃ c cs, printAt style depth v = c :: cs ∧ isSpace c = false ∧ c ≠ ']' := by
  cases v with
  | null => exact ⟨'n', _, by rw [printAt]; rfl, by decide⟩
  | bool b => cases b with
    | true => exact ⟨'t', _, by rw [printAt]; rfl, by decide⟩
    | false => exact ⟨'f', _, by rw [printAt]; rfl, by decide⟩
  | number n =>
    obtain ⟨c, cs, hprint, hc⟩ := exists_head_print n
    exact ⟨c, cs, by rw [printAt, hprint], (ne_of_isDigit_or_minus hc).1, (ne_of_isDigit_or_minus hc).2.1⟩
  | string s =>
    obtain ⟨body, hprint, -⟩ := readString_print s []
    exact ⟨'"', body, by rw [printAt, hprint], by decide⟩
  | array items =>
    obtain ⟨cs, henclose⟩ := exists_enclose style depth '[' ']' (printItems style (depth + 1) items)
    exact ⟨'[', cs, by rw [printAt, henclose], by decide⟩
  | object members =>
    obtain ⟨cs, henclose⟩ :=
      exists_enclose style depth '\x7b' '\x7d' (printMembers style (depth + 1) members)
    exact ⟨'\x7b', cs, by rw [printAt, henclose], by decide⟩

/-- Items that are joined by commas, each comma with what opens a line. -/
def joined (style : Style) (depth : Nat) (items : List (List Char)) : List Char :=
  (',' :: style.newline depth).intercalate items

theorem joined_singleton (style : Style) (depth : Nat) (item : List Char) :
    joined style depth [item] = item :=
  List.intercalate_singleton

theorem joined_cons_cons (style : Style) (depth : Nat) (item next : List Char)
    (items : List (List Char)) : joined style depth (item :: next :: items) =
      item ++ ',' :: (style.newline depth ++ joined style depth (next :: items)) := by
  simp [joined, List.intercalate_cons_cons]

theorem enclose_cons (style : Style) (depth : Nat) (opening closing : Char) (item : List Char)
    (items : List (List Char)) : enclose style depth opening closing (item :: items) =
      opening :: (style.newline (depth + 1) ++ (joined style (depth + 1) (item :: items) ++
        (style.newline depth ++ [closing]))) := by
  simp [enclose, joined]

/-- What is joined starts as its first item does. -/
theorem exists_joined (style : Style) (depth : Nat) (c : Char) (cs : List Char)
    (items : List (List Char)) :
    ∃ rest, joined style depth ((c :: cs) :: items) = c :: rest := by
  cases items with
  | nil => exact ⟨cs, joined_singleton style depth _⟩
  | cons item items => exact ⟨_, joined_cons_cons style depth _ _ _⟩

/-- A member whose value is read back is read back with its name, in front of a comma and at the
    end of its object. -/
theorem readMembers_member {style : Style} (h : style.Spaced) {fuel : Nat} {v : Json}
    {text rest : List Char} (name : Text) (hvalue : readValue fuel (text ++ rest) = some (v, rest))
    (done : List (Text × Json)) (tail : List Char) :
    (skipSpace rest = ',' :: tail →
      readMembers (fuel + 1) done (name.print ++ style.colon ++ text ++ rest) =
        readMembers fuel ((name, v) :: done) tail) ∧
    (skipSpace rest = '\x7d' :: tail →
      readMembers (fuel + 1) done (name.print ++ style.colon ++ text ++ rest) =
        some (.object ((name, v) :: done).reverse, tail)) := by
  obtain ⟨gap, hcolon, hgap⟩ := h.colon
  obtain ⟨body, hname, hread⟩ := readString_print name (':' :: (gap ++ (text ++ rest)))
  have htext : name.print ++ style.colon ++ text ++ rest =
      '"' :: (body ++ ':' :: (gap ++ (text ++ rest))) := by
    rw [hname, hcolon]
    simp
  rw [htext, readMembers, skipSpace_cons (by decide)]
  simp only [hread]
  rw [skipSpace_cons (by decide)]
  constructor <;> intro htail <;> simp only [readValue_append hgap, hvalue, htail]

/-! ### All values -/

mutual

/-- A value is read back in front of anything that may follow it. -/
theorem readValue_printAt {style : Style} (h : style.Spaced) : ∀ (v : Json) {depth fuel : Nat}
    {rest : List Char}, (printAt style depth v).length ≤ fuel → Ends rest →
      readValue fuel (printAt style depth v ++ rest) = some (v, rest)
  | v, depth, 0, rest, hfuel, _ => by
    obtain ⟨c, cs, hhead, _⟩ := exists_head_printAt style depth v
    simp [hhead] at hfuel
  | .null, depth, fuel + 1, rest, _, _ => by
    simp [printAt, readValue, skipSpace_cons, isSpace, expect]
  | .bool true, depth, fuel + 1, rest, _, _ => by
    simp [printAt, readValue, skipSpace_cons, isSpace, expect]
  | .bool false, depth, fuel + 1, rest, _, _ => by
    simp [printAt, readValue, skipSpace_cons, isSpace, expect]
  | .number n, depth, fuel + 1, rest, _, hrest => by
    rw [printAt]
    exact readValue_number fuel n hrest
  | .string s, depth, fuel + 1, rest, _, _ => by
    rw [printAt]
    exact readValue_string fuel s rest
  | .array [], depth, fuel + 1, rest, _, _ => by
    simp [printAt, printItems, enclose, readValue, skipSpace_cons, isSpace]
  | .array (v :: vs), depth, fuel + 1, rest, hfuel, _ => by
    obtain ⟨c, cs, hhead, hspace, hc⟩ := exists_head_printAt style (depth + 1) v
    obtain ⟨tail, htail⟩ := exists_joined style (depth + 1) c cs (printItems style (depth + 1) vs)
    rw [← hhead, ← printItems] at htail
    have hprint : printAt style depth (.array (v :: vs)) = '[' :: (style.newline (depth + 1) ++
        (joined style (depth + 1) (printItems style (depth + 1) (v :: vs)) ++
          (style.newline depth ++ [']']))) := by
      rw [printAt, printItems, enclose_cons]
    rw [hprint] at hfuel ⊢
    simp only [List.length_cons, List.length_append] at hfuel
    have hitems : readItems fuel [] (joined style (depth + 1) (printItems style (depth + 1)
        (v :: vs)) ++ (style.newline depth ++ ']' :: rest)) = some (.array (v :: vs), rest) :=
      readItems_printItems h (v :: vs) (h.newline depth) (by simp) (by omega)
    simp only [List.cons_append, List.append_assoc, List.nil_append]
    rw [htail] at hitems ⊢
    rw [readValue_items (by rw [skipSpace_append (h.newline _), List.cons_append,
      skipSpace_cons hspace]) hc]
    exact hitems
  | .object [], depth, fuel + 1, rest, _, _ => by
    simp [printAt, printMembers, enclose, readValue, skipSpace_cons, isSpace]
  | .object ((name, v) :: ms), depth, fuel + 1, rest, hfuel, _ => by
    obtain ⟨body, hname, -⟩ := readString_print name []
    obtain ⟨tail, htail⟩ := exists_joined style (depth + 1) '"'
      (body ++ style.colon ++ printAt style (depth + 1) v) (printMembers style (depth + 1) ms)
    rw [← List.cons_append, ← List.cons_append, ← hname, ← printMembers] at htail
    have hprint : printAt style depth (.object ((name, v) :: ms)) =
        '\x7b' :: (style.newline (depth + 1) ++
          (joined style (depth + 1) (printMembers style (depth + 1) ((name, v) :: ms)) ++
            (style.newline depth ++ ['\x7d']))) := by
      rw [printAt, printMembers, enclose_cons]
    rw [hprint] at hfuel ⊢
    simp only [List.length_cons, List.length_append] at hfuel
    have hmembers : readMembers fuel [] (joined style (depth + 1) (printMembers style (depth + 1)
        ((name, v) :: ms)) ++ (style.newline depth ++ '\x7d' :: rest)) =
          some (.object ((name, v) :: ms), rest) :=
      readMembers_printMembers h ((name, v) :: ms) (h.newline depth) (by simp) (by omega)
    simp only [List.cons_append, List.append_assoc, List.nil_append]
    rw [htail] at hmembers ⊢
    rw [readValue_members (by rw [skipSpace_append (h.newline _), List.cons_append,
      skipSpace_cons (by decide)]) (by decide)]
    exact hmembers

/-- Items that are joined by commas and blanks are read back one by one. -/
theorem readItems_printItems {style : Style} (h : style.Spaced) : ∀ (vs : List Json)
    {depth fuel : Nat} {done : List Json} {gap rest : List Char}, IsSpacing gap → vs ≠ [] →
      (joined style depth (printItems style depth vs)).length < fuel →
      readItems fuel done (joined style depth (printItems style depth vs) ++
        (gap ++ ']' :: rest)) = some (.array (done.reverse ++ vs), rest)
  | [], _, _, _, _, _, _, hvs, _ => absurd rfl hvs
  | v :: vs, depth, 0, _, _, _, _, _, hfuel => absurd hfuel (Nat.not_lt_zero _)
  | [v], depth, fuel + 1, done, gap, rest, hgap, _, hfuel => by
    have hends : Ends (gap ++ ']' :: rest) := ends_append hgap (ends_cons (by decide) _)
    rw [printItems, printItems, joined_singleton] at hfuel ⊢
    rw [readItems, readValue_printAt h v (by omega) hends]
    dsimp only
    rw [skipSpace_append hgap, skipSpace_cons (by decide)]
    simp
  | v :: w :: ws, depth, fuel + 1, done, gap, rest, hgap, _, hfuel => by
    rw [printItems, printItems, joined_cons_cons] at hfuel ⊢
    rw [← printItems] at hfuel ⊢
    simp only [List.length_append, List.length_cons] at hfuel
    simp only [List.append_assoc, List.cons_append]
    rw [readItems, readValue_printAt h v (by omega) (ends_cons (by decide) _)]
    dsimp only
    rw [skipSpace_cons (by decide)]
    simp only [readItems_append (h.newline depth)]
    rw [readItems_printItems h (w :: ws) hgap (by simp) (by omega)]
    simp

/-- Members that are joined by commas and blanks are read back one by one. -/
theorem readMembers_printMembers {style : Style} (h : style.Spaced) : ∀ (ms : List (Text × Json))
    {depth fuel : Nat} {done : List (Text × Json)} {gap rest : List Char}, IsSpacing gap →
      ms ≠ [] → (joined style depth (printMembers style depth ms)).length < fuel →
      readMembers fuel done (joined style depth (printMembers style depth ms) ++
        (gap ++ '\x7d' :: rest)) = some (.object (done.reverse ++ ms), rest)
  | [], _, _, _, _, _, _, hms, _ => absurd rfl hms
  | m :: ms, depth, 0, _, _, _, _, _, hfuel => absurd hfuel (Nat.not_lt_zero _)
  | [(name, v)], depth, fuel + 1, done, gap, rest, hgap, _, hfuel => by
    have hends : Ends (gap ++ '\x7d' :: rest) := ends_append hgap (ends_cons (by decide) _)
    rw [printMembers, printMembers, joined_singleton] at hfuel ⊢
    simp only [List.length_append] at hfuel
    have hclose : skipSpace (gap ++ '\x7d' :: rest) = '\x7d' :: rest := by
      rw [skipSpace_append hgap, skipSpace_cons (by decide)]
    rw [(readMembers_member h name (readValue_printAt h v (by omega) hends) done _).2 hclose]
    simp
  | (name, v) :: m :: ms, depth, fuel + 1, done, gap, rest, hgap, _, hfuel => by
    obtain ⟨next, value⟩ := m
    rw [printMembers, printMembers, joined_cons_cons] at hfuel ⊢
    rw [← printMembers] at hfuel ⊢
    simp only [List.length_append, List.length_cons] at hfuel
    rw [List.append_assoc (name.print ++ style.colon ++ printAt style depth v), List.cons_append,
      List.append_assoc (style.newline depth),
      (readMembers_member h name (readValue_printAt h v (by omega) (ends_cons (by decide) _)) done
        _).1 (skipSpace_cons (by decide) _), readMembers_append (h.newline depth),
      readMembers_printMembers h ((next, value) :: ms) hgap (by simp) (by omega)]
    simp

end

/-! ## Texts -/

theorem parseChars?_print {style : Style} (h : style.Spaced) (v : Json) :
    parseChars? (printAt style 0 v) = some v := by
  have hread := readValue_printAt h v
    (show (printAt style 0 v).length ≤ 2 * (printAt style 0 v).length + 2 by omega) ends_nil
  rw [List.append_nil] at hread
  unfold parseChars?
  rw [hread]
  simp [skipSpace]

/-- A value on one line is read back. -/
theorem parse?_compact (v : Json) : parse? v.compact = some v := by
  rw [parse?, compact, String.toList_ofList, parseChars?_print spaced_compact]

/-- A value on indented lines is read back. -/
theorem parse?_pretty (v : Json) : parse? v.pretty = some v := by
  rw [parse?, pretty, String.toList_ofList, parseChars?_print spaced_indented]

/-! ## Lists, counts and records -/

/-- A list is decoded if each of its members is. -/
theorem asList_map {α : Type} {item : Json → Decoded α} {f : α → Json} {xs : List α}
    (h : ∀ x ∈ xs, item (f x) = .ok x) : asList item (.array (xs.map f)) = .ok xs := by
  unfold asList
  induction xs with
  | nil => rfl
  | cons x xs ih =>
    have hrest := ih fun y hy => h y (List.mem_cons_of_mem x hy)
    dsimp only at hrest ⊢
    rw [List.map_cons, List.mapM_cons, h x List.mem_cons_self, hrest]
    rfl

/-- A number of at most 64 bits is decoded as a count. -/
theorem asCount_ofNat {n : Nat} (h : n ≤ maxCount) : asCount (ofNat n) = .ok n := by
  simp [asCount, ofNat, Numeral.toCount?, Nat.not_lt.mpr h]

theorem asString_str (s : String) : asString (str s) = .ok s := rfl

theorem asMembers_record (ms : Members) : asMembers (record ms) = .ok ms := by
  unfold record asMembers
  dsimp only
  rw [List.mapM_map]
  exact (List.mapM_pure (m := Except String) (f := id)).trans (by rw [List.map_id]; rfl)

/-- All members of a record are known, and none stands twice. -/
theorem asRecord_record {names : List String} {ms : Members} (hnodup : (ms.map Prod.fst).Nodup)
    (hknown : ∀ m ∈ ms, m.1 ∈ names) : asRecord names (record ms) = .ok ms := by
  have hfilter : (ms.filter fun m => names.contains m.1) = ms :=
    List.filter_eq_self.mpr fun m hm => List.contains_iff_mem.mpr (hknown m hm)
  unfold asRecord
  split
  · rename_i h
    exact absurd h (by simp [record])
  · rw [asMembers_record]
    change (if ((ms.filter fun m => names.contains m.1).map Prod.fst).Nodup then _ else _) = _
    rw [hfilter, if_pos hnodup]
    rfl

end FirmwareMatch.Json
