/-
  A position in a YAML text: the characters that follow, with line and column.

  Line breaks are `\n`, `\r`, both together, U+0085, U+2028 and U+2029; in a scalar the last two
  stay what they are and all others become `\n`.
-/

namespace FirmwareMatch.Yaml

/-- The reason why a text is no YAML. -/
abbrev Result := Except String

/-! ## Classes of characters -/

/-- A character that a YAML text may hold. -/
def isAllowed (c : Char) : Bool :=
  let n := c.toNat
  n == 0x09 || n == 0x0A || n == 0x0D || (0x20 ≤ n && n ≤ 0x7E) || n == 0x85 ||
    (0xA0 ≤ n && n != 0xFEFF && n != 0xFFFE && n != 0xFFFF)

/-- A space or a tab. -/
def isBlank (c : Char) : Bool :=
  c == ' ' || c == '\t'

/-- A character that ends a line. -/
def isBreak (c : Char) : Bool :=
  c == '\n' || c == '\r' || c == '\u0085' || c == '\u2028' || c == '\u2029'

/-- Whether a character, or the end of the text, ends a word. -/
def endsWord : Option Char → Bool
  | some c => isBlank c || isBreak c
  | none => true

/-- Whether a character, or the end of the text, ends a line. -/
def endsLine : Option Char → Bool
  | some c => isBreak c
  | none => true

/-- A character of names: an ASCII letter or digit, `_` or `-`. -/
def isNameChar (c : Char) : Bool :=
  c.isAlphanum || c == '_' || c == '-'

/-! ## Cursors -/

/-- What follows a position, and where the position is. -/
structure Cursor where
  rest : List Char
  line : Nat
  column : Nat
  index : Nat

namespace Cursor

/-- The start of a text. -/
def start (cs : List Char) : Cursor :=
  ⟨cs, 0, 0, 0⟩

/-- The `n`-th character that follows. -/
def peek (c : Cursor) (n : Nat) : Option Char :=
  c.rest[n]?

/-- Whether `ch` follows. -/
def sees (c : Cursor) (ch : Char) : Bool :=
  c.rest.head? == some ch

/-- Passes over `n` characters of the line. -/
def skip (c : Cursor) (n : Nat) : Cursor :=
  ⟨c.rest.drop n, c.line, c.column + n, c.index + n⟩

/-- Passes over the characters of the line that satisfy `p`. -/
def skipWhile (c : Cursor) (p : Char → Bool) : Cursor :=
  c.skip (c.rest.takeWhile p).length

/-- The characters that satisfy `p`, and the position behind them. -/
def span (c : Cursor) (p : Char → Bool) : List Char × Cursor :=
  (c.rest.takeWhile p, c.skipWhile p)

/-- Passes over a line break of `n` characters. -/
def newline (c : Cursor) (n : Nat) : Cursor :=
  ⟨c.rest.drop n, c.line + 1, 0, c.index + n⟩

/-- The line break that follows as it counts in a scalar, and the position behind it; nothing is
taken if none follows. -/
def takeBreak (c : Cursor) : List Char × Cursor :=
  match c.rest with
  | '\r' :: '\n' :: _ => (['\n'], c.newline 2)
  | ch :: _ =>
    if ch == '\u2028' || ch == '\u2029' then ([ch], c.newline 1)
    else if isBreak ch then (['\n'], c.newline 1)
    else ([], c)
  | [] => ([], c)

/-- Whether a line starts here that separates documents: three hyphens or three points. -/
def atDocumentMark (c : Cursor) : Bool :=
  c.column == 0 && (['-', '-', '-'].isPrefixOf c.rest || ['.', '.', '.'].isPrefixOf c.rest) &&
    endsWord (c.peek 3)

end Cursor

/-! ## Gaps between words -/

/-- Blanks and line breaks between two words of a scalar. -/
structure Gap where
  blanks : List Char
  /-- The first line break, unless it was escaped. -/
  first : List Char
  /-- The further line breaks. -/
  further : List Char
  /-- Whether there is a line break, escaped or not. -/
  broken : Bool

namespace Gap

/-- No gap. -/
def none : Gap :=
  ⟨[], [], [], false⟩

/-- A gap that starts with an escaped line break. -/
def escaped : Gap :=
  ⟨[], [], [], true⟩

/-- What a gap stands for: its blanks if it lies within a line, a space for a single line break,
and otherwise the line breaks but for the first. -/
def text (g : Gap) : List Char :=
  if !g.broken then g.blanks
  else if g.first == ['\n'] then
    if g.further.isEmpty then [' '] else g.further
  else g.first ++ g.further

/-- Takes a blank. -/
def addBlank (g : Gap) (c : Char) : Gap :=
  if g.broken then g else { g with blanks := g.blanks ++ [c] }

/-- Takes a line break. -/
def addBreak (g : Gap) (b : List Char) : Gap :=
  if g.broken then { g with further := g.further ++ b }
  else ⟨[], b, [], true⟩

/-- Takes all blanks and line breaks that follow. A tab at the start of a line must not stand left
of the column `margin`. -/
def scan (margin : Nat) : Nat → Gap → Cursor → Result (Gap × Cursor)
  | 0, g, c => .ok (g, c)
  | fuel + 1, g, c =>
    match c.rest with
    | [] => .ok (g, c)
    | ch :: _ =>
      if isBlank ch then
        if g.broken && c.column < margin && ch == '\t' then
          .error "a tab stands where indentation is expected"
        else scan margin fuel (g.addBlank ch) (c.skip 1)
      else if isBreak ch then
        let (b, c) := c.takeBreak
        scan margin fuel (g.addBreak b) c
      else .ok (g, c)

end Gap

end FirmwareMatch.Yaml
