import FirmwareMatch.Listing.Statement

/-
  One line of a listing on its own: a blank, a section marker, a label with or without something
  behind it, or content. Which of these it is depends on the line and on the names of the code
  sections, and on no other line.

  Main statement: the recognizers are tried in a fixed order, so a line is of one kind only, and its
  kind says what each of them finds.
-/

namespace FirmwareMatch

open Text

/-- What stands where an instruction is expected. -/
inductive Content
  | instruction (s : Statement)
  | unknown
deriving DecidableEq, Repr

/-- The kinds of lines. -/
inductive Line
  /-- Nothing but blanks and comments. -/
  | blank
  /-- The start of a section: its name if it is a code section. -/
  | marker (code : Option String)
  /-- A label and what follows it on its line. -/
  | label (name : String) (after : Option Content)
  /-- A line that is none of the others. -/
  | content (c : Content)
deriving DecidableEq, Repr

namespace Line

/-! ## Comments -/

/-- Cuts a comment off: `;` and `//` start one anywhere, `@` only at the start of the line or
behind a blank. `free` tells whether an `@` would start one here. -/
def cutComment (free : Bool) : List Char → List Char
  | [] => []
  | c :: cs =>
    if c == ';' || (c == '/' && cs.head? == some '/') || (c == '@' && free) then []
    else c :: cutComment (isAsciiBlank c) cs

/-- A line without its comment and without blanks at its ends. -/
def bare (raw : List Char) : List Char :=
  trim (cutComment true raw)

/-! ## Section markers -/

/-- The sections whose names are markers when they stand alone on a line. -/
def directives : List String :=
  [".text", ".data", ".bss", ".rodata", ".init", ".fini", ".plt", ".got"]

/-- The words with which a disassembler announces a section. -/
def announcement : List Char :=
  "Disassembly of section ".toList

/-- The name of the section that a line starts. -/
def sectionMarker? (sections : List String) (line : List Char) : Option (List Char) :=
  if announcement.isPrefixOf line then
    let rest := line.drop announcement.length
    if rest.getLast? == some ':' then some (trim rest.dropLast) else none
  else
    match words line with
    | [] => none
    | first :: others =>
      if first == ".section".toList then others.head?.map (·.takeWhile (· != ','))
      else if others.isEmpty && first.head? == some '.' &&
          (directives.contains (String.ofList first) || sections.contains (String.ofList first)) then
        some first
      else none

/-! ## Labels -/

/-- A character that an identifier may start with. -/
def isIdentifierStart (c : Char) : Bool :=
  c.isAlpha || c == '_' || c == '.' || c == '$'

/-- An identifier: ASCII letters, digits, `_`, `.` and `$`, not starting with a digit. -/
def isIdentifier : List Char → Bool
  | [] => false
  | c :: cs => isIdentifierStart c && cs.all fun d => d.isAlphanum || d == '_' || d == '.' || d == '$'

/-- Whether what stands behind a colon looks like the columns of a disassembler and not like the
rest of a labelled line. -/
def looksLikeColumns (line rest : List Char) : Bool :=
  line.contains '\t' || (words rest).head?.any Statement.isEncoding

/-- The label of a line and what follows it: `ADDRESS <name>:` or `name:`. A name that is also a
hexadecimal number is a label only if no columns follow it. -/
def label? (line : List Char) : Option (List Char × List Char) :=
  let (first, rest) := (cut? isBlank line).getD (line, [])
  let rest := trim rest
  if isHex first && rest.head? == some '<' && [':', '>'].isPrefixOf rest.reverse then
    let name := (rest.drop 1).take (rest.length - 3)
    if name.isEmpty then none else some (name, [])
  else if first.getLast? == some ':' then
    let name := first.dropLast
    if isHex name && looksLikeColumns line rest then none
    else if isIdentifier name && name != ['.'] then some (name, rest)
    else none
  else none

/-! ## Reading -/

/-- What a text holds where an instruction is expected. -/
def readContent (text : List Char) : Content :=
  match Statement.read? text with
  | some s => .instruction s
  | none => .unknown

/-- The kind of a line that has no comment and no blanks at its ends. -/
def ofBare (sections : List String) (line : List Char) : Line :=
  if line.isEmpty then .blank
  else
    match sectionMarker? sections line with
    | some name =>
      let name := String.ofList name
      .marker (if sections.contains name then some name else none)
    | none =>
      match label? line with
      | some (name, rest) =>
        .label (String.ofList name) (if rest.isEmpty then none else some (readContent rest))
      | none => .content (readContent line)

/-- The kind of a line as it stands in the text. -/
def read (sections : List String) (raw : List Char) : Line :=
  ofBare sections (bare raw)

/-- A line without anything but a comment and blanks is blank. -/
theorem read_of_bare_nil {sections : List String} {raw : List Char} (h : bare raw = []) :
    read sections raw = .blank := by
  simp [read, ofBare, h]

/-- Lines that differ in comments and blanks at their ends only are of the same kind. -/
theorem read_congr {sections : List String} {a b : List Char} (h : bare a = bare b) :
    read sections a = read sections b := by
  simp [read, h]

theorem sectionMarker?_nil {sections : List String} : sectionMarker? sections [] = none := rfl

/-- The kinds of lines, and what the recognizers say of a line of each. -/
theorem read_cases (sections : List String) (raw : List Char) :
    (bare raw = [] ∧ read sections raw = .blank) ∨
    (∃ name, sectionMarker? sections (bare raw) = some name ∧
      read sections raw = .marker (if sections.contains (String.ofList name) then
        some (String.ofList name) else none)) ∨
    (∃ name rest, bare raw ≠ [] ∧ sectionMarker? sections (bare raw) = none ∧
      label? (bare raw) = some (name, rest) ∧
      read sections raw =
        .label (String.ofList name) (if rest.isEmpty then none else some (readContent rest))) ∨
    (bare raw ≠ [] ∧ sectionMarker? sections (bare raw) = none ∧ label? (bare raw) = none ∧
      read sections raw = .content (readContent (bare raw))) := by
  by_cases hblank : bare raw = []
  · exact .inl ⟨hblank, read_of_bare_nil hblank⟩
  · unfold read ofBare
    rw [if_neg (by simpa using hblank)]
    cases hmarker : sectionMarker? sections (bare raw) with
    | some name => exact .inr (.inl ⟨name, rfl, rfl⟩)
    | none =>
      cases hlabel : label? (bare raw) with
      | some cut => exact .inr (.inr (.inl ⟨cut.1, cut.2, hblank, rfl, rfl, rfl⟩))
      | none => exact .inr (.inr (.inr ⟨hblank, rfl, rfl, rfl⟩))

end Line

end FirmwareMatch
