import FirmwareMatch.Text.Fields
import FirmwareMatch.Text.Hex

/-
  One instruction as it stands on a line: an optional address column, an optional column of
  encoding bytes, a mnemonic and operands.

  Main statements: the operands of a text are the trimmed pieces between its top-level commas, and
  none of them is empty.
-/

namespace FirmwareMatch

open Text

/-- An instruction that was read from a line but has no place in a block yet. -/
structure Statement where
  address : Option UInt64
  mnemonic : String
  operands : List String
deriving DecidableEq, Repr

namespace Statement

/-! ## Operands -/

/-- What a character adds to the depth of brackets; the four kinds of brackets count alike. -/
def nesting (c : Char) : Int :=
  if c == '[' || c == '\x7b' || c == '(' || c == '<' then 1
  else if c == ']' || c == '\x7d' || c == ')' || c == '>' then -1
  else 0

/-- The pieces between the commas at which at most as many brackets have been opened as closed. -/
def pieces (depth : Int) : List Char → List (List Char)
  | [] => [[]]
  | c :: cs =>
    if c == ',' && depth ≤ 0 then [] :: pieces depth cs
    else extendField c (pieces (depth + nesting c) cs)

/-- The operands of a text: its trimmed pieces, without those that hold nothing. -/
def splitOperands (cs : List Char) : List (List Char) :=
  ((pieces 0 cs).map trim).filter (!·.isEmpty)

theorem ne_nil_of_mem_splitOperands {cs op : List Char} (h : op ∈ splitOperands cs) : op ≠ [] := by
  simp only [splitOperands, List.mem_filter] at h
  intro he
  simp [he] at h

/-! ## Mnemonics -/

/-- A character that a mnemonic may hold behind its first letter. -/
def isMnemonicChar (c : Char) : Bool :=
  c.isAlphanum || c == '.' || c == '_'

/-- The mnemonic of a word: in lower case, and without what follows a point. -/
def mnemonic? (word : List Char) : Option (List Char) :=
  match word with
  | [] => none
  | c :: _ =>
    if c.isAlpha && word.all isMnemonicChar then
      some ((word.takeWhile (· != '.')).map Char.toLower)
    else none

/-! ## Columns -/

/-- A group of encoding bytes: whole bytes in hexadecimal. -/
def isByteGroup (word : List Char) : Bool :=
  isHex word && word.length % 2 == 0

/-- A column of encoding bytes: one or more groups. -/
def isEncoding (column : List Char) : Bool :=
  !(words column).isEmpty && (words column).all isByteGroup

/-- The columns joined by spaces; nothing if there is no column. -/
def joinColumns? : List (List Char) → Option (List Char)
  | [] => none
  | cols => some ([' '].intercalate cols)

/-- What follows the encoding bytes behind an address: with tabs, the columns after a first column
of encoding bytes; without, the words after all leading groups of encoding bytes. -/
def dropEncoding? (rest : List Char) : Option (List Char) :=
  if rest.contains '\t' then
    match ((fields (· == '\t') rest).map trim).filter (!·.isEmpty) with
    | [] => none
    | first :: others => joinColumns? (if isEncoding first then others else first :: others)
  else
    joinColumns? ((words rest).dropWhile isByteGroup)

/-- The digits of the address column and what follows its colon. -/
def addressColumn? (line : List Char) : Option (List Char × List Char) :=
  match cut? (· == ':') line with
  | some (head, tail) => if isHex (trim head) then some (trim head, trim tail) else none
  | none => none

/-! ## Reading -/

/-- The mnemonic and the operands of an instruction without columns. -/
def ofAssembly? (address : Option UInt64) (text : List Char) : Option Statement :=
  let text := trim text
  let (head, operands) := (cut? isBlank text).getD (text, [])
  (mnemonic? head).map fun m =>
    ⟨address, String.ofList m, (splitOperands (trim operands)).map String.ofList⟩

/-- The instruction on a line. An address column whose number does not fit into 64 bits is taken
off, but the encoding bytes behind it are then read as the instruction. -/
def read? (line : List Char) : Option Statement :=
  match addressColumn? line with
  | none => ofAssembly? none line
  | some (digits, rest) =>
    match readHex64? digits with
    | none => ofAssembly? none rest
    | some address => (dropEncoding? rest).bind (ofAssembly? (some address))

end Statement

end FirmwareMatch
