import FirmwareMatch.Json.Basic

/-
  Writing JSON values, on one line or indented.

  In a string the quote, the backslash and the control characters below U+0020 are escaped, with a
  letter where there is one; every other character stands for itself.
-/

namespace FirmwareMatch.Json

/-! ## Strings -/

/-- The letter behind the backslash for the characters that have one. -/
def escapeLetter? (c : Char) : Option Char :=
  if c == '"' then some '"'
  else if c == '\\' then some '\\'
  else if c == '\x08' then some 'b'
  else if c == '\t' then some 't'
  else if c == '\n' then some 'n'
  else if c == '\x0c' then some 'f'
  else if c == '\r' then some 'r'
  else none

/-- A character inside a string. -/
def escape (c : Char) : List Char :=
  match escapeLetter? c with
  | some l => ['\\', l]
  | none =>
    if c.toNat < 0x20 then
      ['\\', 'u', '0', '0', Nat.digitChar (c.toNat / 16), Nat.digitChar (c.toNat % 16)]
    else [c]

/-- A string with its quotes. -/
def quote (cs : List Char) : List Char :=
  '"' :: cs.flatMap escape ++ ['"']

/-- A string that may be defective, as one that has the same defect. -/
def Text.print : Text → List Char
  | some s => quote s.toList
  | none => "\"\\ud800\"".toList

/-! ## Numbers -/

/-- A number in the form in which it was written. -/
def Numeral.print (n : Numeral) : List Char :=
  Decimal.signText n.negative ++ Decimal.fixedText n.scale n.mantissa ++
    match n.exponent with
    | none => []
    | some e => 'e' :: Decimal.signText (e < 0) ++ Decimal.natText e.natAbs

/-! ## Values -/

/-- How members and items are set apart: what opens a line at each depth, and what stands behind a
colon. -/
structure Style where
  newline : Nat → List Char
  colon : List Char

/-- Everything on one line without blanks. -/
def Style.compact : Style :=
  ⟨fun _ => [], [':']⟩

/-- Every item on a line of its own, two more spaces per depth. -/
def Style.indented : Style :=
  ⟨fun depth => '\n' :: List.replicate (2 * depth) ' ', [':', ' ']⟩

/-- Items between brackets; empty brackets stay together. -/
def enclose (style : Style) (depth : Nat) (opening closing : Char) :
    List (List Char) → List Char
  | [] => [opening, closing]
  | items =>
    opening :: (style.newline (depth + 1) ++
      (',' :: style.newline (depth + 1)).intercalate items ++ style.newline depth ++ [closing])

mutual

/-- The text of a value that stands at the given depth. -/
def printAt (style : Style) (depth : Nat) : Json → List Char
  | .null => "null".toList
  | .bool true => "true".toList
  | .bool false => "false".toList
  | .number n => n.print
  | .string s => s.print
  | .array items => enclose style depth '[' ']' (printItems style (depth + 1) items)
  | .object members => enclose style depth '\x7b' '\x7d' (printMembers style (depth + 1) members)

/-- The texts of the items of an array. -/
def printItems (style : Style) (depth : Nat) : List Json → List (List Char)
  | [] => []
  | v :: vs => printAt style depth v :: printItems style depth vs

/-- The texts of the members of an object. -/
def printMembers (style : Style) (depth : Nat) : List (Text × Json) → List (List Char)
  | [] => []
  | (name, v) :: ms =>
    (name.print ++ style.colon ++ printAt style depth v) :: printMembers style depth ms

end

/-- A value on one line. -/
def compact (v : Json) : String :=
  String.ofList (printAt .compact 0 v)

/-- A value on indented lines. -/
def pretty (v : Json) : String :=
  String.ofList (printAt .indented 0 v)

end FirmwareMatch.Json
