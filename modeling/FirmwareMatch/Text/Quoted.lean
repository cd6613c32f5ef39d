import FirmwareMatch.Text.InversionList
import FirmwareMatch.Text.PrintableTable

/-
  Texts in quotes as messages show them: quotes, backslashes and control characters are escaped,
  and so is every character that would not show or would join the one before it.
-/

namespace FirmwareMatch.Text

/-- Whether a character shows on its own. -/
def isShown (c : Char) : Bool :=
  !inInversionList graphemeExtendChanges c.toNat && inInversionList printableChanges c.toNat

/-- A character inside quotes. -/
def quoteChar (c : Char) : List Char :=
  if c == '\x00' then ['\\', '0']
  else if c == '\t' then ['\\', 't']
  else if c == '\r' then ['\\', 'r']
  else if c == '\n' then ['\\', 'n']
  else if c == '"' || c == '\\' then ['\\', c]
  else if isShown c then [c]
  else ['\\', 'u', '\x7b'] ++ Nat.toDigits 16 c.toNat ++ ['\x7d']

/-- A text in quotes. -/
def quoted (s : String) : String :=
  String.ofList ('"' :: s.toList.flatMap quoteChar ++ ['"'])

/-- A list of texts in quotes, in brackets. -/
def quotedList (ss : List String) : String :=
  "[" ++ ", ".intercalate (ss.map quoted) ++ "]"

end FirmwareMatch.Text
