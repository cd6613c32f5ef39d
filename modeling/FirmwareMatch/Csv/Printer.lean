import FirmwareMatch.Text.Fields

/-
  Writing comma-separated records.

  A field stands between quotes if it holds a comma, a quote, a line feed or a carriage return; a
  quote inside quotes is written twice. Every record ends with a line feed.
-/

namespace FirmwareMatch.Csv

/-- A character that a field may hold only between quotes. -/
def isSpecial (c : Char) : Bool :=
  c == ',' || c == '"' || c == '\n' || c == '\r'

/-- A field between quotes. -/
def quoteField (field : List Char) : List Char :=
  '"' :: field.flatMap (fun c => if c == '"' then ['"', '"'] else [c]) ++ ['"']

/-- A field as it is written. -/
def printField (field : List Char) : List Char :=
  if field.any isSpecial then quoteField field else field

/-- A record with its line feed. -/
def printRecord (record : List String) : List Char :=
  [','].intercalate (record.map fun f => printField f.toList) ++ ['\n']

/-- The text of records. -/
def print (records : List (List String)) : String :=
  String.ofList (records.flatMap printRecord)

end FirmwareMatch.Csv
