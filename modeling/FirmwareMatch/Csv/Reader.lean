import FirmwareMatch.Text.Fields

/-
  Reading comma-separated records.

  A record ends at a line feed or a carriage return outside quotes, and empty lines are passed
  over. A quote opens a quoted field only where a field starts; between quotes two quotes stand for
  one; what follows a closing quote is taken as it stands. A quoted field that is never closed runs
  to the end of the text.
-/

namespace FirmwareMatch.Csv

/-- Where the next character stands. -/
inductive Place
  /-- Before a record. -/
  | recordStart
  /-- Before a field that is not the first. -/
  | fieldStart
  /-- In a field outside quotes. -/
  | bare
  /-- Between quotes. -/
  | quoted
  /-- Behind a quote that closes a field, or is the first of two. -/
  | quoteSeen
deriving DecidableEq, Repr

/-- What has been read: the place, the field so far backwards, the fields of the record so far
backwards, and the complete records backwards. -/
structure Reader where
  place : Place
  field : List Char
  fields : List String
  records : List (List String)

namespace Reader

/-- Before the first character. -/
def start : Reader :=
  ⟨.recordStart, [], [], []⟩

/-- A character at which a record ends. -/
def isLineEnd (c : Char) : Bool :=
  c == '\n' || c == '\r'

/-- Completes the field. -/
def endField (r : Reader) : Reader :=
  { r with place := .fieldStart, field := [], fields := String.ofList r.field.reverse :: r.fields }

/-- Completes the field and the record. -/
def endRecord (r : Reader) : Reader :=
  ⟨.recordStart, [], [], (String.ofList r.field.reverse :: r.fields).reverse :: r.records⟩

/-- Appends a character to the field. -/
def push (r : Reader) (place : Place) (c : Char) : Reader :=
  { r with place, field := c :: r.field }

/-- Takes a character outside quotes. -/
def stepBare (r : Reader) (c : Char) : Reader :=
  if c == ',' then r.endField
  else if isLineEnd c then r.endRecord
  else r.push .bare c

/-- Takes a character where a field starts. -/
def stepField (r : Reader) (c : Char) : Reader :=
  if c == '"' then { r with place := .quoted } else r.stepBare c

/-- Takes the next character. -/
def step (r : Reader) (c : Char) : Reader :=
  match r.place with
  | .recordStart => if isLineEnd c then r else r.stepField c
  | .fieldStart => r.stepField c
  | .bare => r.stepBare c
  | .quoted => if c == '"' then { r with place := .quoteSeen } else r.push .quoted c
  | .quoteSeen => if c == '"' then r.push .quoted c else r.stepBare c

/-- The records at the end of the text, which ends a record that has been started. -/
def finish (r : Reader) : List (List String) :=
  match r.place with
  | .recordStart => r.records.reverse
  | _ => r.endRecord.records.reverse

/-- Takes characters in their order. -/
def run (r : Reader) (cs : List Char) : Reader :=
  cs.foldl step r

@[simp] theorem run_nil (r : Reader) : r.run [] = r := rfl

@[simp] theorem run_cons (r : Reader) (c : Char) (cs : List Char) :
    r.run (c :: cs) = (r.step c).run cs := rfl

theorem run_append (r : Reader) (cs ds : List Char) : r.run (cs ++ ds) = (r.run cs).run ds := by
  simp [run]

end Reader

/-- A text without the mark that may open it. -/
def dropMark : List Char → List Char
  | '\uFEFF' :: cs => cs
  | cs => cs

/-- The reader behind all of a text. -/
def readAll (cs : List Char) : Reader :=
  Reader.start.run (dropMark cs)

/-- The records of a text. -/
def records (cs : List Char) : List (List String) :=
  (readAll cs).finish

end FirmwareMatch.Csv
