import FirmwareMatch.Corpus.Unique
import FirmwareMatch.Csv.Printer
import FirmwareMatch.Csv.Reader
import FirmwareMatch.Fault

/-
  A table of unique features as rows of project, opcode and hash, and as comma-separated text.

  Rows say nothing of a project without unique features and nothing of the digests that a project
  shares, so a table that was written as rows comes back without both.
-/

namespace FirmwareMatch

/-- One unique digest of a project. -/
structure FeatureRow where
  project : String
  opcode : String
  hash : Digest
deriving DecidableEq, Repr

/-- The columns, in their order. -/
def rowColumns : List String :=
  ["Project", "Opcode", "Hash"]

namespace UniqueTable

/-- The rows of a set, in ascending order of the digests. -/
def rowsOfSet (s : UniqueSet) : List FeatureRow :=
  s.features.toList.map fun (hash, opcode) => ⟨s.project, opcode, hash⟩

/-- The rows of a table, project by project. -/
def rows (t : UniqueTable) : List FeatureRow :=
  t.projects.values.flatMap rowsOfSet

/-- A table without projects. -/
def empty : UniqueTable :=
  ⟨none, ∅⟩

/-- Changes the set of a project, which becomes known if it is not. -/
def changeSet (t : UniqueTable) (project : String) (f : UniqueSet → UniqueSet) : UniqueTable :=
  { t with projects := t.projects.insert project (f (t.setOf project)) }

/-- Adds a row; of several rows for one digest of a project the last counts. -/
def addRow (t : UniqueTable) (r : FeatureRow) : UniqueTable :=
  t.changeSet r.project fun s => { s with features := s.features.insert r.hash r.opcode }

/-- The table of rows. -/
def ofRows (rs : List FeatureRow) : UniqueTable :=
  rs.foldl addRow empty

/-! ## Comma-separated text -/

/-- A row as a record. -/
def recordOfRow (r : FeatureRow) : List String :=
  [r.project, r.opcode, r.hash]

/-- A table as records; the heading is there even without rows. -/
def records (t : UniqueTable) : List (List String) :=
  rowColumns :: t.rows.map recordOfRow

/-- A table as comma-separated text. -/
def renderCsv (t : UniqueTable) : String :=
  Csv.print t.records

/-- The first column that a heading lacks. -/
def missingColumn? (heading : List String) : Option String :=
  rowColumns.find? fun name => !heading.contains name

/-- The field of a record in the column of that name. -/
def column (heading record : List String) (name : String) : String :=
  ((heading.zip record).lookup name).getD ""

/-- The row that a record holds under a heading. -/
def rowOfRecord (heading record : List String) : Except TableFault FeatureRow :=
  if record.length != heading.length then
    .error (.unreadable "a record has not as many fields as the heading")
  else if rowColumns.any fun name => heading.count name != 1 then
    .error (.unreadable "a column stands twice in the heading")
  else
    .ok ⟨column heading record "Project", column heading record "Opcode",
      column heading record "Hash"⟩

/-- The table of records, the first of which is the heading. -/
def ofRecords (records : List (List String)) : Except TableFault UniqueTable := do
  let heading := records.headD []
  match missingColumn? heading with
  | some name => throw (.missingColumn name)
  | none =>
    let rs ← (records.drop 1).mapM (rowOfRecord heading)
    return ofRows rs

/-- The table of comma-separated text. -/
def ofCsv (cs : List Char) : Except TableFault UniqueTable :=
  ofRecords (Csv.records cs)

/-- What is wrong with comma-separated bytes that start with `cs` and are no text from there on: a
lacking column if the heading is complete, and otherwise the bytes. -/
def faultOfBrokenCsv (cs : List Char) : TableFault :=
  let broken := TableFault.unreadable "not UTF-8"
  match (Csv.readAll cs).records.getLast? with
  | some heading => ((missingColumn? heading).map TableFault.missingColumn).getD broken
  | none => broken

end UniqueTable

end FirmwareMatch
