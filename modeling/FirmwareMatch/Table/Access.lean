import FirmwareMatch.Csv.Writer
import FirmwareMatch.Disk.Access
import FirmwareMatch.Store.Document
import FirmwareMatch.Table.Document

/-
  Tables of unique features and feature stores as files.

  A table is read as JSON if its path ends in `.json`, and as comma-separated text otherwise. A
  table that cannot be read, for whatever reason, is unusable; one that can be read but names no
  project is empty.

  Main statement: what is read is faulty in one of these two ways or names a project.
-/

namespace FirmwareMatch

/-! ## Reading -/

namespace UniqueTable

/-- The table that the bytes of a JSON file hold. -/
def ofJsonBytes (bytes : ByteArray) : Except TableFault UniqueTable :=
  match Text.decodeUtf8? bytes with
  | none => .error (.unreadable "not UTF-8")
  | some text => (Json.parse text >>= ofJson).mapError .unreadable

/-- The table that the bytes of a comma-separated file hold. -/
def ofCsvBytes (bytes : ByteArray) : Except TableFault UniqueTable :=
  match Text.utf8Prefix bytes with
  | (cs, true) => ofCsv cs
  | (cs, false) => .error (faultOfBrokenCsv cs)

/-- The table that the bytes of the file at a path hold. -/
def ofBytes (path : Path) (bytes : ByteArray) : Except TableFault UniqueTable :=
  if path.hasExtension "json".toList then ofJsonBytes bytes else ofCsvBytes bytes

/-- The table from a path: it knows where it comes from, and it names a project. -/
def ofRead (path : Path) (read : Except TableFault UniqueTable) : Except Fault UniqueTable :=
  match read with
  | .error reason => .error (.tableUnusable path reason)
  | .ok t =>
    if t.projects.isEmpty then .error (.tableEmpty path.text) else .ok { t with origin := some path }

/-- A table that was read names a project and knows its path. -/
theorem ofRead_eq_ok {path : Path} {read : Except TableFault UniqueTable} {t : UniqueTable}
    (h : ofRead path read = .ok t) : t.projects.isEmpty = false ∧ t.origin = some path := by
  unfold ofRead at h
  split at h
  · simp at h
  · split at h
    · simp at h
    · rename_i he
      simp only [Except.ok.injEq] at h
      subst h
      simpa using he

variable {m : Type → Type} [Monad m] [Disk m]

/-- Reads the table at a path. -/
def load (path : Path) : Access m UniqueTable := do
  if (← Access.kindOf path) != .file then throw (.tableUnusable path .absent)
  match ← (Disk.readFile path : m _) with
  | .error detail => throw (.tableUnusable path (.unreadable detail))
  | .ok bytes => Access.ofExcept (ofRead path (ofBytes path bytes))

/-! ## Writing -/

/-- Writes a table as comma-separated text. -/
def saveCsv (path : Path) (t : UniqueTable) : Access m PUnit :=
  Csv.writeRecords path t.records

/-- Writes a table as JSON text. -/
def saveJson (path : Path) (t : UniqueTable) : Access m PUnit :=
  Access.writeText (.io path) path t.renderJson

end UniqueTable

/-! ## Feature stores -/

namespace FeatureStore

variable {m : Type → Type} [Monad m] [Disk m]

/-- Writes a store. -/
def save (path : Path) (s : FeatureStore) : Access m PUnit :=
  Access.writeText (.io path) path s.render

/-- Reads the store at a path. -/
def load (path : Path) : Access m FeatureStore := do
  let text ← Access.readText path
  Access.decoded .json (ofText text)

end FeatureStore

end FirmwareMatch
