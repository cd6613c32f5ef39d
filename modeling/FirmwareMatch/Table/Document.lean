import FirmwareMatch.Json.Decoder
import FirmwareMatch.Table.Rows

/-
  A table of unique features as a JSON document, which also keeps the projects without unique
  features and the number of all digests of each project.
-/

namespace FirmwareMatch

open Json

/-- What a document says of one project. -/
structure ProjectEntry where
  name : String
  rawFeatureCount : Nat
  features : List (String × Digest)
deriving DecidableEq, Repr

namespace ProjectEntry

/-- What a document says of a set. -/
def ofSet (s : UniqueSet) : ProjectEntry :=
  ⟨s.project, s.rawCount, s.features.toList.map fun (hash, opcode) => (opcode, hash)⟩

/-- The members of an entry. -/
def toJson (e : ProjectEntry) : Json :=
  .record
    [("name", .str e.name),
     ("raw_feature_count", .ofNat e.rawFeatureCount),
     ("features", .array <|
       e.features.map fun (opcode, hash) =>
         .record [("opcode", .str opcode), ("hash", .str hash)])]

/-- A mnemonic with its digest. -/
def featureOfJson (v : Json) : Decoded (String × Digest) := do
  let ms ← asRecord ["opcode", "hash"] v
  return (← ms.required "opcode" asString, ← ms.required "hash" asString)

/-- An entry; without a number of all digests that number is zero. -/
def ofJson (v : Json) : Decoded ProjectEntry := do
  let ms ← asRecord ["name", "raw_feature_count", "features"] v
  return ⟨← ms.required "name" asString, ← ms.optional "raw_feature_count" asCount 0,
    ← ms.required "features" (asList featureOfJson)⟩

end ProjectEntry

namespace UniqueTable

/-- A table as a JSON value. -/
def toJson (t : UniqueTable) : Json :=
  .record [("projects", .array (t.projects.values.map fun s => (ProjectEntry.ofSet s).toJson))]

/-- A table as JSON text. -/
def renderJson (t : UniqueTable) : String :=
  t.toJson.pretty

/-- Merges what an entry says into the set of its project: the larger number of all digests counts,
and of several mnemonics of one digest the last. -/
def mergeEntry (e : ProjectEntry) (s : UniqueSet) : UniqueSet :=
  { s with
    rawCount := max s.rawCount e.rawFeatureCount
    features := e.features.foldl (fun m (opcode, hash) => m.insert hash opcode) s.features }

/-- Adds an entry. -/
def addEntry (t : UniqueTable) (e : ProjectEntry) : UniqueTable :=
  t.changeSet e.name (mergeEntry e)

/-- The table of entries. -/
def ofEntries (es : List ProjectEntry) : UniqueTable :=
  es.foldl addEntry empty

/-- The table of a JSON value. -/
def ofJson (v : Json) : Decoded UniqueTable := do
  let ms ← asRecord ["projects"] v
  let es ← ms.required "projects" (asList ProjectEntry.ofJson)
  return ofEntries es

end UniqueTable

end FirmwareMatch
