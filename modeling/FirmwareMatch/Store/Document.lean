import FirmwareMatch.Json.Decoder
import FirmwareMatch.Store.Basic

/-
  The feature store as a JSON document.

  Every member of every record must be there when a store is read; unknown members are passed
  over, and of several entries for one mnemonic the last counts.
-/

namespace FirmwareMatch

open Json

/-! ## Writing -/

/-- The members of a file record. -/
def FileRecord.toJson (f : FileRecord) : Json :=
  .record
    [("path", .str f.path),
     ("sha256", .str f.sha256),
     ("instruction_count", .ofNat f.instructionCount),
     ("skipped_lines", .ofNat f.skippedLines)]

/-- The digests of the mnemonics, in ascending order of the mnemonics. -/
def featuresToJson (features : Std.ExtTreeMap String Digest) : Json :=
  .record (features.toList.map fun (mnemonic, digest) => (mnemonic, .str digest))

/-- The members of a version. -/
def VersionRecord.toJson (v : VersionRecord) : Json :=
  .record
    [("name", .str v.name),
     ("files", .array (v.files.map FileRecord.toJson)),
     ("features", featuresToJson v.features)]

/-- The members of a project. -/
def ProjectRecord.toJson (p : ProjectRecord) : Json :=
  .record
    [("name", .str p.name),
     ("versions", .array (p.versions.map VersionRecord.toJson))]

/-- The members of a store. -/
def FeatureStore.toJson (s : FeatureStore) : Json :=
  .record
    [("generated_at", .str s.generatedAt),
     ("tool_version", .str s.toolVersion),
     ("projects", .array (s.projects.map ProjectRecord.toJson))]

/-- The text of a store. -/
def FeatureStore.render (s : FeatureStore) : String :=
  s.toJson.pretty

/-! ## Reading -/

/-- A file record. -/
def FileRecord.ofJson (v : Json) : Decoded FileRecord := do
  let ms ← asRecord ["path", "sha256", "instruction_count", "skipped_lines"] v
  return ⟨← ms.required "path" asString, ← ms.required "sha256" asString,
    ← ms.required "instruction_count" asCount, ← ms.required "skipped_lines" asCount⟩

/-- A version. -/
def VersionRecord.ofJson (v : Json) : Decoded VersionRecord := do
  let ms ← asRecord ["name", "files", "features"] v
  return ⟨← ms.required "name" asString, ← ms.required "files" (asList FileRecord.ofJson),
    ← ms.required "features" (asMap asString)⟩

/-- A project. -/
def ProjectRecord.ofJson (v : Json) : Decoded ProjectRecord := do
  let ms ← asRecord ["name", "versions"] v
  return ⟨← ms.required "name" asString, ← ms.required "versions" (asList VersionRecord.ofJson)⟩

/-- A store. -/
def FeatureStore.ofJson (v : Json) : Decoded FeatureStore := do
  let ms ← asRecord ["generated_at", "tool_version", "projects"] v
  return ⟨← ms.required "generated_at" asString, ← ms.required "tool_version" asString,
    ← ms.required "projects" (asList ProjectRecord.ofJson)⟩

/-- The store that a text holds. -/
def FeatureStore.ofText (text : String) : Decoded FeatureStore :=
  Json.parse text >>= FeatureStore.ofJson

end FirmwareMatch
