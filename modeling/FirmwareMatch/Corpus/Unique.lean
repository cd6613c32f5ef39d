import FirmwareMatch.Feature.Basic
import FirmwareMatch.Path
import FirmwareMatch.Total
import Std.Data.ExtTreeMap

/-
  A corpus as the digests of its projects, and the digests that only one project has.

  A digest is unique if one project of the corpus holds it. The table of unique features keeps
  every project, also one that is left with nothing.

  Main statement: the table has exactly the projects of the corpus.
-/

namespace FirmwareMatch

/-- Digests, each with the mnemonic it was computed from. -/
abbrev DigestMap := Std.ExtTreeMap Digest String

/-- The digests of each project. -/
abbrev Corpus := Std.ExtTreeMap String DigestMap

/-- The digests that a project shares with no other one. -/
structure UniqueSet where
  project : String
  /-- How many digests the project has in all, when known. -/
  rawCount : Nat
  features : DigestMap

/-- The unique digests of each project. -/
structure UniqueTable where
  /-- Where the table was read from; nothing if it was computed. -/
  origin : Option Path
  projects : Std.ExtTreeMap String UniqueSet

/-! ## Building a corpus -/

namespace Corpus

/-- The digests of a project; none if the corpus does not know it. -/
def digestsOf (c : Corpus) (project : String) : DigestMap :=
  c.getD project ∅

/-- Makes a project known. -/
def ensure (c : Corpus) (project : String) : Corpus :=
  c.insertIfNew project ∅

/-- Notes the digest of a feature; the latest mnemonic of a digest counts. -/
def note (m : DigestMap) (d : DigestedFeature) : DigestMap :=
  m.insert d.digest d.feature.mnemonic

/-- Adds features to a project, which becomes known even if there are none. -/
def add (c : Corpus) (project : String) (features : List DigestedFeature) : Corpus :=
  c.insert project (features.foldl note (c.digestsOf project))

/-! ## Unique digests -/

/-- Counts a project for each of its digests. -/
def countHolder (counts : Std.ExtTreeMap Digest Nat) (digests : DigestMap) :
    Std.ExtTreeMap Digest Nat :=
  digests.keys.foldl (fun counts d => counts.insert d (counts.getD d 0 + 1)) counts

/-- How many projects hold each digest. -/
def holders (c : Corpus) : Std.ExtTreeMap Digest Nat :=
  c.values.foldl countHolder ∅

/-- What one project holds alone, given how many projects hold each digest. -/
def aloneIn (counts : Std.ExtTreeMap Digest Nat) (digests : DigestMap) : DigestMap :=
  digests.filter fun d _ => counts[d]? == some 1

/-- The table of unique features of a corpus. -/
def unique (c : Corpus) : UniqueTable :=
  let counts := c.holders
  ⟨none, c.map fun name digests => ⟨name, digests.size, aloneIn counts digests⟩⟩

/-- The table names a project exactly if the corpus does. -/
theorem mem_projects_unique {c : Corpus} {name : String} :
    name ∈ c.unique.projects ↔ name ∈ c := by
  simp [unique]

end Corpus

/-! ## Tables -/

namespace UniqueTable

/-- The number of unique digests of all projects. -/
def featureCount (t : UniqueTable) : Nat :=
  total (fun s => s.features.size) t.projects.values

/-- Where a table comes from, in words. -/
def originText (t : UniqueTable) : String :=
  match t.origin with
  | some path => path.text
  | none => "in-memory table"

/-- The set of a project, empty if the table does not know it. -/
def setOf (t : UniqueTable) (project : String) : UniqueSet :=
  t.projects.getD project ⟨project, 0, ∅⟩

end UniqueTable

end FirmwareMatch
