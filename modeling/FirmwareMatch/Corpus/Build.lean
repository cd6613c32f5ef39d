import FirmwareMatch.Corpus.Unique
import FirmwareMatch.Fingerprint
import FirmwareMatch.Store.Basic
import FirmwareMatch.Text.Columns

/-
  Building a corpus: every source is fingerprinted and added to its project; at the end the unique
  features of each project are computed.

  Main statement: the sources are taken one after another, and the first one that cannot be had
  ends the build.
-/

namespace FirmwareMatch

/-- A listing of a known version of a project. -/
structure Source where
  project : String
  version : String
  /-- The path below the directory of the project. -/
  path : String
  contents : String
deriving Repr

/-- What was found for one project. -/
structure ProjectSummary where
  name : String
  versions : Nat
  files : Nat
  rawFeatures : Nat
  uniqueFeatures : Nat
deriving DecidableEq, Repr

/-- What was found in a corpus. -/
structure CorpusSummary where
  files : Nat
  instructions : Nat
  skippedLines : Nat
  projects : List ProjectSummary
deriving DecidableEq, Repr

/-- The unique features of all projects. -/
def CorpusSummary.totalUnique (s : CorpusSummary) : Nat :=
  total ProjectSummary.uniqueFeatures s.projects

/-- What a build gives. -/
structure CorpusBuild where
  store : FeatureStore
  unique : UniqueTable
  summary : CorpusSummary

/-- What has been built from the sources so far. -/
structure BuildState where
  corpus : Corpus
  store : FeatureStore
  files : Nat
  instructions : Nat
  skippedLines : Nat

namespace BuildState

/-- Before the first source. -/
def start (generatedAt : String) : BuildState :=
  ⟨∅, .empty generatedAt, 0, 0, 0⟩

/-- The record of the listing that a source holds. -/
def fileRecord (s : Source) (l : Listing) : FileRecord :=
  ⟨s.path, Sha256.hexDigest s.contents.toUTF8, l.instructionCount, l.skippedCount⟩

/-- Records a listing and the digests of its mnemonics in its version. -/
def recordIn (file : FileRecord) (features : List DigestedFeature) (v : VersionRecord) :
    VersionRecord :=
  features.foldl (fun v d => v.addFeature d.feature.mnemonic d.digest) (v.addFile file)

/-- Adds a source. -/
def add (c : Config) (b : BuildState) (s : Source) : BuildState :=
  let f := Fingerprint.ofText c s.contents
  { corpus := b.corpus.add s.project f.features
    store := b.store.changeVersion s.project s.version
      (recordIn (fileRecord s f.listing) f.features)
    files := b.files + 1
    instructions := b.instructions + f.listing.instructionCount
    skippedLines := b.skippedLines + f.listing.skippedCount }

/-- What was found for the project `name` with the digests `digests`. -/
def projectSummary (store : FeatureStore) (unique : UniqueTable) (name : String)
    (digests : DigestMap) : ProjectSummary :=
  let versions := ((store.find? name).map ProjectRecord.versions).getD []
  { name
    versions := versions.length
    files := total (fun v => v.files.length) versions
    rawFeatures := digests.size
    uniqueFeatures := (unique.setOf name).features.size }

/-- Closes the build. -/
def finish (b : BuildState) : CorpusBuild :=
  let unique := b.corpus.unique
  let projects := b.corpus.toList.map fun (name, digests) =>
    projectSummary b.store unique name digests
  ⟨b.store, unique, ⟨b.files, b.instructions, b.skippedLines, projects⟩⟩

end BuildState

/-- Builds a corpus from sources, some of which may be faults. -/
def buildCorpus (c : Config) (generatedAt : String) (sources : List (Except Fault Source)) :
    Except Fault CorpusBuild := do
  let b ← sources.foldlM (fun b s => s.map fun s => b.add c s) (BuildState.start generatedAt)
  return b.finish

/-- Without faults among the sources the build adds them one after another. -/
theorem buildCorpus_ok (c : Config) (generatedAt : String) (sources : List Source) :
    buildCorpus c generatedAt (sources.map .ok) =
      .ok (sources.foldl (BuildState.add c) (BuildState.start generatedAt)).finish := by
  have h : ∀ b : BuildState,
      (sources.map (Except.ok (ε := Fault))).foldlM
        (fun b s => s.map fun s => BuildState.add c b s) b =
      .ok (sources.foldl (BuildState.add c) b) := by
    induction sources with
    | nil => intro b; rfl
    | cons s ss ih => intro b; exact ih (b.add c s)
  unfold buildCorpus
  rw [h]
  rfl

/-! ## Text -/

/-- The line of a project. -/
def ProjectSummary.line (p : ProjectSummary) : String :=
  "    - " ++ p.name ++ ": " ++ toString p.uniqueFeatures ++ " unique of " ++
    toString p.rawFeatures ++ " features (versions: " ++ toString p.versions ++ ", files: " ++
    toString p.files ++ ")"

/-- The text of a summary. -/
def CorpusSummary.render (s : CorpusSummary) : String :=
  Text.joinLines <|
    ["Feature extraction completed:",
     "  Files: " ++ toString s.files,
     "  Instructions: " ++ toString s.instructions ++ " (skipped lines: " ++
       toString s.skippedLines ++ ")",
     "  Projects (" ++ toString s.projects.length ++ "):"] ++
    s.projects.map ProjectSummary.line ++
    ["  Total unique features: " ++ toString s.totalUnique]

end FirmwareMatch
