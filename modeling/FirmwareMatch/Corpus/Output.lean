import FirmwareMatch.Corpus.Access
import FirmwareMatch.Table.Access

/-
  Extraction: building the corpus at a path and writing what was found into a directory.
-/

namespace FirmwareMatch

/-- The files in the directory of an extraction. -/
structure OutputLayout where
  root : Path
  /-- Projects, versions, mnemonics and digests, for inspection. -/
  store : Path
  /-- The table of unique features as comma-separated text. -/
  tableCsv : Path
  /-- The same table as JSON, with the projects that have none. -/
  tableJson : Path
deriving DecidableEq, Repr

/-- The files in a directory. -/
def OutputLayout.of (root : Path) : OutputLayout :=
  ⟨root, root.entry "firmware_database.json", root.entry "unique_features.csv",
    root.entry "unique_features.json"⟩

variable {m : Type → Type} [Monad m] [Disk m]

/-- Writes what a build gave. -/
def OutputLayout.write (l : OutputLayout) (b : CorpusBuild) : Access m PUnit := do
  Access.attempt (.io l.root) (Disk.makeDirectories l.root)
  b.store.save l.store
  b.unique.saveCsv l.tableCsv
  b.unique.saveJson l.tableJson

/-- Reads and adds the listings of a corpus one after another. -/
def buildFrom (c : Config) (generatedAt : String) (ls : List (FoundListing ListingText)) :
    Access m CorpusBuild := do
  let b ← ls.foldlM (fun (b : BuildState) l => return b.add c (← OpenedCorpus.source l))
    (BuildState.start generatedAt)
  return b.finish

/-- Builds the corpus at a path and writes the result into a directory. -/
def extractCorpus (c : Config) (generatedAt : String) (corpus output : Path) :
    Access m CorpusSummary := do
  let opened ← OpenedCorpus.openAt corpus
  let ls := opened.listings c
  if ls.isEmpty then throw (.inputNotFound corpus (.noListings c.extensions))
  let b ← buildFrom c generatedAt ls
  (OutputLayout.of output).write b
  return b.summary

end FirmwareMatch
