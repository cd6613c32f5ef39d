import FirmwareMatch.Archive.Zip
import FirmwareMatch.Corpus.Build
import FirmwareMatch.Corpus.Discovery
import FirmwareMatch.Disk.Access

/-
  Where a corpus lies: in a directory, or in a zip archive of one.

  Main statement: the listings of an archive are found by the same rule as those of a directory.
-/

namespace FirmwareMatch

/-- Where the text of a listing can be had from. -/
inductive ListingText
  /-- The file at a path. -/
  | onDisk (path : Path)
  /-- Bytes that came out of an archive. -/
  | unpacked (bytes : ByteArray)

/-- A corpus that was opened. -/
structure OpenedCorpus where
  /-- The path that was asked for. -/
  origin : Path
  /-- The entries of its top directory. -/
  top : List (String × FileTree ListingText)

/-- What the bytes of an archive hold, if they can be read. -/
abbrev Unpacker := ByteArray → Option (FileTree ByteArray)

namespace OpenedCorpus

/-- The extension of an archive. -/
def archiveExtension : List Char :=
  "zip".toList

/-- The top of an unpacked archive: the entries of the one directory that it holds, if it holds
nothing else that counts, and otherwise all entries. -/
def topOfArchive (tree : FileTree ByteArray) : List (String × FileTree ByteArray) :=
  match tree.entries.filter fun (name, _) => name != FoundListing.archiverDirectory with
  | [(_, .directory es)] => es
  | _ => tree.entries

/-- The corpus in an unpacked archive. -/
def ofArchive (origin : Path) (tree : FileTree ByteArray) : OpenedCorpus :=
  ⟨origin, FileTree.mapEntries (fun _ bytes => .unpacked bytes) [] (topOfArchive tree)⟩

/-- The corpus in a directory. -/
def ofDirectory (origin : Path) (tree : FileTree Path) : OpenedCorpus :=
  ⟨origin, FileTree.mapEntries (fun _ path => .onDisk path) [] tree.entries⟩

/-- The listings of a corpus. -/
def listings (o : OpenedCorpus) (c : Config) : List (FoundListing ListingText) :=
  FoundListing.discover c o.top

variable {m : Type → Type} [Monad m] [Disk m]

/-- Whether a path is that of an archive. -/
def isArchive (p : Path) : m Bool := do
  return (← Disk.kindOf p) == .file && p.hasExtension archiveExtension

/-- Opens the corpus at a path; an archive is unpacked by `unpack?`. -/
def openWith (unpack? : Unpacker) (p : Path) : Access m OpenedCorpus := do
  match ← Access.kindOf p with
  | .directory => return ofDirectory p (← Access.attempt (.io p) (Disk.survey p))
  | .nothing => throw (.inputNotFound p .noRoot)
  | .file =>
    if p.hasExtension archiveExtension then
      match unpack? (← Access.readBytes p) with
      | some tree => return ofArchive p tree
      | none => throw (.archive p "not a readable archive")
    else throw (.inputNotFound p .noCorpus)

/-- Opens the corpus at a path; archives are zip files. -/
def openAt (p : Path) : Access m OpenedCorpus :=
  openWith Zip.unpack? p

/-- The text of a listing. -/
def readText : ListingText → Access m String
  | .onDisk path => Access.readListing path
  | .unpacked bytes => return Text.decodeUtf8Lossy bytes

/-- A listing as a source of a build. -/
def source (l : FoundListing ListingText) : Access m Source := do
  return ⟨l.project, l.version, l.path, ← readText l.content⟩

end OpenedCorpus

end FirmwareMatch
