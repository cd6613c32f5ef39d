import FirmwareMatch.Disk.Tree
import FirmwareMatch.Path

/-
  What the program asks of a file system: what lies at a path, the bytes of a file, the tree below
  a directory, and to write files, at once or bit by bit, and make directories.
-/

namespace FirmwareMatch

/-- What lies at a path. -/
inductive EntryKind
  | nothing
  | file
  | directory
deriving DecidableEq, Repr

/-- A computation with access to a file system. Every operation that can fail gives the reason. -/
class Disk (m : Type → Type) where
  /-- What lies at a path. -/
  kindOf : Path → m EntryKind
  /-- The bytes of a file. -/
  readFile : Path → m (Except String ByteArray)
  /-- Makes the file at a path hold the given bytes. -/
  writeFile : Path → ByteArray → m (Except String PUnit)
  /-- Writes the given bytes behind those that the file at a path holds. -/
  appendFile : Path → ByteArray → m (Except String PUnit)
  /-- Makes a directory and those above it, as far as they are not there. -/
  makeDirectories : Path → m (Except String PUnit)
  /-- The tree below a directory, with the path of every file. -/
  survey : Path → m (Except String (FileTree Path))
  /-- The directory from which relative paths start. -/
  workingDirectory : m Path
  /-- The absolute path, without detours, of what lies at a path. -/
  resolve? : Path → m (Option Path)

end FirmwareMatch
