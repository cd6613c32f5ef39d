import FirmwareMatch.Disk.Basic
import FirmwareMatch.Fault
import FirmwareMatch.Text.Utf8

/-
  Reading and writing with the faults of this program.

  A file may be written in portions. A portion that cannot be written ends this; before it does, the
  same portion is tried once more, whatever comes of it.
-/

namespace FirmwareMatch

variable {m : Type → Type} [Monad m]

/-- A computation on a file system that may end in a fault. -/
abbrev Access (m : Type → Type) := ExceptT Fault m

/-- What goes to the disk at once. -/
structure Portion where
  bytes : ByteArray
  /-- What it is called if the bytes cannot be written. -/
  fault : String → Fault

/-- Bytes with those of portions behind them. -/
def Portion.joined (before : ByteArray) (xs : List Portion) : ByteArray :=
  xs.foldl (fun bytes x => bytes ++ x.bytes) before

namespace Access

/-- A pure result. -/
def ofExcept {α : Type} (r : Except Fault α) : Access m α :=
  ExceptT.mk (pure r)

/-- An operation of the file system whose reason for failing becomes a fault. -/
def attempt {α : Type} (fault : String → Fault) (op : m (Except String α)) : Access m α :=
  ExceptT.mk do return (← op).mapError fault

/-- A result whose reason for failing becomes a fault. -/
def decoded {α : Type} (fault : String → Fault) (r : Except String α) : Access m α :=
  ofExcept (r.mapError fault)

variable [Disk m]

/-- What lies at a path. -/
def kindOf (p : Path) : Access m EntryKind :=
  ExceptT.lift (Disk.kindOf p)

/-- The bytes of a file. -/
def readBytes (p : Path) : Access m ByteArray :=
  attempt (.io p) (Disk.readFile p)

/-- The text of a file, which must be UTF-8. -/
def readText (p : Path) : Access m String := do
  match Text.decodeUtf8? (← readBytes p) with
  | some s => return s
  | none => throw (.io p "not UTF-8")

/-- Makes a file hold a portion and nothing else. -/
def writePortion (p : Path) (x : Portion) : Access m PUnit :=
  attempt x.fault (Disk.writeFile p x.bytes)

/-- Makes a file hold a text. -/
def writeText (fault : String → Fault) (p : Path) (text : String) : Access m PUnit :=
  writePortion p ⟨text.toUTF8, fault⟩

/-- Writes a portion behind what a file holds. If that fails, it is tried once more, whatever comes
of it. -/
def appendPortion (p : Path) (x : Portion) : Access m PUnit := do
  match ← (Disk.appendFile p x.bytes : m _) with
  | .ok _ => pure ⟨⟩
  | .error reason =>
    let _ ← (Disk.appendFile p x.bytes : m _)
    throw (x.fault reason)

/-- Writes portions behind what a file holds. -/
def appendPortions (p : Path) : List Portion → Access m PUnit
  | [] => pure ⟨⟩
  | x :: xs => do
    appendPortion p x
    appendPortions p xs

/-- The text of a listing; what is not UTF-8 in it is replaced. -/
def readListing (p : Path) : Access m String := do
  if (← kindOf p) != .file then throw (.inputNotFound p .noListing)
  return Text.decodeUtf8Lossy (← readBytes p)

end Access

end FirmwareMatch
