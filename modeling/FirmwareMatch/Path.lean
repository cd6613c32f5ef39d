import FirmwareMatch.Text.Fields

/-
  Paths of files: steps set apart by `/`. A path keeps its spelling; empty steps and `.` do not
  matter for what it names.
-/

namespace FirmwareMatch

open Text

/-- A path as it was given. -/
structure Path where
  text : String
deriving DecidableEq, Repr

namespace Path

/-- Whether a path starts at the root of the file system. -/
def isAbsolute (p : Path) : Bool :=
  p.text.toList.head? == some '/'

/-- The steps of a path, without empty ones and `.`. -/
def steps (p : Path) : List String :=
  ((fields (· == '/') p.text.toList).filter fun s => !s.isEmpty && s != ['.']).map String.ofList

/-- The name of the file that a path names; there is none if it ends in `..` or has no steps. -/
def fileName? (p : Path) : Option String :=
  match p.steps.getLast? with
  | some name => if name == ".." then none else some name
  | none => none

/-- The extension of a name: what follows its last point, unless that point stands first. -/
def extensionOf? (name : List Char) : Option (List Char) :=
  let after := name.reverse.takeWhile (· != '.')
  if after.length + 1 < name.length then some after.reverse else none

/-- The extension of the file that a path names; empty if it has none. -/
def fileExtension (p : Path) : List Char :=
  ((p.fileName?.bind fun name => extensionOf? name.toList).getD [])

/-- Whether the extension is `ext`, in any ASCII case. -/
def hasExtension (p : Path) (ext : List Char) : Bool :=
  p.fileExtension.map Char.toLower == ext

/-- The path of `q` seen from `p`; `q` itself if it is absolute. -/
def join (p q : Path) : Path :=
  if q.isAbsolute then q
  else
    match p.text.toList.getLast? with
    | none => q
    | some '/' => ⟨p.text ++ q.text⟩
    | some _ => ⟨p.text ++ "/" ++ q.text⟩

/-- The path of an entry of the directory `p`. -/
def entry (p : Path) (name : String) : Path :=
  p.join ⟨name⟩

end Path

end FirmwareMatch
