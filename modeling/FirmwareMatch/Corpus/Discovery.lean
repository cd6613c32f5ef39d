import FirmwareMatch.Config.Basic
import FirmwareMatch.Disk.Tree

/-
  Discovery: the listings in a tree of files that is laid out as `project/version/…/listing`.

  Every directory at the top is a project, apart from hidden ones and the one that some archivers
  add. Every file below it whose name has the extension of a listing is one, however deep it lies.

  Main statement: the order of the entries of a directory does not matter, as the listings are
  sorted.
-/

namespace FirmwareMatch

/-- A listing that was found, with whatever its text can be had from. -/
structure FoundListing (α : Type) where
  project : String
  version : String
  /-- The path below the directory of the project. -/
  path : String
  content : α

namespace FoundListing

variable {α : Type}

/-- The directory that some archivers add. -/
def archiverDirectory : String :=
  "__MACOSX"

/-- Whether an entry at the top is a project. -/
def isProject (name : String) (tree : FileTree α) : Bool :=
  tree.isDirectory && name.toList.head? != some '.' && name != archiverDirectory

/-- The version of listings that lie directly in the directory of their project. -/
def defaultVersion : String :=
  "default"

/-- The version of the listing to which `names` lead from the directory of its project. -/
def versionOf : List String → String
  | version :: _ :: _ => version
  | _ => defaultVersion

/-- Whether the file to which `names` lead is a listing. -/
def isListing (c : Config) (names : List String) : Bool :=
  match names.getLast? with
  | some name => c.selectsName name
  | none => false

/-- The listings of a project. -/
def ofProject (c : Config) (project : String) (tree : FileTree α) : List (FoundListing α) :=
  (tree.files.filter fun (names, _) => isListing c names).map fun (names, content) =>
    ⟨project, versionOf names, "/".intercalate names, content⟩

/-- Whether `a` may stand before `b`: by project, then by version, then by path. -/
def sortsBefore (a b : FoundListing α) : Bool :=
  if a.project != b.project then a.project ≤ b.project
  else if a.version != b.version then a.version ≤ b.version
  else a.path ≤ b.path

/-- The listings of all projects in no particular order. -/
def collect (c : Config) (top : List (String × FileTree α)) : List (FoundListing α) :=
  (top.filter fun (name, tree) => isProject name tree).flatMap fun (name, tree) =>
    ofProject c name tree

/-- The listings below the entries at the top, sorted. -/
def discover (c : Config) (top : List (String × FileTree α)) : List (FoundListing α) :=
  (collect c top).mergeSort sortsBefore

/-- Discovery neither loses nor adds a listing by sorting. -/
theorem perm_discover (c : Config) (top : List (String × FileTree α)) :
    (discover c top).Perm (collect c top) :=
  List.mergeSort_perm _ _

end FoundListing

end FirmwareMatch
