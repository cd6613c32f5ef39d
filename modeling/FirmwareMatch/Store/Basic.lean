import FirmwareMatch.Feature.Basic
import Std.Data.ExtTreeMap

/-
  The feature store: for inspection, which versions of which projects were read, from which files,
  and one digest per mnemonic.

  Projects and versions stand in the order in which they were first named, each once.

  Main statements: naming a project or version that is there changes nothing but what is done to
  it, and a new one is appended.
-/

namespace FirmwareMatch

/-- One listing that contributed to a version. -/
structure FileRecord where
  /-- The path below the directory of the project. -/
  path : String
  /-- The digest of the text. -/
  sha256 : String
  instructionCount : Nat
  skippedLines : Nat
deriving BEq, Repr

/-- What is recorded of one version of a project. -/
structure VersionRecord where
  name : String
  files : List FileRecord
  /-- The latest digest of each mnemonic. -/
  features : Std.ExtTreeMap String Digest
deriving BEq

/-- What is recorded of a project. -/
structure ProjectRecord where
  name : String
  versions : List VersionRecord
deriving BEq

/-- The feature store. -/
structure FeatureStore where
  /-- When the store was made, in RFC 3339 form. -/
  generatedAt : String
  toolVersion : String
  projects : List ProjectRecord
deriving BEq

/-- The version of this program. -/
def toolVersion : String :=
  "0.1.0"

/-! ## Named records -/

/-- Applies `f` to the first record called `name`, or appends what `f` makes of the fresh record if
there is none. -/
def changeNamed {α : Type} (nameOf : α → String) (name : String) (fresh : α) (f : α → α) :
    List α → List α
  | [] => [f fresh]
  | x :: xs =>
    if nameOf x = name then f x :: xs else x :: changeNamed nameOf name fresh f xs

/-- The first record called `name`. -/
def findNamed? {α : Type} (nameOf : α → String) (name : String) (xs : List α) : Option α :=
  xs.find? fun x => nameOf x == name

section Named

variable {α : Type} {nameOf : α → String} {name : String} {fresh : α} {f : α → α}

/-- A new record is appended. -/
theorem changeNamed_of_absent {xs : List α} (h : ∀ x ∈ xs, nameOf x ≠ name) :
    changeNamed nameOf name fresh f xs = xs ++ [f fresh] := by
  induction xs with
  | nil => rfl
  | cons x xs ih =>
    simp [changeNamed, h x List.mem_cons_self, ih fun y hy => h y (List.mem_cons_of_mem _ hy)]

/-- A record that is there is changed where it stands. -/
theorem changeNamed_append {xs ys : List α} {x : α} (h : ∀ y ∈ xs, nameOf y ≠ name)
    (hx : nameOf x = name) :
    changeNamed nameOf name fresh f (xs ++ x :: ys) = xs ++ f x :: ys := by
  induction xs with
  | nil => simp [changeNamed, hx]
  | cons y xs ih =>
    simp [changeNamed, h y List.mem_cons_self, ih fun z hz => h z (List.mem_cons_of_mem _ hz)]

/-- After a change that keeps the name, the record is found as it was changed. -/
theorem findNamed?_changeNamed {xs : List α} (hf : ∀ x, nameOf (f x) = nameOf x)
    (hfresh : nameOf fresh = name) :
    findNamed? nameOf name (changeNamed nameOf name fresh f xs) =
      some (f ((findNamed? nameOf name xs).getD fresh)) := by
  induction xs with
  | nil => simp [changeNamed, findNamed?, hf, hfresh]
  | cons x xs ih =>
    unfold findNamed? at ih
    by_cases hx : nameOf x = name
    · simp [changeNamed, findNamed?, hx, hf]
    · have hb : (nameOf x == name) = false := by simpa using hx
      simp [changeNamed, findNamed?, hx, hb, ih]

end Named

/-! ## Access -/

/-- A version of which nothing is known. -/
def VersionRecord.fresh (name : String) : VersionRecord :=
  ⟨name, [], ∅⟩

/-- A project of which nothing is known. -/
def ProjectRecord.fresh (name : String) : ProjectRecord :=
  ⟨name, []⟩

/-- Records a listing. -/
def VersionRecord.addFile (v : VersionRecord) (file : FileRecord) : VersionRecord :=
  { v with files := v.files ++ [file] }

/-- Records the digest of a mnemonic; it takes the place of an earlier one. -/
def VersionRecord.addFeature (v : VersionRecord) (mnemonic : String) (digest : Digest) :
    VersionRecord :=
  { v with features := v.features.insert mnemonic digest }

/-- Changes a version of a project, which is added if it is not there. -/
def ProjectRecord.change (p : ProjectRecord) (version : String)
    (f : VersionRecord → VersionRecord) : ProjectRecord :=
  { p with versions := changeNamed VersionRecord.name version (.fresh version) f p.versions }

/-- The version of that name. -/
def ProjectRecord.find? (p : ProjectRecord) (version : String) : Option VersionRecord :=
  findNamed? VersionRecord.name version p.versions

namespace FeatureStore

/-- A store of no projects. -/
def empty (generatedAt : String) : FeatureStore :=
  ⟨generatedAt, FirmwareMatch.toolVersion, []⟩

/-- Changes a project, which is added if it is not there. -/
def change (s : FeatureStore) (project : String) (f : ProjectRecord → ProjectRecord) :
    FeatureStore :=
  { s with projects := changeNamed ProjectRecord.name project (.fresh project) f s.projects }

/-- Changes a version of a project; both are added if they are not there. -/
def changeVersion (s : FeatureStore) (project version : String)
    (f : VersionRecord → VersionRecord) : FeatureStore :=
  s.change project fun p => p.change version f

/-- The project of that name. -/
def find? (s : FeatureStore) (project : String) : Option ProjectRecord :=
  findNamed? ProjectRecord.name project s.projects

/-- The version of that name of the project of that name. -/
def findVersion? (s : FeatureStore) (project version : String) : Option VersionRecord :=
  (s.find? project).bind fun p => p.find? version

end FeatureStore

end FirmwareMatch
