import FirmwareMatch.Classification.Tier
import FirmwareMatch.Feature.Extraction
import FirmwareMatch.Text.Case

/-
  Configuration: which sections hold code, which files are listings, how branches are counted, and
  how similarities are judged and shown.

  Main statement: a configuration without a fault has a code section, no blank extension and valid
  thresholds.
-/

namespace FirmwareMatch

open Text

/-- What a run can be tuned with. -/
structure Config where
  /-- The sections whose contents are code. -/
  codeSections : List String
  /-- The extensions of listings. -/
  extensions : List String
  branchPolicy : BranchPolicy
  thresholds : Thresholds
  /-- How many records a report shows. -/
  reportLimit : Nat
deriving Repr

namespace Config

/-- The configuration of a run that is given none. -/
def standard : Config :=
  ⟨[".text"], ["asm"], .sectionLinear, .standard, 10⟩

/-- What is wrong with a configuration, if anything. -/
def fault? (c : Config) : Option ConfigFault :=
  if c.codeSections.isEmpty then some .noCodeSection
  else if c.extensions.any fun ext => (trim ext.toList).isEmpty then some .emptyExtension
  else c.thresholds.fault?

theorem fault?_eq_none_iff (c : Config) :
    c.fault? = none ↔
      c.codeSections ≠ [] ∧ (∀ ext ∈ c.extensions, trim ext.toList ≠ []) ∧
        c.thresholds.fault? = none := by
  unfold fault?
  split
  · simp_all
  · split
    · rename_i h
      simp only [List.any_eq_true, List.isEmpty_iff] at h
      obtain ⟨ext, hm, he⟩ := h
      simp only [reduceCtorEq, false_iff, not_and]
      intro _ hall
      exact absurd he (hall ext hm)
    · simp_all

/-- The end of the names that an extension selects, in lower case: a point and the extension
without the points at its start. -/
def suffixOf (ext : String) : List Char :=
  '.' :: lower (ext.toList.dropWhile (· == '.'))

/-- Whether a name in lower case ends in the suffix of an extension with something before it. -/
def nameHasExtension (name : List Char) (ext : String) : Bool :=
  let suffix := suffixOf ext
  suffix.length < name.length && suffix.isSuffixOf name

/-- Whether a name is that of a listing; case does not matter. -/
def selectsName (c : Config) (name : String) : Bool :=
  c.extensions.any (nameHasExtension (lower name.toList))

/-- Whether a path names a listing. -/
def selects (c : Config) (path : Path) : Bool :=
  path.fileName?.any c.selectsName

end Config

end FirmwareMatch
