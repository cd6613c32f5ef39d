import FirmwareMatch.Classification.Report
import FirmwareMatch.Disk.Access

/-
  Classifying the listing at a path.
-/

namespace FirmwareMatch.Report

variable {m : Type → Type} [Monad m] [Disk m]

/-- The report on the listing at a path, under the name of the file. -/
def ofFile (c : Config) (t : UniqueTable) (path : Path) : Access m Report := do
  let text ← Access.readListing path
  Access.ofExcept (ofText c t (path.fileName?.getD path.text) text)

end FirmwareMatch.Report
