import FirmwareMatch.Decimal.Layout
import FirmwareMatch.Path
import FirmwareMatch.Text.Quoted

/-
  What can go wrong, by cause, and how each cause is told.

  A line of a listing that is not understood is no fault; it is counted and passed over.
-/

namespace FirmwareMatch

open Decimal

/-- Why there is no input. -/
inductive MissingInput
  | noListing
  | noRoot
  | noCorpus
  /-- A corpus without a listing that has one of the extensions. -/
  | noListings (extensions : List String)
  /-- Whoever supplies the sources has a reason of its own. -/
  | unavailable (reason : String)
deriving Repr

/-- Why a table of unique features cannot be used. -/
inductive TableFault
  | absent
  | missingColumn (name : String)
  | unreadable (detail : String)
deriving Repr

/-- What is wrong with a configuration. -/
inductive ConfigFault
  | noCodeSection
  | emptyExtension
  | thresholdRange (high medium : Float)
  | thresholdOrder (medium high : Float)
  | unknownFormat (extension : String) (path : Path)
deriving Repr

/-- A fault, with the text of whatever reported it where that is not this program. -/
inductive Fault
  | inputNotFound (path : Path) (reason : MissingInput)
  | tableUnusable (path : Path) (reason : TableFault)
  /-- The table names no project. -/
  | tableEmpty (origin : String)
  | invalidConfig (reason : ConfigFault)
  | io (path : Path) (detail : String)
  | json (detail : String)
  | yaml (detail : String)
  | csv (detail : String)
  | archive (path : Path) (detail : String)
deriving Repr

/-! ## Messages -/

/-- Why there is no input, in words. -/
def MissingInput.message : MissingInput → String
  | .noListing => "firmware listing does not exist"
  | .noRoot => "corpus root does not exist"
  | .noCorpus => "expected a directory or a .zip archive"
  | .noListings extensions =>
    "no firmware listings with extensions " ++ Text.quotedList extensions
  | .unavailable reason => reason

/-- Why a table cannot be used, in words. -/
def TableFault.message : TableFault → String
  | .absent => "file does not exist"
  | .missingColumn name => "missing '" ++ name ++ "' column"
  | .unreadable detail => detail

/-- What is wrong with a configuration, in words. -/
def ConfigFault.message : ConfigFault → String
  | .noCodeSection => "at least one code section is required"
  | .emptyExtension => "file extensions must not be empty"
  | .thresholdRange high medium =>
    "confidence thresholds must lie in [0, 1] (high=" ++ plainText high ++ ", medium=" ++
      plainText medium ++ ")"
  | .thresholdOrder medium high =>
    "medium threshold " ++ plainText medium ++ " exceeds high threshold " ++ plainText high
  | .unknownFormat extension path =>
    "unsupported config format '" ++ extension ++ "' for " ++ path.text ++
      " (expected yaml, yml, or json)"

/-- A fault in words, without the text of whatever reported it. -/
def Fault.headline : Fault → String
  | .inputNotFound path reason =>
    "Input not found: " ++ path.text ++ " (" ++ reason.message ++ ")"
  | .tableUnusable path reason =>
    "Unique-feature table missing or unreadable at " ++ path.text ++ ": " ++ reason.message
  | .tableEmpty origin =>
    "Unique-feature table at " ++ origin ++ " contains no projects to compare against"
  | .invalidConfig reason => "Invalid configuration: " ++ reason.message
  | .io path _ => "I/O error at " ++ path.text
  | .json _ => "JSON error"
  | .yaml _ => "YAML error"
  | .csv _ => "CSV error"
  | .archive path _ => "Archive error in " ++ path.text

/-- The text of whatever reported a fault, where that is not this program. -/
def Fault.detail? : Fault → Option String
  | .io _ detail | .json detail | .yaml detail | .csv detail | .archive _ detail => some detail
  | _ => none

/-- A fault in words. -/
def Fault.message (f : Fault) : String :=
  match f.detail? with
  | some detail => f.headline ++ ": " ++ detail
  | none => f.headline

end FirmwareMatch
