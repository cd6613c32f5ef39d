import FirmwareMatch.Classification.Access
import FirmwareMatch.CommandLine.Command
import FirmwareMatch.Config.Document
import FirmwareMatch.Corpus.Output

/-
  Running commands: what each one does with the file system, and what it shows.

  A command shows something only if all of it succeeded; otherwise the fault is told together with
  what was being done.

  Main statement: a run ends with exit code 0 exactly if nothing failed and nothing was misused.
-/

namespace FirmwareMatch.CommandLine

/-! ## Failures -/

/-- A fault, and what was being done when it came up. -/
structure Failure where
  context : String
  fault : Fault
deriving Repr

namespace Failure

/-- The causes of a failure, the nearest one first. -/
def causes (f : Failure) : List String :=
  f.fault.message :: f.fault.detail?.toList

/-- A cause, indented; its further lines stand below the first one. -/
def causeText (number? : Option Nat) (cause : String) : String :=
  let (opening, continuation) :=
    match number? with
    | some n => (String.ofList (List.replicate (5 - (toString n).length) ' ') ++ toString n ++ ": ",
        "\n       ")
    | none => ("    ", "\n    ")
  opening ++ continuation.intercalate (cause.splitOn "\n")

/-- The text of a failure with the given causes, which are numbered if asked for. -/
def textWith (context : String) (numbered : Bool) (causes : List String) : String :=
  "Error: " ++ context ++ "\n\nCaused by:\n" ++
    "\n".intercalate
      (causes.zipIdx.map fun (cause, n) => causeText (if numbered then some n else none) cause)

/-- The text of a failure. Several causes are numbered. -/
def render (f : Failure) : String :=
  textWith f.context (1 < f.causes.length) f.causes

end Failure

/-! ## Commands -/

variable {m : Type → Type} [Monad m]

/-- A computation that may end in a failure. -/
abbrev Attempt (m : Type → Type) := ExceptT Failure m

/-- Puts what is being done beside a fault. -/
def during {α : Type} (context : String) (x : Access m α) : Attempt m α :=
  ExceptT.adapt (Failure.mk context) x

variable [Disk m]

/-- The configuration in the file of that name, if one was named. -/
def configuration : Option String → Attempt m Config
  | some name => during ("Failed to load config at " ++ name) (Config.load ⟨name⟩)
  | none => return .standard

/-- The absolute path of what has that name. What does not exist is looked for in the working
directory. -/
def absolute (name : String) : m Path := do
  match ← Disk.resolve? ⟨name⟩ with
  | some p => return p
  | none => return (← Disk.workingDirectory).join ⟨name⟩

/-- Builds a corpus and tells what was found and where it was written. -/
def extract (generatedAt corpus output : String) (config? : Option String) :
    Attempt m String := do
  let c ← configuration config?
  let source ← ExceptT.lift (absolute corpus)
  let target ← ExceptT.lift (absolute output)
  let summary ← during ("Failed to extract features from " ++ source.text)
    (extractCorpus c generatedAt source target)
  let layout := OutputLayout.of target
  return summary.render ++ Text.joinLines
    ["  Feature store: " ++ layout.store.text,
     "  Unique features (CSV): " ++ layout.tableCsv.text,
     "  Unique features (JSON): " ++ layout.tableJson.text]

/-- Ranks the projects of a table by what they share with a listing. -/
def classify (listing table : String) (config? : Option String) (limit? : Option Nat)
    (asJson : Bool) : Attempt m String := do
  let c ← configuration config?
  let t ← during ("Cannot classify without a unique-feature table (" ++ table ++ ")")
    (UniqueTable.load ⟨table⟩)
  let report ← during ("Failed to classify " ++ listing) (Report.ofFile c t ⟨listing⟩)
  return if asJson then report.toJson.pretty ++ "\n"
    else report.render (limit?.getD c.reportLimit)

/-- Shows the features of a listing. -/
def features (listing : String) (config? : Option String) (asJson : Bool) : Attempt m String := do
  let c ← configuration config?
  let text ← during ("Failed to read firmware listing " ++ listing) (Access.readListing ⟨listing⟩)
  let f := Fingerprint.ofText c text
  return if asJson then f.toJson.pretty ++ "\n" else f.render listing

/-- Runs a command. -/
def Command.run (generatedAt : String) : Command → Attempt m String
  | .extract corpus output config? => CommandLine.extract generatedAt corpus output config?
  | .classify listing table config? limit? asJson =>
    CommandLine.classify listing table config? limit? asJson
  | .features listing config? asJson => CommandLine.features listing config? asJson

/-! ## Outcomes -/

/-- How a run of the program ends. -/
inductive Outcome
  /-- Something is shown. -/
  | shown (text : String)
  | failed (f : Failure)
  | misused (m : Misuse)
deriving Repr

/-- The line that tells the version. -/
def versionLine : String :=
  "firmware-classifier 0.1.0\n"

/-- How the program is used. -/
def usage : String :=
  Text.joinLines
    ["Classify disassembled firmware by project-unique structural features",
     "",
     "Usage:",
     "  firmware-classifier extract <CORPUS> [-o <DIR>] [-c <FILE>]",
     "  firmware-classifier classify <LISTING> [-f <TABLE>] [-c <FILE>] [--top <N>] [--json]",
     "  firmware-classifier features <LISTING> [-c <FILE>] [--json]",
     "  firmware-classifier --help | --version",
     "",
     "Options:",
     "  -o, --output <DIR>      where the results of an extraction go [default: .]",
     "  -f, --features <TABLE>  table of unique features [default: ./unique_features.csv]",
     "  -c, --config <FILE>     configuration, as YAML or JSON",
     "      --top <N>           number of ranked projects to show",
     "      --json              show JSON in place of text",
     "  -v, --verbose           accepted everywhere; there is no log that it could lengthen"]

namespace Outcome

/-- The exit code: 1 for a failure, 2 for words that ask for nothing. -/
def exitCode : Outcome → UInt32
  | .shown _ => 0
  | .failed _ => 1
  | .misused _ => 2

/-- What goes to standard output. -/
def output : Outcome → String
  | .shown text => text
  | _ => ""

/-- What goes to standard error. -/
def complaint : Outcome → String
  | .shown _ => ""
  | .failed f => f.render ++ "\n"
  | .misused m => "error: " ++ m.message ++ "\n\n" ++ usage

theorem exitCode_eq_zero_iff (o : Outcome) : o.exitCode = 0 ↔ ∃ text, o = .shown text := by
  cases o <;> simp [exitCode]

end Outcome

/-- Runs the program on the words of a command line. -/
def run (generatedAt : String) (words : List String) : m Outcome := do
  match Command.ofWords words with
  | .error .help => return .shown usage
  | .error .version => return .shown versionLine
  | .error (.misuse x) => return .misused x
  | .ok command =>
    match ← (command.run generatedAt).run with
    | .ok text => return .shown text
    | .error f => return .failed f

end FirmwareMatch.CommandLine
