import FirmwareMatch.Config.Basic
import FirmwareMatch.Disk.Access
import FirmwareMatch.Json.Decoder
import FirmwareMatch.Yaml.Decoder

/-
  Configurations as YAML or JSON documents.

  Every member may be left out; both thresholds must be given if one is. The extension of a file
  decides which of the two it is.

  Main statement: a configuration that was loaded has no fault.
-/

namespace FirmwareMatch

/-- The branch policy of that name. -/
def BranchPolicy.ofName (name : String) : Except String BranchPolicy :=
  if name = "section_linear" then .ok .sectionLinear
  else if name = "same_block" then .ok .sameBlock
  else .error ("unknown branch policy " ++ name)

namespace Config

/-- The members of a configuration, in their order. -/
def memberNames : List String :=
  ["code_sections", "extensions", "branch_policy", "thresholds", "report_limit"]

/-- The members of the thresholds, in their order. -/
def thresholdNames : List String :=
  ["high", "medium"]

/-! ## JSON -/

/-- Thresholds out of JSON. -/
def thresholdsOfJson (v : Json) : Json.Decoded Thresholds := do
  let ms ← Json.asRecord thresholdNames v
  return ⟨← ms.required "high" Json.asFloat, ← ms.required "medium" Json.asFloat⟩

/-- A configuration out of JSON. -/
def ofJson (v : Json) : Json.Decoded Config := do
  let ms ← Json.asRecord memberNames v
  return {
    codeSections :=
      ← ms.optional "code_sections" (Json.asList Json.asString) standard.codeSections
    extensions := ← ms.optional "extensions" (Json.asList Json.asString) standard.extensions
    branchPolicy :=
      ← ms.optional "branch_policy" (fun v => Json.asString v >>= BranchPolicy.ofName)
        standard.branchPolicy
    thresholds := ← ms.optional "thresholds" thresholdsOfJson standard.thresholds
    reportLimit := ← ms.optional "report_limit" Json.asCount standard.reportLimit }

/-- The configuration of a JSON text. -/
def ofJsonText (text : String) : Json.Decoded Config :=
  Json.parse text >>= ofJson

/-! ## YAML -/

/-- Thresholds out of YAML. -/
def thresholdsOfYaml (d : Yaml.Document) (n : Yaml.Node) : Yaml.Result Thresholds := do
  let ms ← Yaml.asRecord thresholdNames d n
  return ⟨← ms.required "high" Yaml.asFloat d, ← ms.required "medium" Yaml.asFloat d⟩

/-- A configuration out of YAML. -/
def ofYaml (d : Yaml.Document) : Yaml.Result Config := do
  let ms ← Yaml.asRecord memberNames d d.root
  return {
    codeSections :=
      ← ms.optional "code_sections" (Yaml.asList Yaml.asString) standard.codeSections d
    extensions := ← ms.optional "extensions" (Yaml.asList Yaml.asString) standard.extensions d
    branchPolicy :=
      ← ms.optional "branch_policy" (fun d n => Yaml.asWord d n >>= BranchPolicy.ofName)
        standard.branchPolicy d
    thresholds := ← ms.optional "thresholds" thresholdsOfYaml standard.thresholds d
    reportLimit := ← ms.optional "report_limit" Yaml.asCount standard.reportLimit d }

/-- The configuration of a YAML text. -/
def ofYamlText (text : String) : Yaml.Result Config :=
  Yaml.parse text >>= ofYaml

/-! ## Files -/

/-- The configuration in a text, by the extension of its file in lower case. -/
def ofText (path : Path) (text : String) : Except Fault Config :=
  let ext := String.ofList (Text.lower path.fileExtension)
  if ext = "yaml" ∨ ext = "yml" then (ofYamlText text).mapError .yaml
  else if ext = "json" then (ofJsonText text).mapError .json
  else .error (.invalidConfig (.unknownFormat ext path))

/-- A configuration, unless something is wrong with it. -/
def checked (c : Config) : Except Fault Config :=
  match c.fault? with
  | some reason => .error (.invalidConfig reason)
  | none => .ok c

/-- What passes the check has no fault. -/
theorem fault?_of_checked {c d : Config} (h : c.checked = .ok d) : d.fault? = none := by
  unfold checked at h
  split at h
  · simp at h
  · simp only [Except.ok.injEq] at h
    exact h ▸ ‹_›

/-- The configuration in the file at a path. -/
def load {m : Type → Type} [Monad m] [Disk m] (path : Path) : Access m Config := do
  let text ← Access.readText path
  Access.ofExcept (ofText path text >>= checked)

end Config

end FirmwareMatch
