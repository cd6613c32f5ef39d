import FirmwareMatch.CommandLine.Run
import Std.Time

/-
  The program: the command line on the file system of the machine.
-/

namespace FirmwareMatch

/-- An operation of the machine; if it fails, its reason in words. -/
def orReason {α : Type} (op : IO α) : IO (Except String α) := do
  match ← op.toBaseIO with
  | .ok x => return .ok x
  | .error e => return .error (toString e)

/-- The tree below what lies at a path. -/
partial def surveyOf (p : Path) : IO (FileTree Path) := do
  let place ← IO.FS.realPath p.text
  if ← place.isDir then
    let names := (← place.readDir).toList.map (·.fileName)
    return .directory (← names.mapM fun name => return (name, ← surveyOf (p.entry name)))
  else return .file p

instance : Disk IO where
  kindOf p := do
    match ← (IO.FS.realPath p.text).toBaseIO with
    | .error _ => return .nothing
    | .ok place => return if ← place.isDir then .directory else .file
  readFile p := orReason (IO.FS.readBinFile p.text)
  writeFile p bytes := orReason (IO.FS.writeBinFile p.text bytes)
  appendFile p bytes := orReason do
    IO.FS.withFile p.text .append fun file => do
      file.write bytes
      file.flush
  makeDirectories p := orReason (IO.FS.createDirAll p.text)
  survey p := orReason (surveyOf p)
  workingDirectory := do return ⟨(← IO.currentDir).toString⟩
  resolve? p := do
    match ← (IO.FS.realPath p.text).toBaseIO with
    | .error _ => return none
    | .ok place => return some ⟨place.toString⟩

end FirmwareMatch

/-- Runs the words of a command line. -/
def main (words : List String) : IO UInt32 := do
  let now := Std.Time.DateTime.ofTimestamp (← Std.Time.Timestamp.now) Std.Time.TimeZone.ZoneRules.UTC
  let outcome ← FirmwareMatch.CommandLine.run now.toISO8601String words
  IO.print outcome.output
  IO.eprint outcome.complaint
  return outcome.exitCode
