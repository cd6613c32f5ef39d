import FirmwareMatch.Disk.Basic

/-
  A file system that is a value: a tree of files and a working directory in it.

  A path is walked step by step from the root or from the working directory; every step but the
  last needs a directory, `..` leads back to the directory above, and a slash or `.` at the end
  asks for a directory too.
-/

namespace FirmwareMatch

open Text

/-- A tree of files with a working directory. -/
structure Volume where
  root : FileTree ByteArray
  /-- The names that lead to the working directory. -/
  cwd : List String

namespace Volume

/-! ## Walking -/

/-- The steps of a path as they are walked: a slash at the end counts as a last step `.`. -/
def rawSteps (p : Path) : List String :=
  match fields (· == '/') p.text.toList with
  | [] => []
  | fs =>
    let inner := fs.dropLast.filter (!·.isEmpty)
    let last := match fs.getLast? with
      | some [] => ['.']
      | some l => l
      | none => []
    (inner ++ [last]).map String.ofList

/-- The names that lead to where a path starts. -/
def origin (v : Volume) (p : Path) : List String :=
  if p.isAbsolute then [] else v.cwd

/-- Walks one step from the directory below `names`. -/
def stepFrom (v : Volume) (names : List String) (step : String) : Option (List String) :=
  match v.root.descend? names with
  | some (.directory es) =>
    if step == "." then some names
    else if step == ".." then some names.dropLast
    else if (es.lookup step).isSome then some (names ++ [step])
    else none
  | _ => none

/-- Walks steps from the directory below `names`. -/
def walk (v : Volume) (names : List String) (steps : List String) : Option (List String) :=
  steps.foldlM v.stepFrom names

/-- The names that lead to what lies at a path. -/
def locate? (v : Volume) (p : Path) : Option (List String) :=
  if p.text.isEmpty then none else v.walk (v.origin p) (rawSteps p)

/-- What lies at a path. -/
def get? (v : Volume) (p : Path) : Option (FileTree ByteArray) :=
  (v.locate? p).bind v.root.descend?

/-- What kind of entry lies at a path. -/
def kindOf (v : Volume) (p : Path) : EntryKind :=
  match v.get? p with
  | none => .nothing
  | some (.file _) => .file
  | some (.directory _) => .directory

/-- The bytes of the file at a path. -/
def read? (v : Volume) (p : Path) : Option ByteArray :=
  match v.get? p with
  | some (.file bytes) => some bytes
  | _ => none

/-! ## Writing -/

/-- The names under which the last step of a path can be made: the directory before it must be
there and the step must be a name. -/
def placeFor? (v : Volume) (p : Path) (steps : List String) : Option (List String) :=
  match steps.getLast? with
  | none => none
  | some name =>
    if p.text.isEmpty || name == "." || name == ".." then none
    else
      match v.walk (v.origin p) steps.dropLast with
      | some names =>
        match v.root.descend? names with
        | some (.directory _) => some (names ++ [name])
        | _ => none
      | none => none

/-- The volume with a file that holds `bytes`; a directory is not overwritten. -/
def write? (v : Volume) (p : Path) (bytes : ByteArray) : Option Volume :=
  match v.placeFor? p (rawSteps p) with
  | none => none
  | some names =>
    match v.root.descend? names with
    | some (.directory _) => none
    | _ => (FileTree.put? (.file bytes) names v.root).map fun root => { v with root }

/-- The volume with bytes behind those that a file holds. -/
def append? (v : Volume) (p : Path) (bytes : ByteArray) : Option Volume :=
  v.write? p ((v.read? p).getD .empty ++ bytes)

/-- The volume with a new directory in a directory that is there. -/
def makeDirectory? (v : Volume) (p : Path) : Option Volume :=
  let steps := rawSteps p
  let steps := if steps.getLast? == some "." && p.text.toList.getLast? == some '/' then
    steps.dropLast else steps
  match v.placeFor? p steps with
  | none => none
  | some names =>
    match v.root.descend? names with
    | some _ => none
    | none => (FileTree.put? (.directory []) names v.root).map fun root => { v with root }

/-- The path without its last step. -/
def above? (p : Path) : Option Path :=
  if p.steps.isEmpty then none
  else
    let text := "/".intercalate p.steps.dropLast
    some ⟨if p.isAbsolute then "/" ++ text else text⟩

/-- The volume with a directory at a path, and those above it; `fuel` bounds how many. -/
def makeDirectories? (fuel : Nat) (v : Volume) (p : Path) : Option Volume :=
  match fuel with
  | 0 => none
  | fuel + 1 =>
    if p.text.isEmpty || v.kindOf p == .directory then some v
    else
      match v.makeDirectory? p with
      | some v => some v
      | none =>
        match (above? p).bind (makeDirectories? fuel v) with
        | none => none
        | some v => if v.kindOf p == .directory then some v else v.makeDirectory? p

/-- The absolute path of the names. -/
def absolute (names : List String) : Path :=
  ⟨"/" ++ "/".intercalate names⟩

end Volume

/-- A reason for a file that is not there or cannot be made. -/
def Volume.refusal : String :=
  "no such file or directory"

instance : Disk (StateM Volume) where
  kindOf p := do return (← get).kindOf p
  readFile p := do
    match (← get).read? p with
    | some bytes => return .ok bytes
    | none => return .error Volume.refusal
  writeFile p bytes := do
    match (← get).write? p bytes with
    | some v => set v; return .ok ⟨⟩
    | none => return .error Volume.refusal
  appendFile p bytes := do
    match (← get).append? p bytes with
    | some v => set v; return .ok ⟨⟩
    | none => return .error Volume.refusal
  makeDirectories p := do
    let v ← get
    match v.makeDirectories? (p.steps.length + 2) p with
    | some v => set v; return .ok ⟨⟩
    | none => return .error Volume.refusal
  survey p := do
    match (← get).get? p with
    | some (.directory es) =>
      return .ok <| FileTree.mapFiles
        (fun above _ => above.reverse.foldl Path.entry p) [] (.directory es)
    | _ => return .error Volume.refusal
  workingDirectory := do return Volume.absolute (← get).cwd
  resolve? p := do return ((← get).locate? p).map Volume.absolute

end FirmwareMatch
