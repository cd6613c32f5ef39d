import FirmwareMatch.CommandLine.Switch

/-
  Commands and their arguments.

  Words in front of the name of a command belong to the program, those behind it to the command.
  Every command has one operand. No switch may be given twice on either side of the name.

  Main statement: whatever was collected holds no switch twice and no more operands than allowed.
-/

namespace FirmwareMatch.CommandLine

/-- Why no command is to be run. -/
inductive Stop
  | help
  | version
  | misuse (m : Misuse)
deriving DecidableEq, Repr

/-- What the program is asked to do. -/
inductive Command
  /-- Build a corpus and write what was found into a directory. -/
  | extract (corpus output : String) (config? : Option String)
  /-- Rank the projects of a table by what they share with a listing. -/
  | classify (listing table : String) (config? : Option String) (limit? : Option Nat)
    (asJson : Bool)
  /-- Show the features of a listing. -/
  | features (listing : String) (config? : Option String) (asJson : Bool)
deriving DecidableEq, Repr

/-! ## Collecting items -/

/-- Switches with their values, and operands. -/
structure Collected where
  switches : List (Switch × Option String)
  operands : List String
deriving DecidableEq, Repr

namespace Collected

/-- Nothing yet. -/
def empty : Collected :=
  ⟨[], []⟩

/-- Whether a switch was given. -/
def has (c : Collected) (s : Switch) : Bool :=
  c.switches.any (·.1 == s)

/-- The value that was given to a switch. -/
def value? (c : Collected) (s : Switch) : Option String :=
  (c.switches.lookup s).join

/-- Adds a switch that was not given before. -/
def addSwitch (c : Collected) (s : Switch) (value? : Option String) : Except Stop Collected :=
  if c.has s then .error (.misuse (.repeated s))
  else .ok { c with switches := c.switches ++ [(s, value?)] }

/-- Adds an item; at most `limit` operands are taken. -/
def add (limit : Nat) (c : Collected) : Item → Except Stop Collected
  | .flag .help => .error .help
  | .flag .version => .error .version
  | .flag s => c.addSwitch s none
  | .setting s value => c.addSwitch s (some value)
  | .operand word =>
    if c.operands.length < limit then .ok { c with operands := c.operands ++ [word] }
    else .error (.misuse (.surplusOperand word))

/-- No switch stands twice, and there are at most `limit` operands. -/
structure Sound (limit : Nat) (c : Collected) : Prop where
  nodup : (c.switches.map Prod.fst).Nodup
  length_le : c.operands.length ≤ limit

theorem sound_empty (limit : Nat) : Sound limit empty :=
  ⟨List.nodup_nil, Nat.zero_le limit⟩

theorem Sound.addSwitch {limit : Nat} {c d : Collected} {s : Switch} {value? : Option String}
    (hc : Sound limit c) (h : c.addSwitch s value? = .ok d) : Sound limit d := by
  unfold Collected.addSwitch at h
  split at h
  · simp at h
  · rename_i hs
    simp only [Except.ok.injEq] at h
    subst h
    refine ⟨?_, hc.length_le⟩
    have hmem : ∀ e ∈ c.switches, e.1 ≠ s := fun e he heq =>
      hs (List.any_eq_true.2 ⟨e, he, beq_iff_eq.2 heq⟩)
    simp only [List.map_append, List.map_cons, List.map_nil]
    refine List.nodup_append.2 ⟨hc.nodup, by simp, ?_⟩
    intro x hx y hy
    simp only [List.mem_singleton] at hy
    obtain ⟨e, he, rfl⟩ := List.mem_map.1 hx
    exact hy ▸ hmem e he

/-- Adding an item keeps what was collected sound. -/
theorem Sound.add {limit : Nat} {c d : Collected} {item : Item} (hc : Sound limit c)
    (h : c.add limit item = .ok d) : Sound limit d := by
  unfold Collected.add at h
  split at h
  · simp at h
  · simp at h
  · exact hc.addSwitch h
  · exact hc.addSwitch h
  · split at h
    · simp only [Except.ok.injEq] at h
      subst h
      exact ⟨hc.nodup, by simp; omega⟩
    · simp at h

/-- Collects what words say. -/
def ofWords (known : List Switch) (limit : Nat) (words : List String) : Except Stop Collected :=
  (readWords known words).foldlM (fun c item => item.mapError .misuse >>= c.add limit) empty

theorem Sound.foldlM {limit : Nat} {items : List (Except Misuse Item)} {c d : Collected}
    (hc : Sound limit c)
    (h : items.foldlM (fun c item => item.mapError Stop.misuse >>= c.add limit) c = .ok d) :
    Sound limit d := by
  induction items generalizing c with
  | nil =>
    cases h
    exact hc
  | cons item items ih =>
    rw [List.foldlM_cons] at h
    cases item with
    | error m => cases h
    | ok item =>
      change (c.add limit item >>= fun c => items.foldlM _ c) = .ok d at h
      cases hadd : c.add limit item with
      | error e =>
        rw [hadd] at h
        cases h
      | ok c' =>
        rw [hadd] at h
        exact ih (hc.add hadd) h

/-- Whatever words say, no switch stands twice and no operand too many. -/
theorem sound_of_ofWords {known : List Switch} {limit : Nat} {words : List String} {c : Collected}
    (h : ofWords known limit words = .ok c) : Sound limit c :=
  (sound_empty limit).foldlM h

end Collected

/-! ## Commands -/

/-- Switches in front of the name of a command. -/
def programSwitches : List Switch :=
  [.verbose, .help, .version]

/-- The name of a command. -/
inductive CommandName
  | extract
  | classify
  | features
deriving DecidableEq, Repr

namespace CommandName

/-- The command of that name. -/
def ofWord? (word : String) : Option CommandName :=
  if word = "extract" then some .extract
  else if word = "classify" then some .classify
  else if word = "features" then some .features
  else none

/-- The switches of a command. -/
def switches : CommandName → List Switch
  | .extract => [.output, .config, .verbose, .help]
  | .classify => [.features, .config, .top, .json, .verbose, .help]
  | .features => [.config, .json, .verbose, .help]

end CommandName

/-- The count that a word stands for: decimal digits, perhaps with a plus in front, below
`2 ^ 64`. -/
def readCount? (word : String) : Option Nat :=
  let cs := match word.toList with
    | '+' :: cs => cs
    | cs => cs
  if cs.isEmpty || !cs.all Char.isDigit then none
  else
    let n := Nat.ofDigitChars 10 cs 0
    if n < UInt64.size then some n else none

namespace Command

/-- The number of records to show, if it was given. -/
def limitOf (c : Collected) : Except Stop (Option Nat) :=
  match c.value? .top with
  | none => .ok none
  | some word =>
    match readCount? word with
    | some n => .ok (some n)
    | none => .error (.misuse (.badCount word))

/-- A command from what was collected behind its name. -/
def ofCollected (name : CommandName) (c : Collected) : Except Stop Command :=
  match c.operands with
  | [] => .error (.misuse .missingOperand)
  | operand :: _ =>
    match name with
    | .extract => .ok (.extract operand ((c.value? .output).getD ".") (c.value? .config))
    | .classify => do
      return .classify operand ((c.value? .features).getD "./unique_features.csv")
        (c.value? .config) (← limitOf c) (c.has .json)
    | .features => .ok (.features operand (c.value? .config) (c.has .json))

/-- Why the words in front of a command's name stop the program, if they do. Behind `--` no command
has a name, and `help` asks for the usage. -/
def checkFront (front : List String) : Except Stop PUnit := do
  let words := front.takeWhile (· != "--")
  match words.find? isOperand with
  | none => let _ ← Collected.ofWords programSwitches 0 words
  | some word =>
    let _ ← Collected.ofWords programSwitches 0 (words.takeWhile fun w => !isOperand w)
    throw (if word = "help" then .help else .misuse (.unknownCommand word))
  if front.contains "--" then throw (.misuse .missingCommand)

/-- The command that the words of a command line ask for. -/
def ofWords (words : List String) : Except Stop Command := do
  let front := words.takeWhile fun w => (CommandName.ofWord? w).isNone
  checkFront front
  match words.drop front.length with
  | [] => throw (.misuse .missingCommand)
  | word :: rest =>
    match CommandName.ofWord? word with
    | none => throw (.misuse (.unknownCommand word))
    | some name => ofCollected name (← Collected.ofWords name.switches 1 rest)

end Command

end FirmwareMatch.CommandLine
