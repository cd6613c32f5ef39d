/-
  Switches of the command line, and how its words are read.

  A word that starts with `-` names switches, unless it is `-` itself. `--name` names one, with a
  value behind `=` or in the next word; `-abc` names several by their letters, and a letter that
  takes a value takes the rest of its word. Behind the word `--` nothing names a switch any more.
-/

namespace FirmwareMatch.CommandLine

/-- A switch of the program or of one of its commands. -/
inductive Switch
  | verbose
  | help
  | version
  | output
  | config
  | features
  | top
  | json
deriving DecidableEq, Repr

namespace Switch

/-- The name behind `--`. -/
def name : Switch → String
  | .verbose => "verbose"
  | .help => "help"
  | .version => "version"
  | .output => "output"
  | .config => "config"
  | .features => "features"
  | .top => "top"
  | .json => "json"

/-- The letter behind `-`. -/
def letter? : Switch → Option Char
  | .verbose => some 'v'
  | .help => some 'h'
  | .version => some 'V'
  | .output => some 'o'
  | .config => some 'c'
  | .features => some 'f'
  | .top | .json => none

/-- Whether a switch has a value. -/
def takesValue : Switch → Bool
  | .output | .config | .features | .top => true
  | .verbose | .help | .version | .json => false

end Switch

/-- What is wrong with the words of a command line. -/
inductive Misuse
  | unknownSwitch (word : String)
  | missingValue (s : Switch)
  | unwantedValue (s : Switch)
  | repeated (s : Switch)
  | surplusOperand (word : String)
  | missingOperand
  | unknownCommand (word : String)
  | missingCommand
  /-- Not a count of 64 bits. -/
  | badCount (word : String)
deriving DecidableEq, Repr

/-- What is wrong with the words of a command line, in words. -/
def Misuse.message : Misuse → String
  | .unknownSwitch word => "unexpected argument '" ++ word ++ "' found"
  | .missingValue s => "a value is required for '--" ++ s.name ++ "' but none was supplied"
  | .unwantedValue s => "unexpected value for '--" ++ s.name ++ "' found; no more were expected"
  | .repeated s => "the argument '--" ++ s.name ++ "' cannot be used multiple times"
  | .surplusOperand word => "unexpected argument '" ++ word ++ "' found"
  | .missingOperand => "a required argument was not provided"
  | .unknownCommand word => "unrecognized command '" ++ word ++ "'"
  | .missingCommand => "a command is required but none was provided"
  | .badCount word => "invalid value '" ++ word ++ "' for '--top'"

/-- What words of a command line say. -/
inductive Item
  /-- A switch without a value. -/
  | flag (s : Switch)
  /-- A switch with its value. -/
  | setting (s : Switch) (value : String)
  /-- A word that belongs to no switch. -/
  | operand (word : String)
deriving DecidableEq, Repr

/-! ## One word -/

/-- Whether a word names no switch. -/
def isOperand (word : String) : Bool :=
  word == "-" || word.toList.head? != some '-'

/-- How a word that names switches ends. -/
inductive WordEnd
  | complete
  /-- The last switch has its value in the next word. -/
  | awaits (s : Switch)
  | wrong (m : Misuse)
deriving DecidableEq, Repr

/-- Reads the letters of the word `word`. -/
def readLetters (known : List Switch) (word : String) : List Char → List Item × WordEnd
  | [] => ([], .complete)
  | c :: cs =>
    match known.find? (·.letter? == some c) with
    | none => ([], .wrong (.unknownSwitch word))
    | some s =>
      if s.takesValue then
        match cs with
        | [] => ([], .awaits s)
        | '=' :: value => ([.setting s (String.ofList value)], .complete)
        | value => ([.setting s (String.ofList value)], .complete)
      else
        let (items, last) := readLetters known word cs
        (.flag s :: items, last)

/-- Reads what stands behind the `--` of the word `word`. -/
def readName (known : List Switch) (word : String) (cs : List Char) : List Item × WordEnd :=
  let name := cs.takeWhile (· != '=')
  match known.find? (·.name.toList == name), cs.dropWhile (· != '=') with
  | none, _ => ([], .wrong (.unknownSwitch word))
  | some s, [] => if s.takesValue then ([], .awaits s) else ([.flag s], .complete)
  | some s, _ :: value =>
    if s.takesValue then ([.setting s (String.ofList value)], .complete)
    else ([], .wrong (.unwantedValue s))

/-- Reads a word that names switches. -/
def readWord (known : List Switch) (word : String) : List Item × WordEnd :=
  match word.toList with
  | '-' :: '-' :: cs => readName known word cs
  | cs => readLetters known word cs.tail

/-! ## All words -/

/-- What words say, one item after another, up to the first misuse. -/
def readWords (known : List Switch) : List String → List (Except Misuse Item)
  | [] => []
  | word :: words =>
    if word == "--" then words.map fun w => .ok (.operand w)
    else if isOperand word then .ok (.operand word) :: readWords known words
    else
      let (items, last) := readWord known word
      items.map .ok ++
        match last, words with
        | .complete, words => readWords known words
        | .wrong m, _ => [.error m]
        | .awaits s, [] => [.error (.missingValue s)]
        | .awaits s, value :: words =>
          if isOperand value then .ok (.setting s value) :: readWords known words
          else [.error (.missingValue s)]

end FirmwareMatch.CommandLine
