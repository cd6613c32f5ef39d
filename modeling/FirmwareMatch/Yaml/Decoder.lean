import FirmwareMatch.Text.Hex
import FirmwareMatch.Yaml.Node

/-
  Reading typed values out of YAML documents.

  Every scalar is a text. A plain scalar may also be a count or a double; an empty plain scalar may
  be an empty list or a record without members. A record is a mapping whose known members stand
  there at most once, or a sequence of the members in their declared order.
-/

namespace FirmwareMatch.Yaml

/-! ## Numbers -/

/-- `text` without `start`, if it starts with it. -/
def dropStart? (start text : List Char) : Option (List Char) :=
  if start.isPrefixOf text then some (text.drop start.length) else none

/-- The number that digits make in a base of at most 16, if it has at most 64 bits. -/
def digitsIn? (base : Nat) (digits : List Char) : Option Nat :=
  if digits.isEmpty || !digits.all (fun d => Text.isHexDigit d && Text.hexValue d < base) then none
  else
    let n := digits.foldl (fun n d => base * n + Text.hexValue d) 0
    if n < UInt64.size then some n else none

/-- A count: decimal without leading zeros, or behind `0x`, `0o` or `0b` in another base; a plus
sign may stand first. -/
def readCount? (text : List Char) : Option Nat :=
  let text := (dropStart? ['+'] text).getD text
  let inBase (start : List Char) (base : Nat) := (dropStart? start text).bind (digitsIn? base)
  match inBase ['0', 'x'] 16, inBase ['0', 'o'] 8, inBase ['0', 'b'] 2 with
  | some n, _, _ | none, some n, _ | none, none, some n => some n
  | none, none, none =>
    if 1 < text.length && text.head? == some '0' && text.all Char.isDigit then none
    else digitsIn? 10 text

/-- The exponent of a double. -/
def readExponent? : List Char → Option Int
  | [] => some 0
  | c :: cs =>
    if c == 'e' || c == 'E' then
      let (negative, digits) := match cs with
        | '+' :: ds => (false, ds)
        | '-' :: ds => (true, ds)
        | ds => (false, ds)
      if digits.isEmpty || !digits.all Char.isDigit then none
      else
        let n : Int := Nat.ofDigitChars 10 digits 0
        some (if negative then -n else n)
    else none

/-- The double nearest to `digits · 10 ^ exponent`; nothing if it is too large. -/
def nearest? (digits : Nat) (exponent : Int) : Option Float :=
  let size : Int := (Nat.toDigits 10 digits).length + exponent
  if digits == 0 || size < -400 then some 0.0
  else if 400 < size then none
  else
    let x := Float.ofScientific digits (exponent < 0) exponent.natAbs
    if x.isInf then none else some x

/-- A decimal without a sign. -/
def readDecimal? (text : List Char) : Option Float :=
  let whole := text.takeWhile Char.isDigit
  let rest := text.dropWhile Char.isDigit
  let (fraction, rest) := match rest with
    | '.' :: cs => (cs.takeWhile Char.isDigit, cs.dropWhile Char.isDigit)
    | cs => ([], cs)
  if whole.isEmpty && fraction.isEmpty then none
  else
    (readExponent? rest).bind fun e =>
      nearest? (Nat.ofDigitChars 10 (whole ++ fraction) 0) (e - (fraction.length : Int))

/-- A double: a decimal, an infinity or what is not a number. -/
def readFloat? (text : List Char) : Option Float :=
  let unsigned := (dropStart? ['+'] text).getD text
  let infinite := [".inf".toList, ".Inf".toList, ".INF".toList]
  if text.head? == some '+' && (unsigned.head? == some '+' || unsigned.head? == some '-') then none
  else if infinite.contains unsigned then some (1.0 / 0.0)
  else if text.head? == some '-' && infinite.contains (text.drop 1) then some (-1.0 / 0.0)
  else if [".nan".toList, ".NaN".toList, ".NAN".toList].contains text then some (0.0 / 0.0)
  else
    match unsigned with
    | '-' :: digits => (readDecimal? digits).map fun x => -x
    | digits => readDecimal? digits

/-! ## Decoders -/

/-- What a node stands for: an alias stands for the node it refers to. -/
def Document.resolve (d : Document) : Node → Node
  | .alias n => (d.anchored.lookup n).getD (.alias n)
  | n => n

/-- A text. -/
def asString (d : Document) (n : Node) : Result String :=
  match d.resolve n with
  | .scalar _ _ text => .ok text
  | _ => .error "expected a scalar"

/-- The text of a scalar that may be a number: a plain one, or a literal block with the tag of such
numbers. -/
def numberText? (d : Document) (tag : String) (n : Node) : Option (List Char) :=
  match d.resolve n with
  | .scalar .plain _ text => some text.toList
  | .scalar .literal t text =>
    if t == some ("tag:yaml.org,2002:" ++ tag) then some text.toList else none
  | _ => none

/-- A count. -/
def asCount (d : Document) (n : Node) : Result Nat :=
  match (numberText? d "int" n).bind readCount? with
  | some k => .ok k
  | none => .error "expected a count"

/-- A double. -/
def asFloat (d : Document) (n : Node) : Result Float :=
  match (numberText? d "float" n).bind readFloat? with
  | some x => .ok x
  | none => .error "expected a number"

/-- A list. -/
def asList {α : Type} (item : Document → Node → Result α) (d : Document) (n : Node) :
    Result (List α) :=
  match d.resolve n with
  | .sequence items => items.mapM (item d)
  | .scalar .plain _ "" => .ok []
  | _ => .error "expected a sequence"

/-- The members of a record that are there. -/
abbrev Members := List (String × Node)

/-- The known members of a record. -/
def asRecord (names : List String) (d : Document) (n : Node) : Result Members :=
  match d.resolve n with
  | .sequence items =>
    if items.length ≤ names.length then .ok (names.zip items)
    else .error "too many items for the record"
  | .mapping pairs => do
    let members ← pairs.mapM fun (k, v) => do return (← asString d k, v)
    let known := members.filter fun (name, _) => names.contains name
    if (known.map Prod.fst).Nodup then return known else throw "a member stands twice"
  | .scalar .plain _ "" => .ok []
  | _ => .error "expected a mapping"

/-- A word out of a list: the text of a scalar, or a local tag on an empty one. -/
def asWord (d : Document) (n : Node) : Result String :=
  match d.resolve n with
  | .scalar style (some tag) text =>
    if tag.toList.head? != some '!' then .ok text
    else if style == .plain && ["", "~", "null", "Null", "NULL"].contains text then
      .ok (String.ofList (tag.toList.drop 1))
    else .error "a word with a value"
  | .scalar _ none text => .ok text
  | _ => .error "expected a word"

/-- A member that must be there. -/
def Members.required {α : Type} (ms : Members) (name : String) (item : Document → Node → Result α)
    (d : Document) : Result α :=
  match ms.lookup name with
  | some v => item d v
  | none => .error ("missing member " ++ name)

/-- A member with a default. -/
def Members.optional {α : Type} (ms : Members) (name : String) (item : Document → Node → Result α)
    (default : α) (d : Document) : Result α :=
  match ms.lookup name with
  | some v => item d v
  | none => .ok default

end FirmwareMatch.Yaml
