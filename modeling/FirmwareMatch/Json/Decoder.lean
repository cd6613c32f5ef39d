import FirmwareMatch.Json.Basic
import FirmwareMatch.Json.Parser
import Std.Data.ExtTreeMap

/-
  Reading typed values out of JSON.

  A record is an object whose known members stand there at most once, in any order and among
  unknown ones, or an array of the members in their declared order. Counts have 64 bits. A number
  read as a double is its leading digits, as many as fit into 64 bits, scaled by a power of ten in
  one operation on doubles.
-/

namespace FirmwareMatch.Json

/-! ## Numbers -/

/-- The largest number of 64 bits. -/
def maxCount : Nat :=
  UInt64.size - 1

/-- The count that a number is: whole, not negative and of at most 64 bits. A zero with a sign is
no count. -/
def Numeral.toCount? (n : Numeral) : Option Nat :=
  if n.negative || n.scale != 0 || n.exponent.isSome || maxCount < n.mantissa then none
  else some n.mantissa

/-- The digits in front of the point. -/
def Numeral.wholeDigits (n : Numeral) : List Char :=
  Decimal.natText (n.mantissa / Decimal.tenTo n.scale)

/-- The digits behind the point. -/
def Numeral.fractionDigits (n : Numeral) : List Char :=
  if n.scale == 0 then [] else Decimal.paddedText n.scale (n.mantissa % Decimal.tenTo n.scale)

/-- Appends a digit to a number if 64 bits can hold the result. -/
def appendDigit? (n : Nat) (digit : Char) : Option Nat :=
  let m := 10 * n + (digit.toNat - 48)
  if m ≤ maxCount then some m else none

/-- The number that the leading digits make, as many as fit into 64 bits behind `n`, and how many
digits are left over. -/
def takeDigits (n : Nat) : List Char → Nat × Nat
  | [] => (n, 0)
  | d :: ds =>
    match appendDigit? n d with
    | some m => takeDigits m ds
    | none => (n, (d :: ds).length)

/-- `10 ^ k` as a double, `k ≤ 308`. -/
def powerOfTen (k : Nat) : Float :=
  Float.ofScientific 1 false k

/-- `x · 10 ^ e`; nothing if the result is too large. Powers beyond `10 ^ 308` take several
divisions. -/
def scale? (x : Float) (e : Int) : Option Float :=
  if 0 ≤ e then
    if e ≤ 308 then
      let y := x * powerOfTen e.toNat
      if y.isInf then none else some y
    else if x == 0 then some x
    else none
  else if -308 ≤ e then some (x / powerOfTen (-e).toNat)
  else if x == 0 then some x
  else scale? (x / powerOfTen 308) (e + 308)
termination_by e.natAbs
decreasing_by omega

/-- The double that a number is read as; nothing if it is too large. -/
def Numeral.toFloat? (n : Numeral) : Option Float :=
  let (whole, dropped) := takeDigits 0 n.wholeDigits
  let fraction := n.fractionDigits
  let (digits, rest) := takeDigits whole fraction
  let places : Nat := fraction.length - rest
  let exponent : Int := n.exponent.getD 0 + dropped - places
  (scale? (Float.ofNat digits) exponent).map fun x => if n.negative then -x else x

/-! ## Decoders -/

/-- The result of reading a value, with the reason if it cannot be read. -/
abbrev Decoded := Except String

/-- The value of a text. -/
def parse (text : String) : Decoded Json :=
  match parse? text with
  | some v => .ok v
  | none => .error "not a JSON text"

/-- A string without defect. -/
def asString : Json → Decoded String
  | .string (some s) => .ok s
  | .string none => .error "a string holds half of a surrogate pair"
  | _ => .error "expected a string"

/-- A count. -/
def asCount : Json → Decoded Nat
  | .number n =>
    match n.toCount? with
    | some k => .ok k
    | none => .error "expected a count of at most 64 bits"
  | _ => .error "expected a count"

/-- A double. -/
def asFloat : Json → Decoded Float
  | .number n =>
    match n.toFloat? with
    | some x => .ok x
    | none => .error "number out of range"
  | _ => .error "expected a number"

/-- A list. -/
def asList {α : Type} (item : Json → Decoded α) : Json → Decoded (List α)
  | .array items => items.mapM item
  | _ => .error "expected an array"

/-- The members of an object under names without defect. -/
def asMembers : Json → Decoded (List (String × Json))
  | .object members =>
    members.mapM fun
      | (some name, v) => .ok (name, v)
      | (none, _) => .error "a name holds half of a surrogate pair"
  | _ => .error "expected an object"

/-- A map from names; of several members of one name the last counts. -/
def asMap {α : Type} (item : Json → Decoded α) (v : Json) :
    Decoded (Std.ExtTreeMap String α) := do
  let members ← asMembers v
  let entries ← members.mapM fun (name, w) => (item w).map fun x => (name, x)
  return entries.foldl (fun m (name, x) => m.insert name x) ∅

/-! ## Records -/

/-- The members of a record that are there. -/
abbrev Members := List (String × Json)

/-- The known members of a record. -/
def asRecord (names : List String) (v : Json) : Decoded Members :=
  match v with
  | .array items =>
    if items.length ≤ names.length then .ok (names.zip items)
    else .error "too many items for the record"
  | _ => do
    let members := (← asMembers v).filter fun (name, _) => names.contains name
    if (members.map Prod.fst).Nodup then return members
    else throw "a member stands twice"

/-- A member that must be there. -/
def Members.required {α : Type} (ms : Members) (name : String) (item : Json → Decoded α) :
    Decoded α :=
  match ms.lookup name with
  | some v => item v
  | none => .error ("missing member " ++ name)

/-- A member with a default. -/
def Members.optional {α : Type} (ms : Members) (name : String) (item : Json → Decoded α)
    (default : α) : Decoded α :=
  match ms.lookup name with
  | some v => item v
  | none => .ok default

end FirmwareMatch.Json
