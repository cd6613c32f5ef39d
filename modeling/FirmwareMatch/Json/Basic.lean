import FirmwareMatch.Decimal.Layout

/-
  JSON documents as values.

  Numbers keep their decimal form, so that reading one as a count, or as a double, is a decision of
  whoever reads it. The members of an object keep their order, and a name may stand there twice. A
  text can be defective: an escape may name half of a surrogate pair, which no character is.
-/

namespace FirmwareMatch.Json

/-- A number as it is written: `mantissa` with a point in front of its last `scale` digits, and
perhaps an exponent. -/
structure Numeral where
  negative : Bool
  mantissa : Nat
  scale : Nat
  exponent : Option Int
deriving DecidableEq, Repr

/-- The text of a string, or nothing if an escape in it names half of a surrogate pair. -/
abbrev Text := Option String

end FirmwareMatch.Json

namespace FirmwareMatch

/-- A JSON value. -/
inductive Json
  | null
  | bool (b : Bool)
  | number (n : Json.Numeral)
  | string (s : Json.Text)
  | array (items : List Json)
  | object (members : List (Json.Text × Json))
deriving Repr

namespace Json

/-! ## Building values -/

/-- A whole number. -/
def ofInt (n : Int) : Json :=
  .number ⟨n < 0, n.natAbs, 0, none⟩

/-- A count. -/
def ofNat (n : Nat) : Json :=
  .number ⟨false, n, 0, none⟩

/-- A string. -/
def str (s : String) : Json :=
  .string (some s)

/-- A list of strings. -/
def strs (ss : List String) : Json :=
  .array (ss.map str)

/-- An object with the given members. -/
def record (members : List (String × Json)) : Json :=
  .object (members.map fun (name, value) => (some name, value))

/-! ## Doubles -/

/-- The numeral of a finite double from its shortest decimal: positional with at least one place
from `0.00001` up to below `10 ^ 16`, otherwise with one digit in front of the point and an
exponent. -/
def Numeral.ofDigits (negative : Bool) (d : Decimal.Digits) : Numeral :=
  let count : Nat := (Decimal.natText d.digits).length
  let point : Int := count + d.exponent
  if 0 ≤ d.exponent && point ≤ 16 then
    ⟨negative, d.digits * Decimal.tenTo (d.exponent.toNat + 1), 1, none⟩
  else if d.exponent < 0 && -5 < point && point ≤ 16 then
    ⟨negative, d.digits, (-d.exponent).toNat, none⟩
  else ⟨negative, d.digits, count - 1, some (point - 1)⟩

/-- The number of a double; there is none for infinities and what is not a number. -/
def ofFloat (x : Float) : Json :=
  match Decimal.Binary.ofFloat x with
  | .finite negative size => .number (.ofDigits negative size.shortest)
  | _ => .null

end Json

end FirmwareMatch
