import FirmwareMatch.Decimal.Binary
import FirmwareMatch.Decimal.Power

/-
  The shortest decimal that reads back to a given double, and of the shortest ones the nearest.

  A decimal reads back to a double when it lies between the midpoints to the neighbouring doubles;
  the midpoints themselves belong to the doubles with an even significand. For one digit, two
  digits and so on, the two decimals next to the value are tested exactly in natural numbers; the
  first count of digits with a hit wins.
-/

namespace FirmwareMatch.Decimal

/-- A decimal without a sign: `digits · 10 ^ exponent`. -/
structure Digits where
  digits : Nat
  exponent : Int
deriving DecidableEq, Repr

/-- A fraction of natural numbers. -/
structure Ratio where
  num : Nat
  den : Nat

/-- `n · 2 ^ q` as a fraction. -/
def Ratio.ofBinary (n : Nat) (q : Int) : Ratio :=
  ⟨n <<< q.toNat, 1 <<< (-q).toNat⟩

/-- The number of decimal digits in front of the point of a fraction of at least one. -/
def Ratio.wholeDigits (r : Ratio) : Nat :=
  (Nat.toDigits 10 (r.num / r.den)).length

/-- The exponent of the power of ten at or below a positive double. -/
def leadingExponent (size : Magnitude) : Int :=
  let r := Ratio.ofBinary size.significand size.exponent
  (Ratio.wholeDigits ⟨r.num * tenTo 330, r.den⟩ : Int) - 331

/-- The decimals that read back to a double, on the grid of the multiples of `10 ^ p`: in units of
a common denominator, the value, the two midpoints and the step. -/
structure Grid where
  value : Nat
  low : Nat
  high : Nat
  step : Nat
  /-- Whether the midpoints belong to the double. -/
  closed : Bool

/-- The grid of `10 ^ p` around a double. -/
def Grid.of (size : Magnitude) (p : Int) : Grid :=
  let q := size.exponent - 2
  let unit := tenTo (-p).toNat <<< q.toNat
  let m := 4 * size.significand
  { value := m * unit
    low := (m - if size.closeBelow then 1 else 2) * unit
    high := (m + 2) * unit
    step := tenTo p.toNat <<< (-q).toNat
    closed := size.significand % 2 == 0 }

/-- Whether the multiple `c` of the step reads back to the double. -/
def Grid.holds (g : Grid) (c : Nat) : Bool :=
  let x := c * g.step
  if g.closed then g.low ≤ x && x ≤ g.high else g.low < x && x < g.high

/-- The multiple of the step that is nearest to the value among those that read back to it; of two
equally near ones the even one. -/
def Grid.nearest? (g : Grid) : Option Nat :=
  let c := g.value / g.step
  let below := g.value - c * g.step
  let above := (c + 1) * g.step - g.value
  match g.holds c, g.holds (c + 1) with
  | false, false => none
  | true, false => some c
  | false, true => some (c + 1)
  | true, true =>
    if below < above then some c
    else if above < below then some (c + 1)
    else if c % 2 == 0 then some c else some (c + 1)

/-- Takes the zeros at the end of `digits` off. At most `fuel` of them. -/
def Digits.strip (fuel : Nat) (d : Digits) : Digits :=
  match fuel with
  | 0 => d
  | fuel + 1 =>
    if d.digits % 10 == 0 && d.digits != 0 then
      Digits.strip fuel ⟨d.digits / 10, d.exponent + 1⟩
    else d

/-- The shortest decimal that reads back to a positive double. -/
def shortest (size : Magnitude) : Digits :=
  let top := leadingExponent size
  let tries := (List.range 17).findSome? fun (n : Nat) =>
    let p := top - (n : Int)
    (Grid.of size p).nearest?.map fun c => Digits.mk c p
  (tries.getD ⟨size.significand, 0⟩).strip 20

end FirmwareMatch.Decimal
