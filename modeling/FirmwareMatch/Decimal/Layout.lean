import FirmwareMatch.Decimal.Rounding
import FirmwareMatch.Decimal.Shortest

/-
  Texts of doubles: all digits of the shortest decimal in positional notation, a fixed number of
  places, and the digits and exponent from which other notations are built.
-/

namespace FirmwareMatch.Decimal

/-- `n` as decimal digits. -/
def natText (n : Nat) : List Char :=
  Nat.toDigits 10 n

/-- `n` as at least `width` decimal digits, with zeros in front. -/
def paddedText (width n : Nat) : List Char :=
  let cs := natText n
  List.replicate (width - cs.length) '0' ++ cs

/-- `n / 10 ^ places` with exactly that many places; no point if there are none. -/
def fixedText (places n : Nat) : List Char :=
  let whole := natText (n / tenTo places)
  if places == 0 then whole
  else whole ++ '.' :: paddedText places (n % tenTo places)

/-- A decimal in positional notation, without a point if it is whole. -/
def Digits.positional (d : Digits) : List Char :=
  if 0 ≤ d.exponent then natText (d.digits * tenTo d.exponent.toNat)
  else fixedText (-d.exponent).toNat d.digits

/-- The sign of a negative number. -/
def signText (negative : Bool) : List Char :=
  if negative then ['-'] else []

/-- The text of a value that is no finite number. -/
def specialText? : Binary → Option (List Char)
  | .notANumber => some "NaN".toList
  | .infinite negative => some (signText negative ++ "inf".toList)
  | .finite .. => none

/-- The shortest decimal of a size; zero has one digit. -/
def Magnitude.shortest (size : Magnitude) : Digits :=
  if size.significand == 0 then ⟨0, 0⟩ else Decimal.shortest size

/-- The shortest text of a double that reads back, in positional notation: `0.5`, `1`, `-0`,
`0.0000001`, `NaN`, `-inf`. -/
def plainText (x : Float) : String :=
  String.ofList <|
    match Binary.ofFloat x with
    | .finite negative size => signText negative ++ size.shortest.positional
    | b => (specialText? b).getD []

/-- A size rounded to a number of places; the exact value decides, and the middle goes to the even
neighbour. -/
def Magnitude.rounded (places : Nat) (size : Magnitude) : Nat :=
  let r := Ratio.ofBinary size.significand size.exponent
  roundDiv (r.num * tenTo places) r.den

/-- A double with a fixed number of places. -/
def placesText (places : Nat) (x : Float) : String :=
  String.ofList <|
    match Binary.ofFloat x with
    | .finite negative size => signText negative ++ fixedText places (size.rounded places)
    | b => (specialText? b).getD []

end FirmwareMatch.Decimal
