/-
  The value of a double taken apart: a sign and a significand times a power of two, or no number.
-/

namespace FirmwareMatch.Decimal

/-- The size of a finite double: `significand · 2 ^ exponent`. -/
structure Magnitude where
  significand : Nat
  exponent : Int
  /-- Whether the next smaller double is only half as far away as the next larger one. -/
  closeBelow : Bool
deriving DecidableEq, Repr

/-- What a double stands for. -/
inductive Binary
  | notANumber
  | infinite (negative : Bool)
  | finite (negative : Bool) (size : Magnitude)
deriving DecidableEq, Repr

/-- The number of fractions, which is also the highest bit of a significand that is not written
out. -/
def fractionCount : Nat :=
  1 <<< 52

/-- The value that 64 bits encode: a sign bit, eleven bits of exponent and 52 bits of fraction. -/
def Binary.ofBits (bits : UInt64) : Binary :=
  let negative := bits.toNat >>> 63 == 1
  let field : Nat := bits.toNat / fractionCount % 2048
  let fraction : Nat := bits.toNat % fractionCount
  if field == 2047 then
    if fraction == 0 then .infinite negative else .notANumber
  else if field == 0 then .finite negative ⟨fraction, -1074, false⟩
  else .finite negative
    ⟨fraction + fractionCount, (field : Int) - 1075, fraction == 0 && field != 1⟩

/-- The value of a double. -/
def Binary.ofFloat (x : Float) : Binary :=
  .ofBits x.toBits

end FirmwareMatch.Decimal
