/-
  The double nearest to the quotient of two counts.

  The counts are not made doubles first, so nothing is rounded but the quotient. A count below
  `2 ^ 53` is a double, and for such counts this is the division of doubles.
-/

namespace FirmwareMatch.Decimal

open Float.Model

/-- A count as the operand of an operation on doubles, exactly. -/
def unrounded (n : Nat) : UnpackedFloat :=
  if h : n = 0 then .zero .positive else .finite .positive n 0 (Nat.pos_of_ne_zero h)

/-- The double nearest to `num / den`; of two equally near ones the even one. -/
def quotient (num den : Nat) : Float :=
  .ofModel (.pack (.div Format.binary64 (unrounded num) (unrounded den)))

end FirmwareMatch.Decimal
