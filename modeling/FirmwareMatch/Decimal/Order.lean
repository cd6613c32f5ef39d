/-
  The total order of doubles.

  Doubles without a sign are ordered as their bits are. Those with a sign stand before them, the
  other way round. So numbers stand in their order, the negative zero stands before the positive
  one, and what is no number stands at an end.

  Main statement: doubles at one place of the order are the same.
-/

namespace FirmwareMatch.Decimal

/-- The place of a double in the total order. -/
def orderKey (x : Float) : Int :=
  let bits : Int := x.toBits.toNat
  if bits < 0x8000000000000000 then bits else 0x7fffffffffffffff - bits

theorem orderKey_inj {x y : Float} : orderKey x = orderKey y ↔ x = y := by
  refine ⟨fun h => ?_, fun h => h ▸ rfl⟩
  have hbits : x.toBits.toNat = y.toBits.toNat := by
    unfold orderKey at h
    dsimp only at h
    split at h <;> split at h <;> omega
  obtain ⟨⟨b, hb⟩⟩ := x
  obtain ⟨⟨b', hb'⟩⟩ := y
  obtain rfl : b = b' := UInt64.toNat_inj.mp hbits
  rfl

end FirmwareMatch.Decimal
