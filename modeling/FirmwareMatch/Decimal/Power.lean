/-
  Powers of ten.
-/

namespace FirmwareMatch.Decimal

/-- One with `k` zeros behind it. -/
def tenTo (k : Nat) : Nat :=
  Nat.pow 10 k

@[simp] theorem tenTo_zero : tenTo 0 = 1 := rfl

theorem tenTo_succ (k : Nat) : tenTo (k + 1) = 10 * tenTo k :=
  Nat.mul_comm (tenTo k) 10

theorem tenTo_pos (k : Nat) : 0 < tenTo k := by
  induction k with
  | zero => exact Nat.one_pos
  | succ k ih => rw [tenTo_succ]; omega

end FirmwareMatch.Decimal
