import FirmwareMatch.Fault

/-
  Confidence tiers: a similarity is high, medium or low after two thresholds.

  Main statement: thresholds are valid exactly when both lie between zero and one and the medium
  one is not above the high one.
-/

namespace FirmwareMatch

/-- How much a similarity is worth. -/
inductive Tier
  | high
  | medium
  | low
deriving DecidableEq, Repr

/-- The word for a tier. -/
def Tier.name : Tier → String
  | .high => "high"
  | .medium => "medium"
  | .low => "low"

/-- The similarities from which a match counts as high and as medium. -/
structure Thresholds where
  high : Float
  medium : Float
deriving Repr

namespace Thresholds

/-- The thresholds of a configuration that names none. -/
def standard : Thresholds :=
  ⟨0.5, 0.2⟩

/-- Whether a threshold lies between zero and one. -/
def inRange (x : Float) : Bool :=
  decide (0.0 ≤ x) && decide (x ≤ 1.0)

/-- What is wrong with the thresholds, if anything. -/
def fault? (t : Thresholds) : Option ConfigFault :=
  if !inRange t.high || !inRange t.medium then some (.thresholdRange t.high t.medium)
  else if t.high < t.medium then some (.thresholdOrder t.medium t.high)
  else none

theorem fault?_eq_none_iff (t : Thresholds) :
    t.fault? = none ↔ inRange t.high ∧ inRange t.medium ∧ ¬ t.high < t.medium := by
  unfold fault?
  cases inRange t.high <;> cases inRange t.medium <;> simp

/-- The tier of a similarity. What is not a number reaches no threshold. -/
def tier (t : Thresholds) (similarity : Float) : Tier :=
  if t.high ≤ similarity then .high
  else if t.medium ≤ similarity then .medium
  else .low

end Thresholds

end FirmwareMatch
