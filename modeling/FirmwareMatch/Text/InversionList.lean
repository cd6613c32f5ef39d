/-
  Sets of characters as inversion lists: the sorted code points at which membership changes,
  starting with the first member.
-/

namespace FirmwareMatch.Text

/-- Whether a sorted inversion list has `n` as a member: an odd number of changes lie at or below
it. -/
def inInversionList (changes : List Nat) (n : Nat) : Bool :=
  (changes.takeWhile (· ≤ n)).length % 2 == 1

end FirmwareMatch.Text
