/-
  Hexadecimal numbers: digits of either case, their value, and numbers of 64 bits.

  Main statement: a number has a value exactly when it is not empty and all its characters are
  digits.
-/

namespace FirmwareMatch.Text

/-- A hexadecimal digit of ASCII, in either case. -/
def isHexDigit (c : Char) : Bool :=
  ('0' ≤ c && c ≤ '9') || ('a' ≤ c && c ≤ 'f') || ('A' ≤ c && c ≤ 'F')

/-- The value of a hexadecimal digit; other characters count as zero. -/
def hexValue (c : Char) : Nat :=
  if '0' ≤ c && c ≤ '9' then c.toNat - 48
  else if 'a' ≤ c && c ≤ 'f' then c.toNat - 87
  else if 'A' ≤ c && c ≤ 'F' then c.toNat - 55
  else 0

/-- A hexadecimal number: at least one digit and nothing else. -/
def isHex (cs : List Char) : Bool :=
  !cs.isEmpty && cs.all isHexDigit

/-- The value of a row of digits, the highest first. -/
def hexNat (cs : List Char) : Nat :=
  cs.foldl (fun n c => 16 * n + hexValue c) 0

/-- The value of a hexadecimal number. -/
def readHex? (cs : List Char) : Option Nat :=
  if isHex cs then some (hexNat cs) else none

theorem isSome_readHex? (cs : List Char) : (readHex? cs).isSome = isHex cs := by
  unfold readHex?; split <;> simp_all

/-- The value of a hexadecimal number that fits into 64 bits. -/
def readHex64? (cs : List Char) : Option UInt64 :=
  match readHex? cs with
  | some n => if n < UInt64.size then some (UInt64.ofNat n) else none
  | none => none

/-- A value of 64 bits is read back from every number that has it. -/
theorem readHex64?_of_hexNat {cs : List Char} {a : UInt64} (hhex : isHex cs)
    (hvalue : hexNat cs = a.toNat) : readHex64? cs = some a := by
  have hread : readHex? cs = some (hexNat cs) := if_pos hhex
  have hlt : hexNat cs < UInt64.size := hvalue ▸ a.toNat_lt_size
  unfold readHex64?
  rw [hread]
  dsimp only
  rw [if_pos hlt, hvalue, UInt64.ofNat_toNat]

end FirmwareMatch.Text
