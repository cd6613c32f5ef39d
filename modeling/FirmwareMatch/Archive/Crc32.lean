/-
  The checksum CRC-32 of archives: the remainder of the message by the polynomial `0xEDB88320`,
  with the bits of each byte taken lowest first.
-/

namespace FirmwareMatch.Crc32

/-- Divides one more bit out. -/
def shift (c : UInt32) : UInt32 :=
  if c &&& 1 == 1 then (c >>> 1) ^^^ 0xEDB88320 else c >>> 1

/-- The remainders of all single bytes. -/
def table : Array UInt32 :=
  (Array.range 256).map fun n => Nat.fold 8 (fun _ _ c => shift c) (UInt32.ofNat n)

/-- Takes the next byte. -/
def step (c : UInt32) (b : UInt8) : UInt32 :=
  table.getD ((c ^^^ b.toUInt32) &&& 0xFF).toNat 0 ^^^ (c >>> 8)

/-- The checksum of a row of bytes. -/
def checksum (bytes : ByteArray) : UInt32 :=
  bytes.foldl step 0xFFFFFFFF ^^^ 0xFFFFFFFF

end FirmwareMatch.Crc32
