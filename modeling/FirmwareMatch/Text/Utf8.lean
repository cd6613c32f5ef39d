/-
  Reading bytes as UTF-8.

  The bytes are read one by one. A sequence that breaks off, or a byte that starts none, gives a
  defect for the longest stretch that could still have become a character; reading goes on with
  the byte that did not fit.
-/

namespace FirmwareMatch.Text

/-- A character that has been started: how many bytes it still takes, the range of the next one,
and the bits so far. -/
structure Partial where
  missing : Nat
  low : UInt8
  high : UInt8
  bits : Nat

/-- What has been read: characters and defects, backwards, and a character that has been
started. -/
structure Utf8Reader where
  units : List (Option Char)
  started : Option Partial

namespace Utf8Reader

/-- Takes a byte where a character may start. The ranges of the second byte leave out overlong
forms, surrogates and what lies beyond the last code point. -/
def first (units : List (Option Char)) (b : UInt8) : Utf8Reader :=
  let n := b.toNat
  let start (missing : Nat) (low high : UInt8) (bits : Nat) : Utf8Reader :=
    ⟨units, some ⟨missing, low, high, bits⟩⟩
  if n < 0x80 then ⟨some (Char.ofNat n) :: units, none⟩
  else if 0xC2 ≤ n && n ≤ 0xDF then start 1 0x80 0xBF (n - 0xC0)
  else if n == 0xE0 then start 2 0xA0 0xBF 0
  else if n == 0xED then start 2 0x80 0x9F 0xD
  else if 0xE1 ≤ n && n ≤ 0xEF then start 2 0x80 0xBF (n - 0xE0)
  else if n == 0xF0 then start 3 0x90 0xBF 0
  else if 0xF1 ≤ n && n ≤ 0xF3 then start 3 0x80 0xBF (n - 0xF0)
  else if n == 0xF4 then start 3 0x80 0x8F 4
  else ⟨none :: units, none⟩

/-- Takes the next byte. -/
def step (r : Utf8Reader) (b : UInt8) : Utf8Reader :=
  match r.started with
  | none => first r.units b
  | some p =>
    if p.low ≤ b && b ≤ p.high then
      let bits := p.bits * 64 + (b.toNat - 0x80)
      if p.missing ≤ 1 then ⟨some (Char.ofNat bits) :: r.units, none⟩
      else ⟨r.units, some ⟨p.missing - 1, 0x80, 0xBF, bits⟩⟩
    else first (none :: r.units) b

/-- Everything that was read, in order; a character that breaks off at the end is a defect. -/
def finish (r : Utf8Reader) : List (Option Char) :=
  match r.started with
  | none => r.units.reverse
  | some _ => (none :: r.units).reverse

end Utf8Reader

/-- The characters and defects of a row of bytes. -/
def utf8Units (bytes : ByteArray) : List (Option Char) :=
  (bytes.data.toList.foldl Utf8Reader.step ⟨[], none⟩).finish

/-- The text of bytes that are UTF-8 throughout. -/
def decodeUtf8? (bytes : ByteArray) : Option String :=
  String.fromUTF8? bytes

/-- The text of any bytes: each defect becomes a replacement character. -/
def decodeUtf8Lossy (bytes : ByteArray) : String :=
  match decodeUtf8? bytes with
  | some s => s
  | none => String.ofList ((utf8Units bytes).map (·.getD '\uFFFD'))

/-- The characters before the first defect, and whether there is none. -/
def utf8Prefix (bytes : ByteArray) : List Char × Bool :=
  match decodeUtf8? bytes with
  | some s => (s.toList, true)
  | none => ((utf8Units bytes).takeWhile Option.isSome |>.filterMap id, false)

end FirmwareMatch.Text
