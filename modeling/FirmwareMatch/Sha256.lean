/-
  SHA-256 over byte arrays and its text form, 64 lowercase hexadecimal digits.

  The message is padded to whole blocks of 64 bytes; each block is spread over 64 words and
  folded into a state of eight words. All arithmetic is on 32-bit words, which wrap.
-/

namespace FirmwareMatch.Sha256

/-! ## State and constants -/

/-- The chaining value: eight words. -/
structure State where
  a : UInt32
  b : UInt32
  c : UInt32
  d : UInt32
  e : UInt32
  f : UInt32
  g : UInt32
  h : UInt32
deriving DecidableEq, Repr

/-- The first words of the fractional parts of the square roots of the first eight primes. -/
def initial : State :=
  ⟨0x6a09e667, 0xbb67ae85, 0x3c6ef372, 0xa54ff53a,
    0x510e527f, 0x9b05688c, 0x1f83d9ab, 0x5be0cd19⟩

/-- The first words of the fractional parts of the cube roots of the first 64 primes. -/
def roundConstants : Array UInt32 :=
  #[0x428a2f98, 0x71374491, 0xb5c0fbcf, 0xe9b5dba5, 0x3956c25b, 0x59f111f1,
   0x923f82a4, 0xab1c5ed5, 0xd807aa98, 0x12835b01, 0x243185be, 0x550c7dc3,
   0x72be5d74, 0x80deb1fe, 0x9bdc06a7, 0xc19bf174, 0xe49b69c1, 0xefbe4786,
   0x0fc19dc6, 0x240ca1cc, 0x2de92c6f, 0x4a7484aa, 0x5cb0a9dc, 0x76f988da,
   0x983e5152, 0xa831c66d, 0xb00327c8, 0xbf597fc7, 0xc6e00bf3, 0xd5a79147,
   0x06ca6351, 0x14292967, 0x27b70a85, 0x2e1b2138, 0x4d2c6dfc, 0x53380d13,
   0x650a7354, 0x766a0abb, 0x81c2c92e, 0x92722c85, 0xa2bfe8a1, 0xa81a664b,
   0xc24b8b70, 0xc76c51a3, 0xd192e819, 0xd6990624, 0xf40e3585, 0x106aa070,
   0x19a4c116, 0x1e376c08, 0x2748774c, 0x34b0bcb5, 0x391c0cb3, 0x4ed8aa4a,
   0x5b9cca4f, 0x682e6ff3, 0x748f82ee, 0x78a5636f, 0x84c87814, 0x8cc70208,
   0x90befffa, 0xa4506ceb, 0xbef9a3f7, 0xc67178f2]

theorem size_roundConstants : roundConstants.size = 64 := rfl

/-- Rotates a word to the right by `n` places, `0 < n < 32`. -/
def rotate (x : UInt32) (n : UInt32) : UInt32 :=
  (x >>> n) ||| (x <<< (32 - n))

/-! ## Padding -/

/-- The eight bytes of a 64-bit number, the highest first. -/
def lengthBytes (bits : Nat) : List UInt8 :=
  (List.range 8).map fun i => UInt8.ofNat (bits >>> (8 * (7 - i)))

/-- How many zero bytes stand between the end mark and the length of a message of `n` bytes. -/
def zeroCount (n : Nat) : Nat :=
  (119 - n % 64) % 64

/-- The message, the mark `0x80`, zeros, and the length in bits: whole blocks of 64 bytes. -/
def pad (message : ByteArray) : ByteArray :=
  let zeros := List.replicate (zeroCount message.size) 0
  message ++ ⟨(0x80 :: zeros ++ lengthBytes (8 * message.size)).toArray⟩

theorem length_lengthBytes (bits : Nat) : (lengthBytes bits).length = 8 := by
  simp [lengthBytes]

/-- The mark, the zeros and the length fill the last block. -/
theorem size_pad_mod (message : ByteArray) : (pad message).size % 64 = 0 := by
  have hsize : (pad message).size =
      message.size + ((0x80 :: List.replicate (zeroCount message.size) 0) ++
        lengthBytes (8 * message.size)).length :=
    ByteArray.size_append
  rw [hsize, List.length_append, List.length_cons, List.length_replicate, length_lengthBytes,
    zeroCount]
  omega

/-! ## Compression -/

/-- The word of four bytes that starts at `i`, the highest byte first. -/
def wordAt (bytes : ByteArray) (i : Nat) : UInt32 :=
  let byte (k : Nat) : UInt32 := (bytes.data.getD (i + k) 0).toUInt32
  (byte 0 <<< 24) ||| (byte 1 <<< 16) ||| (byte 2 <<< 8) ||| byte 3

/-- Appends the next word of a schedule of at least 16 words. -/
def extendSchedule (w : Array UInt32) : Array UInt32 :=
  let t := w.size
  let x := w.getD (t - 15) 0
  let y := w.getD (t - 2) 0
  let s0 := rotate x 7 ^^^ rotate x 18 ^^^ (x >>> 3)
  let s1 := rotate y 17 ^^^ rotate y 19 ^^^ (y >>> 10)
  w.push (w.getD (t - 16) 0 + s0 + w.getD (t - 7) 0 + s1)

/-- The 64 words of the block that starts at `i`. -/
def schedule (bytes : ByteArray) (i : Nat) : Array UInt32 :=
  let first := (Array.range 16).map fun k => wordAt bytes (i + 4 * k)
  Nat.fold 48 (fun _ _ w => extendSchedule w) first

/-- One round with the word `w` and the constant `k`. -/
def round (s : State) (w k : UInt32) : State :=
  let s1 := rotate s.e 6 ^^^ rotate s.e 11 ^^^ rotate s.e 25
  let choice := (s.e &&& s.f) ^^^ (~~~s.e &&& s.g)
  let t1 := s.h + s1 + choice + k + w
  let s0 := rotate s.a 2 ^^^ rotate s.a 13 ^^^ rotate s.a 22
  let majority := (s.a &&& s.b) ^^^ (s.a &&& s.c) ^^^ (s.b &&& s.c)
  ⟨t1 + (s0 + majority), s.a, s.b, s.c, s.d + t1, s.e, s.f, s.g⟩

/-- Folds the block that starts at `i` into the state. -/
def compress (bytes : ByteArray) (s : State) (i : Nat) : State :=
  let w := schedule bytes i
  let t := Nat.fold 64 (fun k _ t => round t (w.getD k 0) (roundConstants.getD k 0)) s
  ⟨s.a + t.a, s.b + t.b, s.c + t.c, s.d + t.d, s.e + t.e, s.f + t.f, s.g + t.g, s.h + t.h⟩

/-- The state after all blocks of the padded message. -/
def hash (message : ByteArray) : State :=
  let padded := pad message
  Nat.fold (padded.size / 64) (fun k _ s => compress padded s (64 * k)) initial

/-! ## Text form -/

/-- The digit of a value below 16; lowercase from ten on. -/
def hexDigit (n : Nat) : Char :=
  if n < 10 then Char.ofNat (48 + n) else Char.ofNat (87 + n)

/-- The eight hexadecimal digits of a word. -/
def hexWord (w : UInt32) : List Char :=
  (List.range 8).map fun i => hexDigit ((w.toNat >>> (4 * (7 - i))) % 16)

theorem length_hexWord (w : UInt32) : (hexWord w).length = 8 := by
  simp [hexWord]

/-- The digits of a state, word by word. -/
def State.hex (s : State) : List Char :=
  [s.a, s.b, s.c, s.d, s.e, s.f, s.g, s.h].flatMap hexWord

/-- A digest has 64 digits. -/
theorem length_hex (s : State) : s.hex.length = 64 := by
  simp [State.hex, length_hexWord]

/-- The digest of a message as 64 lowercase hexadecimal digits. -/
def hexDigest (message : ByteArray) : String :=
  String.ofList (hash message).hex

end FirmwareMatch.Sha256
