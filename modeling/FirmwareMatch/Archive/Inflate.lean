/-
  Decompression of DEFLATE streams.

  A stream is a row of blocks: stored bytes, or symbols in a canonical prefix code that is fixed or
  described at the start of the block. A symbol is a byte, the end of the block, or the length of a
  copy from earlier output. Bits are taken from each byte lowest first.
-/

namespace FirmwareMatch.Inflate

/-! ## Bits -/

/-- A stream that is being read: its bytes, the number of bits taken, and the output. -/
structure Stream where
  bytes : ByteArray
  taken : Nat
  output : ByteArray

/-- A step of reading; nothing if the stream is broken. -/
abbrev Reading := StateT Stream Option

/-- The next bit. -/
def bit : Reading Nat := do
  let s ← get
  match s.bytes[s.taken / 8]? with
  | none => failure
  | some b =>
    set { s with taken := s.taken + 1 }
    return (b.toNat >>> (s.taken % 8)) % 2

/-- The number that the next `n` bits make, the lowest first. -/
def bits : Nat → Reading Nat
  | 0 => return 0
  | n + 1 => do
    let low ← bit
    let high ← bits n
    return low + 2 * high

/-- Passes over the rest of a byte. -/
def alignToByte : Reading PUnit :=
  modify fun s => { s with taken := (s.taken + 7) / 8 * 8 }

/-- Appends a byte to the output. -/
def emit (b : UInt8) : Reading PUnit :=
  modify fun s => { s with output := s.output.push b }

/-! ## Prefix codes -/

/-- A canonical prefix code: how many codewords each length has, from length one on, and the
symbols in the order of their codewords. -/
structure PrefixCode where
  counts : List Nat
  symbols : Array Nat

/-- How many codewords could still be added, in units of the longest ones; nothing if there are
too many already. -/
def slack (counts : List Nat) : Option Nat :=
  counts.foldlM (fun left n => if n ≤ 2 * left then some (2 * left - n) else none) 1

/-- The code in which the symbol `i` has a codeword of length `lengths[i]`; length zero means that
it has none. A code that could take further codewords is broken unless it has at most one. -/
def PrefixCode.ofLengths? (lengths : List Nat) : Option PrefixCode :=
  let counts := (List.range' 1 15).map fun n => lengths.count n
  let symbols := (List.range' 1 15).flatMap fun n =>
    (lengths.zipIdx.filter fun (l, _) => l == n).map Prod.snd
  match slack counts with
  | none => none
  | some left => if left == 0 || symbols.length ≤ 1 then some ⟨counts, symbols.toArray⟩ else none

/-- Reads on in a codeword whose bits so far make `code`, when the first codeword of this length
is `first` and its symbol has the index `index`. -/
def symbolFrom (symbols : Array Nat) (code first index : Nat) : List Nat → Reading Nat
  | [] => failure
  | count :: counts => do
    let code := code + (← bit)
    if code < first + count then
      match symbols[index + (code - first)]? with
      | some s => return s
      | none => failure
    else symbolFrom symbols (2 * code) (2 * (first + count)) (index + count) counts

/-- The next symbol. -/
def PrefixCode.symbol (c : PrefixCode) : Reading Nat :=
  symbolFrom c.symbols 0 0 0 c.counts

/-! ## Copies -/

/-- The shortest copy of each length symbol, from 257 on, and its number of further bits. -/
def lengthRows : List (Nat × Nat) :=
  [(3, 0), (4, 0), (5, 0), (6, 0), (7, 0), (8, 0), (9, 0), (10, 0), (11, 1), (13, 1), (15, 1),
   (17, 1), (19, 2), (23, 2), (27, 2), (31, 2), (35, 3), (43, 3), (51, 3), (59, 3), (67, 4),
   (83, 4), (99, 4), (115, 4), (131, 5), (163, 5), (195, 5), (227, 5), (258, 0)]

/-- The shortest distance of each distance symbol and its number of further bits. -/
def distanceRows : List (Nat × Nat) :=
  [(1, 0), (2, 0), (3, 0), (4, 0), (5, 1), (7, 1), (9, 2), (13, 2), (17, 3), (25, 3), (33, 4),
   (49, 4), (65, 5), (97, 5), (129, 6), (193, 6), (257, 7), (385, 7), (513, 8), (769, 8),
   (1025, 9), (1537, 9), (2049, 10), (3073, 10), (4097, 11), (6145, 11), (8193, 12), (12289, 12),
   (16385, 13), (24577, 13)]

/-- The number that a row and its further bits make. -/
def rowValue (rows : List (Nat × Nat)) (i : Nat) : Reading Nat :=
  match rows[i]? with
  | some (base, extra) => return base + (← bits extra)
  | none => failure

/-- Copies bytes from `distance` back in the output; a copy may run into itself. -/
def copy (distance : Nat) : Nat → Reading PUnit
  | 0 => return ⟨⟩
  | n + 1 => do
    let out := (← get).output
    if distance ≤ out.size then
      match out[out.size - distance]? with
      | some b => emit b; copy distance n
      | none => failure
    else failure

/-! ## Blocks -/

/-- Takes `n` stored bytes. -/
def stored : Nat → Reading PUnit
  | 0 => return ⟨⟩
  | n + 1 => do emit (UInt8.ofNat (← bits 8)); stored n

/-- A block of stored bytes; its length is given twice, once with all bits turned over. -/
def storedBlock : Reading PUnit := do
  alignToByte
  let length ← bits 16
  let inverse ← bits 16
  if length + inverse == 0xFFFF then stored length else failure

/-- Takes symbols up to the end of the block, at most `fuel` of them. -/
def symbolBlock (literals distances : PrefixCode) : Nat → Reading PUnit
  | 0 => failure
  | fuel + 1 => do
    let s ← literals.symbol
    if s < 256 then
      emit (UInt8.ofNat s)
      symbolBlock literals distances fuel
    else if s == 256 then return ⟨⟩
    else
      let length ← rowValue lengthRows (s - 257)
      let distance ← rowValue distanceRows (← distances.symbol)
      copy distance length
      symbolBlock literals distances fuel

/-- The code of a block that describes none, for literals and lengths. -/
def fixedLiterals : List Nat :=
  List.replicate 144 8 ++ List.replicate 112 9 ++ List.replicate 24 7 ++ List.replicate 8 8

/-- The order in which the lengths of the code for lengths are given. -/
def lengthOrder : List Nat :=
  [16, 17, 18, 0, 8, 7, 9, 6, 10, 5, 11, 4, 12, 3, 13, 2, 14, 1, 15]

/-- Takes `count` codeword lengths behind those in `done`, which is backwards. The symbols from 16
on repeat the last length or zero. -/
def codeLengths (code : PrefixCode) (count : Nat) : Nat → List Nat → Reading (List Nat)
  | 0, _ => failure
  | fuel + 1, done =>
    if count ≤ done.length then
      if done.length == count then return done.reverse else failure
    else do
      let s ← code.symbol
      if s < 16 then codeLengths code count fuel (s :: done)
      else if s == 16 then
        match done with
        | [] => failure
        | last :: _ =>
          let n := 3 + (← bits 2)
          codeLengths code count fuel (List.replicate n last ++ done)
      else
        let (base, extra) := if s == 17 then (3, 3) else (11, 7)
        let n := base + (← bits extra)
        codeLengths code count fuel (List.replicate n 0 ++ done)

/-- The code of the given lengths, or a broken stream. -/
def codeOf (lengths : List Nat) : Reading PrefixCode :=
  match PrefixCode.ofLengths? lengths with
  | some c => return c
  | none => failure

/-- The codes that a block describes. -/
def describedCodes : Reading (PrefixCode × PrefixCode) := do
  let literalCount := 257 + (← bits 5)
  let distanceCount := 1 + (← bits 5)
  let lengthCount := 4 + (← bits 4)
  let given ← (List.range lengthCount).mapM fun _ => bits 3
  let places := lengthOrder.zip given
  let code ← codeOf ((List.range 19).map fun i => (places.lookup i).getD 0)
  let lengths ← codeLengths code (literalCount + distanceCount) 400 []
  return (← codeOf (lengths.take literalCount), ← codeOf (lengths.drop literalCount))

/-- Takes one block; the answer tells whether it was the last. -/
def block (fuel : Nat) : Reading Bool := do
  let last := (← bit) == 1
  match ← bits 2 with
  | 0 => storedBlock
  | 1 => symbolBlock (← codeOf fixedLiterals) ⟨[0, 0, 0, 0, 30], (List.range 30).toArray⟩ fuel
  | 2 =>
    let (literals, distances) ← describedCodes
    symbolBlock literals distances fuel
  | _ => failure
  return last

/-- Takes blocks up to the last, at most `fuel` of them. -/
def blocks (symbolFuel : Nat) : Nat → Reading PUnit
  | 0 => failure
  | fuel + 1 => do if ← block symbolFuel then return ⟨⟩ else blocks symbolFuel fuel

/-- The bytes that a stream stands for, if it is whole. Every block and every symbol takes at least
one bit. -/
def inflate? (bytes : ByteArray) : Option ByteArray :=
  let fuel := 8 * bytes.size + 1
  ((blocks fuel fuel).run ⟨bytes, 0, .empty⟩).map fun (_, s) => s.output

end FirmwareMatch.Inflate
