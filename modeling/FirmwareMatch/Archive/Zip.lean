import FirmwareMatch.Archive.Crc32
import FirmwareMatch.Archive.Inflate
import FirmwareMatch.Disk.Volume
import FirmwareMatch.Text.Utf8

/-
  Zip archives: finding the directory at the end, reading the files it lists, and unpacking them
  into a tree.

  Files may be stored or compressed with DEFLATE. An archive is broken, as a whole, if its
  directory cannot be read, if a name would lead out of the place where it is unpacked, or if a
  file does not have the checksum it is listed with.

  A link is unpacked as a file that holds where it leads. Permissions, names in extra fields and
  the long form of the directory are not read.
-/

namespace FirmwareMatch.Zip

open Text

/-! ## Numbers -/

/-- The byte at an offset. -/
def byteAt? (bytes : ByteArray) (i : Nat) : Option Nat :=
  bytes[i]?.map UInt8.toNat

/-- The number of `n` bytes at an offset, the lowest first. -/
def numberAt? (bytes : ByteArray) (i : Nat) : Nat → Option Nat
  | 0 => some 0
  | n + 1 => do
    let low ← byteAt? bytes i
    let high ← numberAt? bytes (i + 1) n
    return low + 256 * high

/-- The bytes from an offset on, if there are so many. -/
def sliceAt? (bytes : ByteArray) (i n : Nat) : Option ByteArray :=
  if i + n ≤ bytes.size then some (bytes.extract i (i + n)) else none

/-! ## The directory -/

/-- What the end record says: where it stands, how many files there are, and the size and the
offset of the directory. -/
structure EndRecord where
  position : Nat
  count : Nat
  size : Nat
  offset : Nat

/-- The end record at an offset. -/
def endRecordAt? (bytes : ByteArray) (i : Nat) : Option EndRecord := do
  guard ((← numberAt? bytes i 4) == 0x06054b50)
  let comment ← numberAt? bytes (i + 20) 2
  guard (i + 22 + comment ≤ bytes.size)
  guard ((← numberAt? bytes (i + 4) 2) == (← numberAt? bytes (i + 6) 2))
  return ⟨i, ← numberAt? bytes (i + 10) 2, ← numberAt? bytes (i + 12) 4,
    ← numberAt? bytes (i + 16) 4⟩

/-- One file as the directory lists it. -/
structure Listed where
  flags : Nat
  method : Nat
  checksum : Nat
  packedSize : Nat
  name : String
  /-- The offset of the file's own header from the start of the archive. -/
  header : Nat

/-- The upper half of the character set in which names stand that are not marked as UTF-8. -/
def upperHalf : String :=
  "\u00c7\u00fc\u00e9\u00e2\u00e4\u00e0\u00e5\u00e7\u00ea\u00eb\u00e8\u00ef\u00ee\u00ec\u00c4\u00c5" ++
   "\u00c9\u00e6\u00c6\u00f4\u00f6\u00f2\u00fb\u00f9\u00ff\u00d6\u00dc\u00a2\u00a3\u00a5\u20a7\u0192" ++
   "\u00e1\u00ed\u00f3\u00fa\u00f1\u00d1\u00aa\u00ba\u00bf\u2310\u00ac\u00bd\u00bc\u00a1\u00ab\u00bb" ++
   "\u2591\u2592\u2593\u2502\u2524\u2561\u2562\u2556\u2555\u2563\u2551\u2557\u255d\u255c\u255b\u2510" ++
   "\u2514\u2534\u252c\u251c\u2500\u253c\u255e\u255f\u255a\u2554\u2569\u2566\u2560\u2550\u256c\u2567" ++
   "\u2568\u2564\u2565\u2559\u2558\u2552\u2553\u256b\u256a\u2518\u250c\u2588\u2584\u258c\u2590\u2580" ++
   "\u03b1\u00df\u0393\u03c0\u03a3\u03c3\u00b5\u03c4\u03a6\u0398\u03a9\u03b4\u221e\u03c6\u03b5\u2229" ++
   "\u2261\u00b1\u2265\u2264\u2320\u2321\u00f7\u2248\u00b0\u2219\u00b7\u221a\u207f\u00b2\u25a0\u00a0"

/-- The text of a name that is not marked as UTF-8. -/
def legacyName (bytes : ByteArray) : String :=
  let upper := upperHalf.toList
  String.ofList <| bytes.data.toList.map fun b =>
    if b < 128 then Char.ofNat b.toNat else upper.getD (b.toNat - 128) '?'

/-- The file listed at an offset, and the offset behind it. -/
def listedAt? (bytes : ByteArray) (i : Nat) : Option (Listed × Nat) := do
  guard ((← numberAt? bytes i 4) == 0x02014b50)
  let flags ← numberAt? bytes (i + 8) 2
  let nameSize ← numberAt? bytes (i + 28) 2
  let extraSize ← numberAt? bytes (i + 30) 2
  let commentSize ← numberAt? bytes (i + 32) 2
  let name ← sliceAt? bytes (i + 46) nameSize
  let stop := i + 46 + nameSize + extraSize + commentSize
  guard (stop ≤ bytes.size)
  return (
    { flags
      method := ← numberAt? bytes (i + 10) 2
      checksum := ← numberAt? bytes (i + 16) 4
      packedSize := ← numberAt? bytes (i + 20) 4
      name := if flags / 2048 % 2 == 1 then decodeUtf8Lossy name else legacyName name
      header := ← numberAt? bytes (i + 42) 4 },
    stop)

/-- The next `count` listed files. -/
def listedFrom? (bytes : ByteArray) (i : Nat) : Nat → Option (List Listed)
  | 0 => some []
  | count + 1 => do
    let (f, next) ← listedAt? bytes i
    return f :: (← listedFrom? bytes next count)

/-- The files that the directory of an end record lists. Bytes in front of the archive shift all
its offsets. -/
def directoryOf? (bytes : ByteArray) (e : EndRecord) : Option (List Listed) := do
  guard (e.size + e.offset ≤ e.position)
  let shift := e.position - e.size - e.offset
  let files ← listedFrom? bytes (e.offset + shift) e.count
  return files.map fun f => { f with header := f.header + shift }

/-- The files of an archive, after the last end record that has a directory. -/
def directory? (bytes : ByteArray) : Option (List Listed) :=
  (List.range bytes.size).reverse.findSome? fun i =>
    if byteAt? bytes i == some 0x50 then (endRecordAt? bytes i).bind (directoryOf? bytes) else none

/-! ## Files -/

/-- The bytes of a listed file. -/
def contents? (bytes : ByteArray) (f : Listed) : Option ByteArray := do
  guard (f.flags % 2 == 0)
  guard ((← numberAt? bytes f.header 4) == 0x04034b50)
  let nameSize ← numberAt? bytes (f.header + 26) 2
  let extraSize ← numberAt? bytes (f.header + 28) 2
  let packed ← sliceAt? bytes (f.header + 30 + nameSize + extraSize) f.packedSize
  let plain ←
    if f.method == 0 then some packed
    else if f.method == 8 then Inflate.inflate? packed
    else none
  guard ((Crc32.checksum plain).toNat == f.checksum)
  return plain

/-! ## Unpacking -/

/-- Whether a name stays inside the place where it is unpacked: it is not absolute and `..` never
leads above that place. -/
def staysInside (name : String) : Bool :=
  let depth := (Path.mk name).steps.foldlM
    (fun (n : Nat) s => if s == ".." then (if n == 0 then none else some (n - 1)) else some (n + 1))
    0
  !name.toList.contains '\x00' && !(Path.mk name).isAbsolute && depth.isSome

/-- Whether a name is that of a directory. -/
def namesDirectory (name : String) : Bool :=
  name.toList.getLast? == some '/' || name.toList.getLast? == some '\\'

/-- A volume with nothing in it. -/
def emptyVolume : Volume :=
  ⟨.directory [], []⟩

/-- Unpacks one file. -/
def unpackFile? (bytes : ByteArray) (v : Volume) (f : Listed) : Option Volume := do
  let plain ← contents? bytes f
  guard (staysInside f.name)
  let path := Path.mk ("/" ++ f.name)
  let makeAll (v : Volume) (p : Path) := v.makeDirectories? (p.steps.length + 2) p
  if namesDirectory f.name then makeAll v path
  else
    let v ← makeAll v ((Volume.above? path).getD ⟨"/"⟩)
    v.write? path plain

/-- The tree of files in an archive; nothing if the archive is broken. -/
def unpack? (bytes : ByteArray) : Option (FileTree ByteArray) := do
  let files ← directory? bytes
  let v ← files.foldlM (unpackFile? bytes) emptyVolume
  return v.root

end FirmwareMatch.Zip
