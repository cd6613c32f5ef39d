import FirmwareMatch.Csv.Printer
import FirmwareMatch.Disk.Access

/-
  Writing comma-separated records into a file.

  The file is made first. What is printed is collected in a buffer, byte by byte, but a quote that is
  written twice is kept together. Bytes that do not fit send the buffer to the disk; what it holds at
  the end goes there when the writer is flushed. Up to there a failure is one of the writer; if the
  flush fails, it is one of the file.

  Main statement: the portions that go to the disk make up the text of the records.
-/

namespace FirmwareMatch.Csv

/-! ## Bytes -/

/-- The bytes of characters. -/
def bytesOf (cs : List Char) : List UInt8 :=
  cs.flatMap String.utf8EncodeChar

/-- The bytes of characters, each on its own. -/
def singly (cs : List Char) : List (List UInt8) :=
  (bytesOf cs).map fun b => [b]

/-- The bytes of a field, as they go into the buffer. -/
def fieldBytes (field : List Char) : List (List UInt8) :=
  if field.any isSpecial then
    singly ['"'] ++ field.flatMap (fun c => if c == '"' then [bytesOf ['"', '"']] else singly [c]) ++
      singly ['"']
  else singly field

/-- The bytes of a record, as they go into the buffer. -/
def recordBytes (record : List String) : List (List UInt8) :=
  (singly [',']).intercalate (record.map fun f => fieldBytes f.toList) ++ singly ['\n']

theorem flatten_singly (cs : List Char) : (singly cs).flatten = bytesOf cs := by
  unfold singly
  induction bytesOf cs with
  | nil => rfl
  | cons b bs ih => rw [List.map_cons, List.flatten_cons, ih]; rfl

theorem bytesOf_append (cs ds : List Char) : bytesOf (cs ++ ds) = bytesOf cs ++ bytesOf ds :=
  List.flatMap_append

/-- What is joined may be taken apart before it is joined. -/
theorem flatMap_intercalate {α β : Type} (f : α → List β) (sep : List α) (xs : List (List α)) :
    (sep.intercalate xs).flatMap f = (sep.flatMap f).intercalate (xs.map (·.flatMap f)) := by
  match xs with
  | [] => rfl
  | [x] => simp [List.intercalate]
  | x :: y :: ys =>
    have ih := flatMap_intercalate f sep (y :: ys)
    simp only [List.intercalate, List.intersperse, List.map_cons, List.flatten_cons,
      List.flatMap_append] at ih ⊢
    rw [ih]

theorem flatten_intercalate {α : Type} (sep : List (List α)) (xs : List (List (List α))) :
    (sep.intercalate xs).flatten = sep.flatten.intercalate (xs.map List.flatten) := by
  simpa only [List.flatMap_id] using flatMap_intercalate id sep xs

theorem bytesOf_intercalate (sep : List Char) (xs : List (List Char)) :
    bytesOf (sep.intercalate xs) = (bytesOf sep).intercalate (xs.map bytesOf) :=
  flatMap_intercalate String.utf8EncodeChar sep xs

theorem flatten_fieldBytes (field : List Char) :
    (fieldBytes field).flatten = bytesOf (printField field) := by
  unfold fieldBytes printField
  split
  · have hquoted : ∀ cs : List Char,
        (cs.flatMap fun c => if c == '"' then [bytesOf ['"', '"']] else singly [c]).flatten =
          bytesOf (cs.flatMap fun c => if c == '"' then ['"', '"'] else [c]) := by
      intro cs
      induction cs with
      | nil => rfl
      | cons c cs ih =>
        rw [List.flatMap_cons, List.flatMap_cons, List.flatten_append, ih, bytesOf_append]
        split
        · simp
        · rw [flatten_singly]
    have hquote : quoteField field = ['"'] ++
        (field.flatMap fun c => if c == '"' then ['"', '"'] else [c]) ++ ['"'] := rfl
    rw [hquote, List.flatten_append, List.flatten_append, hquoted, flatten_singly, bytesOf_append,
      bytesOf_append]
  · exact flatten_singly field

theorem flatten_recordBytes (record : List String) :
    (recordBytes record).flatten = bytesOf (printRecord record) := by
  have hfields : record.map (fun f => (fieldBytes f.toList).flatten) =
      record.map fun f => bytesOf (printField f.toList) :=
    List.map_congr_left fun f _ => flatten_fieldBytes f.toList
  rw [recordBytes, printRecord, List.flatten_append, bytesOf_append, flatten_intercalate,
    bytesOf_intercalate, List.map_map, List.map_map, flatten_singly, flatten_singly]
  simp only [Function.comp_def, hfields]

theorem flatten_records (records : List (List String)) :
    (records.flatMap recordBytes).flatten = bytesOf (records.flatMap printRecord) := by
  induction records with
  | nil => rfl
  | cons r rs ih =>
    rw [List.flatMap_cons, List.flatMap_cons, List.flatten_append, bytesOf_append, ih,
      flatten_recordBytes]

/-! ## Portions -/

/-- How many bytes the buffer holds. -/
def bufferSize : Nat :=
  8192

/-- Collects bytes in a buffer, which goes to the disk when the next ones do not fit. -/
def collect (buffer : ByteArray) : List (List UInt8) → List ByteArray
  | [] => [buffer]
  | bytes :: rest =>
    if buffer.size + bytes.length ≤ bufferSize then collect (buffer ++ bytes.toByteArray) rest
    else buffer :: collect bytes.toByteArray rest

/-- What goes to the disk, the last portion when the writer is flushed. -/
def portions (path : Path) : List ByteArray → List Portion
  | [] => []
  | [last] => [⟨last, .io path⟩]
  | bytes :: rest => ⟨bytes, .csv⟩ :: portions path rest

/-- The portions of records. -/
def recordPortions (path : Path) (records : List (List String)) : List Portion :=
  portions path (collect .empty (records.flatMap recordBytes))

theorem joined_portions (path : Path) (parts : List ByteArray) (before : ByteArray) :
    Portion.joined before (portions path parts) = parts.foldl (· ++ ·) before := by
  match parts with
  | [] => rfl
  | [last] => rfl
  | bytes :: next :: rest => exact joined_portions path (next :: rest) (before ++ bytes)

/-- Nothing that is collected is lost. -/
theorem foldl_collect (chunks : List (List UInt8)) (buffer before : ByteArray) :
    (collect buffer chunks).foldl (· ++ ·) before =
      before ++ buffer ++ chunks.flatten.toByteArray := by
  induction chunks generalizing buffer before with
  | nil => simp [collect]
  | cons bytes rest ih =>
    rw [collect]
    split
    · rw [ih, List.flatten_cons, List.toByteArray_append, ByteArray.append_assoc,
        ByteArray.append_assoc, ByteArray.append_assoc]
    · rw [List.foldl_cons, ih, List.flatten_cons, List.toByteArray_append, ByteArray.append_assoc]

/-- The portions of records make up their text. -/
theorem joined_recordPortions (path : Path) (records : List (List String)) :
    Portion.joined .empty (recordPortions path records) = (print records).toUTF8 := by
  rw [recordPortions, joined_portions, foldl_collect, flatten_records, print]
  simp [bytesOf, String.toUTF8, List.utf8Encode]

variable {m : Type → Type} [Monad m] [Disk m]

/-- Writes records into the file at a path. -/
def writeRecords (path : Path) (records : List (List String)) : Access m PUnit := do
  Access.writePortion path ⟨.empty, .csv⟩
  Access.appendPortions path (recordPortions path records)

end FirmwareMatch.Csv
