import FirmwareMatch.Json.Basic
import FirmwareMatch.Text.Hex

/-
  Reading JSON texts.

  The reader takes exactly the grammar: blanks are space, tab, line feed and carriage return; a
  number has no leading zero and no lone point; control characters in a string must be escaped;
  nothing may follow the value. It runs on a supply of steps that the length of the text bounds.
-/

namespace FirmwareMatch.Json

/-! ## Blanks -/

/-- A blank of JSON. -/
def isSpace (c : Char) : Bool :=
  c == ' ' || c == '\t' || c == '\n' || c == '\r'

/-- What follows the blanks. -/
def skipSpace (cs : List Char) : List Char :=
  cs.dropWhile isSpace

/-! ## Strings -/

/-- The character behind a backslash. -/
def unescapeLetter? (c : Char) : Option Char :=
  if c == '"' || c == '\\' || c == '/' then some c
  else if c == 'b' then some '\x08'
  else if c == 'f' then some '\x0c'
  else if c == 'n' then some '\n'
  else if c == 'r' then some '\r'
  else if c == 't' then some '\t'
  else none

/-- The upper half of a surrogate pair. -/
def isHighSurrogate (n : Nat) : Bool :=
  0xD800 ≤ n && n < 0xDC00

/-- The lower half of a surrogate pair. -/
def isLowSurrogate (n : Nat) : Bool :=
  0xDC00 ≤ n && n < 0xE000

/-- The part of a string that has been read. -/
structure Pending where
  /-- The characters so far, backwards; nothing if a half stood alone. -/
  text : Option (List Char)
  /-- An upper half that waits for its lower half. -/
  high : Option Nat

/-- Before the first character. -/
def Pending.start : Pending :=
  ⟨some [], none⟩

/-- An upper half that waits is left alone. -/
def Pending.settle (p : Pending) : Option (List Char) :=
  if p.high.isSome then none else p.text

/-- Takes a character. -/
def Pending.char (p : Pending) (c : Char) : Pending :=
  ⟨p.settle.map (c :: ·), none⟩

/-- Takes the unit of an escape of four digits. -/
def Pending.unit (p : Pending) (n : Nat) : Pending :=
  match p.high with
  | some h =>
    if isLowSurrogate n then
      ⟨p.text.map (Char.ofNat (0x10000 + (h - 0xD800) * 0x400 + (n - 0xDC00)) :: ·), none⟩
    else ⟨none, none⟩
  | none =>
    if isHighSurrogate n then ⟨p.text, some n⟩
    else if isLowSurrogate n then ⟨none, none⟩
    else ⟨p.text.map (Char.ofNat n :: ·), none⟩

/-- The rest of a string behind its opening quote, and what follows the closing one. -/
def readString (p : Pending) : List Char → Option (Text × List Char)
  | '"' :: cs => some (p.settle.map fun t => String.ofList t.reverse, cs)
  | '\\' :: 'u' :: a :: b :: c :: d :: cs =>
    if Text.isHex [a, b, c, d] then readString (p.unit (Text.hexNat [a, b, c, d])) cs else none
  | '\\' :: c :: cs =>
    match unescapeLetter? c with
    | some e => readString (p.char e) cs
    | none => none
  | c :: cs => if c == '\\' || c.toNat < 0x20 then none else readString (p.char c) cs
  | [] => none

/-! ## Numbers -/

/-- The digits at the start and what follows them. -/
def spanDigits (cs : List Char) : List Char × List Char :=
  (cs.takeWhile Char.isDigit, cs.dropWhile Char.isDigit)

/-- The digits behind a point, if there is one. -/
def readFraction : List Char → Option (List Char × List Char)
  | '.' :: cs =>
    let (digits, rest) := spanDigits cs
    if digits.isEmpty then none else some (digits, rest)
  | cs => some ([], cs)

/-- The sign of an exponent: whether it is negative. -/
def readSign : List Char → Bool × List Char
  | '+' :: cs => (false, cs)
  | '-' :: cs => (true, cs)
  | cs => (false, cs)

/-- The exponent, if there is one. -/
def readExponent : List Char → Option (Option Int × List Char)
  | c :: cs =>
    if c == 'e' || c == 'E' then
      let (negative, cs) := readSign cs
      let (digits, rest) := spanDigits cs
      if digits.isEmpty then none
      else
        let n : Int := Nat.ofDigitChars 10 digits 0
        some (some (if negative then -n else n), rest)
    else some (none, c :: cs)
  | [] => some (none, [])

/-- A number without its sign. -/
def readUnsigned (negative : Bool) (cs : List Char) : Option (Numeral × List Char) :=
  let (whole, rest) := spanDigits cs
  if whole.isEmpty || (whole.head? == some '0' && whole.length != 1) then none
  else
    (readFraction rest).bind fun (fraction, rest) =>
      (readExponent rest).map fun (exponent, rest) =>
        (⟨negative, Nat.ofDigitChars 10 (whole ++ fraction) 0, fraction.length, exponent⟩, rest)

/-- A number. -/
def readNumber : List Char → Option (Numeral × List Char)
  | '-' :: cs => readUnsigned true cs
  | cs => readUnsigned false cs

/-! ## Values -/

/-- What follows `word` if the text starts with it. -/
def expect (word cs : List Char) : Option (List Char) :=
  if word.isPrefixOf cs then some (cs.drop word.length) else none

mutual

/-- A value and what follows it. -/
def readValue (fuel : Nat) (cs : List Char) : Option (Json × List Char) :=
  match fuel with
  | 0 => none
  | fuel + 1 =>
    match skipSpace cs with
    | [] => none
    | '[' :: rest =>
      match skipSpace rest with
      | ']' :: rest => some (.array [], rest)
      | rest => readItems fuel [] rest
    | '\x7b' :: rest =>
      match skipSpace rest with
      | '\x7d' :: rest => some (.object [], rest)
      | rest => readMembers fuel [] rest
    | '"' :: rest => (readString .start rest).map fun (s, rest) => (.string s, rest)
    | 'n' :: rest => (expect "ull".toList rest).map fun rest => (.null, rest)
    | 't' :: rest => (expect "rue".toList rest).map fun rest => (.bool true, rest)
    | 'f' :: rest => (expect "alse".toList rest).map fun rest => (.bool false, rest)
    | rest => (readNumber rest).map fun (n, rest) => (.number n, rest)

/-- The items of an array from the next one on; `done` are the earlier ones, backwards. -/
def readItems (fuel : Nat) (done : List Json) (cs : List Char) : Option (Json × List Char) :=
  match fuel with
  | 0 => none
  | fuel + 1 =>
    match readValue fuel cs with
    | none => none
    | some (v, rest) =>
      match skipSpace rest with
      | ',' :: rest => readItems fuel (v :: done) rest
      | ']' :: rest => some (.array (v :: done).reverse, rest)
      | _ => none

/-- The members of an object from the next one on; `done` are the earlier ones, backwards. -/
def readMembers (fuel : Nat) (done : List (Text × Json)) (cs : List Char) :
    Option (Json × List Char) :=
  match fuel with
  | 0 => none
  | fuel + 1 =>
    match skipSpace cs with
    | '"' :: rest =>
      match readString .start rest with
      | none => none
      | some (name, rest) =>
        match skipSpace rest with
        | ':' :: rest =>
          match readValue fuel rest with
          | none => none
          | some (v, rest) =>
            match skipSpace rest with
            | ',' :: rest => readMembers fuel ((name, v) :: done) rest
            | '\x7d' :: rest => some (.object ((name, v) :: done).reverse, rest)
            | _ => none
        | _ => none
    | _ => none

end

/-- The value that a text is, if it is one. -/
def parseChars? (cs : List Char) : Option Json :=
  match readValue (2 * cs.length + 2) cs with
  | some (v, rest) => if (skipSpace rest).isEmpty then some v else none
  | none => none

/-- The value that a text is, if it is one. -/
def parse? (text : String) : Option Json :=
  parseChars? text.toList

end FirmwareMatch.Json
