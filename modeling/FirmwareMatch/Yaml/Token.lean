import FirmwareMatch.Yaml.Scalar

/-
  The tokens of a YAML text.

  Structure that the text only shows by indentation becomes visible: every collection has a start
  and, in blocks, an end. A key of one line is recognized only at the colon behind it, so its token
  is put in afterwards, in front of what it consists of.
-/

namespace FirmwareMatch.Yaml

/-- How a scalar is written. -/
inductive Style
  | plain
  | quoted
  | literal
  | folded
deriving DecidableEq, Repr

/-- The tokens. -/
inductive Token
  | version (major minor : Nat)
  | tagHandle (handle start : List Char)
  | documentStart
  | documentEnd
  | blockSequence
  | blockMapping
  | blockEnd
  | flowSequence
  | flowSequenceEnd
  | flowMapping
  | flowMappingEnd
  | blockEntry
  | flowEntry
  | key
  | value
  | alias (name : List Char)
  | anchor (name : List Char)
  | tag (handle suffix : List Char)
  | scalar (style : Style) (text : List Char)
deriving DecidableEq, Repr

/-- Something that will turn out to be a key if a colon follows on its line. -/
structure KeyCandidate where
  /-- Whether nothing else can stand here. -/
  required : Bool
  /-- How many tokens stand before it. -/
  place : Nat
  index : Nat
  line : Nat
  column : Nat

/-- What has been found so far. -/
structure Scanner where
  cursor : Cursor
  tokens : Array Token
  /-- The column of the innermost block collection; -1 at the top. -/
  indent : Int
  /-- The columns of the outer ones. -/
  outer : List Int
  /-- Whether a key may start here. -/
  keyAllowed : Bool
  /-- The candidates for a key, one place for every pair of brackets around. -/
  candidates : List (Option KeyCandidate)

/-- A step of scanning. -/
abbrev Scan := StateT Scanner Result

namespace Scan

/-! ## Parts of the state -/

/-- Whether the position lies between brackets. -/
def inFlow : Scan Bool := do
  return 1 < (← get).candidates.length

/-- Moves to a position. -/
def moveTo (c : Cursor) : Scan PUnit :=
  modify fun s => { s with cursor := c }

/-- Passes over `n` characters. -/
def skip (n : Nat) : Scan PUnit :=
  modify fun s => { s with cursor := s.cursor.skip n }

/-- Appends a token. -/
def add (t : Token) : Scan PUnit :=
  modify fun s => { s with tokens := s.tokens.push t }

/-- Puts a token in behind the first `place` ones. -/
def insert (place : Nat) (t : Token) : Scan PUnit :=
  modify fun s => { s with tokens := s.tokens.insertIdxIfInBounds place t }

/-- Says whether a key may start here. -/
def allowKey (allowed : Bool) : Scan PUnit :=
  modify fun s => { s with keyAllowed := allowed }

/-- Replaces the innermost candidate. -/
def setCandidate (k : Option KeyCandidate) : Scan PUnit :=
  modify fun s => { s with candidates := k :: s.candidates.drop 1 }

/-- The innermost candidate. -/
def candidate? : Scan (Option KeyCandidate) := do
  return (← get).candidates.headD none

/-! ## Candidates for keys -/

/-- Gives the innermost candidate up; it is an error if it had to be a key. -/
def dropCandidate : Scan PUnit := do
  match ← candidate? with
  | some k => if k.required then throw "a key lacks its colon"
  | none => pure ⟨⟩
  setCandidate none

/-- Notes that a key may start here. -/
def noteCandidate : Scan PUnit := do
  let s ← get
  if s.keyAllowed then
    let c := s.cursor
    let required := !(← inFlow) && s.indent == (c.column : Int)
    dropCandidate
    setCandidate (some ⟨required, s.tokens.size, c.index, c.line, c.column⟩)

/-- Whether a candidate is out of reach: a key has one line and at most 1024 characters. -/
def isStale (c : Cursor) (k : KeyCandidate) : Bool :=
  k.line < c.line || k.index + 1024 < c.index

/-- Gives up the candidates that are out of reach. -/
def dropStale : Scan PUnit := do
  let s ← get
  let stale (k : Option KeyCandidate) : Bool := k.any (isStale s.cursor)
  if s.candidates.any fun k => stale k && k.any (·.required) then throw "a key lacks its colon"
  set { s with candidates := s.candidates.map fun k => if stale k then none else k }

/-! ## Indentation -/

/-- Opens a block collection at a column, if the column lies right of the innermost one; its token
goes to a place if one is given. -/
def indentTo (column : Nat) (place : Option Nat) (t : Token) : Scan PUnit := do
  let s ← get
  if !(← inFlow) && s.indent < (column : Int) then
    set { s with indent := column, outer := s.indent :: s.outer }
    match place with
    | some n => insert n t
    | none => add t

/-- Closes the innermost block collections, as many as there are columns right of `column` among
those in the list. -/
def dedentOver (column : Int) : List Int → Scan PUnit
  | [] => return ⟨⟩
  | above :: outer => do
    if column < (← get).indent then
      modify fun s => { s with indent := above, outer }
      add .blockEnd
      dedentOver column outer

/-- Closes the block collections right of a column. -/
def dedentTo (column : Int) : Scan PUnit := do
  if !(← inFlow) then dedentOver column (← get).outer

/-! ## Between tokens -/

/-- Passes over blanks, comments and line breaks. A tab may stand only where no key may start. -/
def skipToToken : Nat → Scan PUnit
  | 0 => return ⟨⟩
  | fuel + 1 => do
    let s ← get
    let flow ← inFlow
    let c := s.cursor.skipWhile fun ch => ch == ' ' || ((flow || !s.keyAllowed) && ch == '\t')
    let c := if c.sees '#' then c.skipWhile fun ch => !isBreak ch else c
    moveTo c
    if (c.peek 0).any isBreak then
      moveTo c.takeBreak.2
      if !flow then allowKey true
      skipToToken fuel

/-! ## Directives, anchors and tags -/

/-- A number of a version. -/
def versionNumber (c : Cursor) : Result (Nat × Cursor) :=
  let (digits, c) := c.span Char.isDigit
  if digits.isEmpty || 9 < digits.length then .error "a version lacks a number"
  else .ok (Nat.ofDigitChars 10 digits 0, c)

/-- The bytes that escapes in a tag make, up to the end of a character. -/
def uriEscape (c : Cursor) : Result (Char × Cursor) := do
  let byte (c : Cursor) : Result Nat :=
    match c.rest with
    | '%' :: a :: b :: _ =>
      if Text.isHex [a, b] then .ok (Text.hexNat [a, b]) else .error "an escape lacks digits"
    | _ => .error "an escape is not complete"
  let further (c : Cursor) : Result Nat := do
    let n ← byte c
    if n / 64 == 2 then return n % 64 else throw "an escape is no character"
  let n ← byte c
  if n < 0x80 then return (Char.ofNat n, c.skip 3)
  else if n / 32 == 6 then
    return (← charOf (n % 32 * 64 + (← further (c.skip 3))), c.skip 6)
  else if n / 16 == 14 then
    return (← charOf ((n % 16 * 64 + (← further (c.skip 3))) * 64 + (← further (c.skip 6))),
      c.skip 9)
  else if n / 8 == 30 then
    let bits := (n % 8 * 64 + (← further (c.skip 3))) * 64 + (← further (c.skip 6))
    return (← charOf (bits * 64 + (← further (c.skip 9))), c.skip 12)
  else throw "an escape is no character"

/-- A character that a tag may hold; brackets and commas only where `wide`. -/
def isUriChar (wide : Bool) (c : Char) : Bool :=
  isNameChar c || ";/?:@&=+$.%!~*'()".contains c || (wide && ",[]".contains c)

/-- The characters of a tag; `done` is what has been taken, backwards. -/
def uri (wide : Bool) : Nat → List Char → Cursor → Result (List Char × Cursor)
  | 0, done, c => .ok (done.reverse, c)
  | fuel + 1, done, c =>
    match c.rest with
    | [] => .ok (done.reverse, c)
    | ch :: _ =>
      if !isUriChar wide ch then .ok (done.reverse, c)
      else if ch == '%' then
        match uriEscape c with
        | .ok (e, c) => uri wide fuel (e :: done) c
        | .error e => .error e
      else uri wide fuel (ch :: done) (c.skip 1)

/-- The characters of a tag, of which there must be some. -/
def someUri (wide : Bool) (c : Cursor) : Result (List Char × Cursor) := do
  let (text, d) ← uri wide (c.rest.length + 1) [] c
  if text.isEmpty then throw "a tag is empty" else return (text, d)

/-- The handle of a tag: `!`, `!!` or `!name!`, or the start of a tag without one. -/
def tagHandle (c : Cursor) : Result (List Char × Cursor) :=
  if !c.sees '!' then .error "a tag handle lacks its mark"
  else
    let (name, d) := (c.skip 1).span isNameChar
    if d.sees '!' then .ok ('!' :: name ++ ['!'], d.skip 1) else .ok ('!' :: name, d)

/-- The end of a directive: blanks and a comment at most. -/
def directiveEnd (c : Cursor) : Result Cursor := do
  let c := c.skipWhile isBlank
  let c := if c.sees '#' then c.skipWhile fun ch => !isBreak ch else c
  if endsLine (c.peek 0) then return c.takeBreak.2
  else throw "something follows a directive"

/-- A directive behind its sign. -/
def directive (c : Cursor) : Result (Token × Cursor) := do
  let (name, c) := c.span isNameChar
  if name.isEmpty || !endsWord (c.peek 0) then throw "a directive lacks its name"
  let c := c.skipWhile isBlank
  if name == "YAML".toList then
    let (major, c) ← versionNumber c
    if !c.sees '.' then throw "a version lacks its point"
    let (minor, c) ← versionNumber (c.skip 1)
    return (.version major minor, ← directiveEnd c)
  else if name == "TAG".toList then
    let (handle, c) ← tagHandle c
    if handle.length != 1 && handle.getLast? != some '!' then throw "a tag handle lacks its end"
    if !(c.peek 0).any isBlank then throw "a tag handle lacks its meaning"
    let (start, c) ← someUri true (c.skipWhile isBlank)
    if !endsWord (c.peek 0) then throw "something follows a tag"
    return (.tagHandle handle start, ← directiveEnd c)
  else throw "an unknown directive"

/-- The name of an anchor or an alias behind its sign. -/
def anchorName (c : Cursor) : Result (List Char × Cursor) :=
  let (name, c) := c.span isNameChar
  let ends := endsWord (c.peek 0) || (c.peek 0).any fun ch => "?:,]\x7d%@\x60".contains ch
  if name.isEmpty || !ends then .error "an anchor lacks its name" else .ok (name, c)

/-- The handle and the suffix of a tag behind its mark. -/
def tagParts (c : Cursor) : Result (List Char × List Char × Cursor) := do
  if c.peek 1 == some '<' then
    let (suffix, c) ← someUri true (c.skip 2)
    if c.sees '>' then return ([], suffix, c.skip 1) else throw "a tag lacks its end"
  else
    let (handle, d) ← tagHandle c
    if 1 < handle.length && handle.getLast? == some '!' then
      let (suffix, c) ← someUri false d
      return (handle, suffix, c)
    else
      let (more, c) ← uri false (d.rest.length + 1) [] d
      let suffix := handle.drop 1 ++ more
      if suffix.isEmpty then return ([], ['!'], c) else return (['!'], suffix, c)

/-- A tag. -/
def tag (flow : Bool) (c : Cursor) : Result (Token × Cursor) := do
  let (handle, suffix, c) ← tagParts c
  if endsWord (c.peek 0) || (flow && c.sees ',') then return (.tag handle suffix, c)
  else throw "something follows a tag"

/-! ## Fetching tokens -/

/-- Appends a token that was read, and moves behind it. -/
def addRead (r : Result (Token × Cursor)) : Scan PUnit := do
  let (t, c) ← (r : Scan _)
  moveTo c
  add t

/-- Closes all block collections and gives up a candidate, as at the end of a document. -/
def closeAll : Scan PUnit := do
  dedentTo (-1)
  dropCandidate
  allowKey false

/-- A mark between documents. -/
def fetchDocumentMark (t : Token) : Scan PUnit := do
  closeAll
  skip 3
  add t

/-- An opening bracket. -/
def fetchOpening (t : Token) : Scan PUnit := do
  noteCandidate
  modify fun s => { s with candidates := none :: s.candidates }
  allowKey true
  skip 1
  add t

/-- A closing bracket. -/
def fetchClosing (t : Token) : Scan PUnit := do
  dropCandidate
  if ← inFlow then modify fun s => { s with candidates := s.candidates.drop 1 }
  allowKey false
  skip 1
  add t

/-- A comma between brackets. -/
def fetchFlowEntry : Scan PUnit := do
  dropCandidate
  allowKey true
  skip 1
  add .flowEntry

/-- Opens a block collection here, where a key may start, unless between brackets. -/
def openBlock (t : Token) : Scan PUnit := do
  if !(← inFlow) then
    let s ← get
    if !s.keyAllowed then throw "a collection starts where none may"
    indentTo s.cursor.column none t

/-- The hyphen of an entry. -/
def fetchBlockEntry : Scan PUnit := do
  openBlock .blockSequence
  dropCandidate
  allowKey true
  skip 1
  add .blockEntry

/-- The question mark of a key. -/
def fetchKey : Scan PUnit := do
  openBlock .blockMapping
  dropCandidate
  allowKey (!(← inFlow))
  skip 1
  add .key

/-- The colon of a value: what stood before it on the line turns out to be a key. -/
def fetchValue : Scan PUnit := do
  match ← candidate? with
  | some k =>
    insert k.place .key
    indentTo k.column (some k.place) .blockMapping
    setCandidate none
    allowKey false
  | none =>
    openBlock .blockMapping
    allowKey (!(← inFlow))
  skip 1
  add .value

/-- An anchor or an alias. -/
def fetchAnchor (make : List Char → Token) : Scan PUnit := do
  noteCandidate
  allowKey false
  addRead ((anchorName ((← get).cursor.skip 1)).map fun (name, c) => (make name, c))

/-- A tag. -/
def fetchTag : Scan PUnit := do
  noteCandidate
  allowKey false
  addRead (tag (← inFlow) (← get).cursor)

/-- A scalar in a block. -/
def fetchBlockScalar (isFolded : Bool) : Scan PUnit := do
  dropCandidate
  allowKey true
  let s ← get
  addRead <| (blockScalar isFolded s.indent (s.cursor.skip 1)).map fun (text, c) =>
    (.scalar (if isFolded then .folded else .literal) text, c)

/-- A scalar between quotes. -/
def fetchQuoted (single : Bool) : Scan PUnit := do
  noteCandidate
  allowKey false
  let c := (← get).cursor.skip 1
  addRead <| (quotedScalar single (c.rest.length + 1) [] c).map fun (text, c) =>
    (.scalar .quoted text, c)

/-- A plain scalar. A key may start behind it if a line break follows. -/
def fetchPlain : Scan PUnit := do
  noteCandidate
  allowKey false
  let s ← get
  let c := s.cursor
  let (text, broken, c) ←
    (plainScalar (← inFlow) (s.indent + 1).toNat (c.rest.length + 1) [] .none c : Scan _)
  moveTo c
  if broken then allowKey true
  add (.scalar .plain text)

/-- A character that no plain scalar starts with, unless what follows it allows it. -/
def isIndicator (c : Char) : Bool :=
  "-?:,[]\x7b\x7d#&*!|>'\"%@\x60".contains c

/-- Whether a plain scalar starts here. -/
def startsPlain (flow : Bool) (ch : Char) (next : Option Char) : Bool :=
  !(endsWord (some ch) || isIndicator ch) || (ch == '-' && !next.any isBlank) ||
    (!flow && (ch == '?' || ch == ':') && !endsWord next)

/-- Fetches the tokens of what starts with `ch`. -/
def fetchAt (ch : Char) : Scan PUnit := do
  let c := (← get).cursor
  let flow ← inFlow
  let next := c.peek 1
  if c.column == 0 && ch == '%' then
    closeAll
    addRead (directive (c.skip 1))
  else if c.atDocumentMark then
    fetchDocumentMark (if ch == '-' then .documentStart else .documentEnd)
  else if ch == '[' then fetchOpening .flowSequence
  else if ch == '\x7b' then fetchOpening .flowMapping
  else if ch == ']' then fetchClosing .flowSequenceEnd
  else if ch == '\x7d' then fetchClosing .flowMappingEnd
  else if ch == ',' then fetchFlowEntry
  else if ch == '-' && endsWord next then fetchBlockEntry
  else if ch == '?' && (flow || endsWord next) then fetchKey
  else if ch == ':' && (flow || endsWord next) then fetchValue
  else if ch == '*' then fetchAnchor .alias
  else if ch == '&' then fetchAnchor .anchor
  else if ch == '!' then fetchTag
  else if ch == '|' && !flow then fetchBlockScalar false
  else if ch == '>' && !flow then fetchBlockScalar true
  else if ch == '\'' then fetchQuoted true
  else if ch == '"' then fetchQuoted false
  else if startsPlain flow ch next then fetchPlain
  else throw "a character that starts no token"

/-- Fetches tokens to the end of the text. -/
def fetchAll : Nat → Scan PUnit
  | 0 => throw "the text does not end"
  | fuel + 1 => do
    skipToToken ((← get).cursor.rest.length + 1)
    dropStale
    dedentTo (← get).cursor.column
    match (← get).cursor.peek 0 with
    | none => closeAll
    | some ch => fetchAt ch; fetchAll fuel

end Scan

/-- The tokens of a text. -/
def tokens (cs : List Char) : Result (List Token) := do
  if !cs.all isAllowed then throw "a character that no text may hold"
  let s : Scanner := ⟨.start cs, #[], -1, [], true, [none]⟩
  let (_, s) ← (Scan.fetchAll (cs.length + 2)).run s
  return s.tokens.toList

end FirmwareMatch.Yaml
