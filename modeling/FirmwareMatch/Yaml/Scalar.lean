import FirmwareMatch.Text.Hex
import FirmwareMatch.Yaml.Cursor

/-
  The texts of YAML scalars: plain, between quotes, and in blocks.

  All loops run on a supply of steps that the length of the text bounds.
-/

namespace FirmwareMatch.Yaml

/-! ## Between quotes -/

/-- The character of an escape of one letter. -/
def escapeChar? (c : Char) : Option Char :=
  ([('0', '\x00'), ('a', '\x07'), ('b', '\x08'), ('t', '\t'), ('\t', '\t'), ('n', '\n'),
    ('v', '\x0b'), ('f', '\x0c'), ('r', '\r'), ('e', '\x1b'), (' ', ' '), ('"', '"'), ('/', '/'),
    ('\\', '\\'), ('N', '\u0085'), ('_', '\u00a0'), ('L', '\u2028'), ('P', '\u2029')]).lookup c

/-- How many digits follow the letter of an escape by number. -/
def escapeDigits? (c : Char) : Option Nat :=
  ([('x', 2), ('u', 4), ('U', 8)]).lookup c

/-- The character with a number. -/
def charOf (n : Nat) : Result Char :=
  if (0xD800 ≤ n && n ≤ 0xDFFF) || 0x10FFFF < n then .error "an escape is no character"
  else .ok (Char.ofNat n)

/-- The character of the escape that follows a backslash. -/
def escape (c : Cursor) : Result (Char × Cursor) :=
  match c.rest with
  | [] => .error "an escape is not complete"
  | l :: digits =>
    match escapeChar? l, escapeDigits? l with
    | some ch, _ => .ok (ch, c.skip 1)
    | none, some n =>
      let ds := digits.take n
      if ds.length == n && ds.all Text.isHexDigit then
        (charOf (Text.hexNat ds)).map fun ch => (ch, c.skip (n + 1))
      else .error "an escape lacks digits"
    | none, none => .error "an unknown escape"

/-- The quote of a scalar. -/
def quoteOf (single : Bool) : Char :=
  if single then '\'' else '"'

/-- Takes characters up to a quote, a blank, a line break or the end; `done` is what has been
taken, backwards. The answer also tells whether an escaped line break ended the word. -/
def quotedWord (single : Bool) : Nat → List Char → Cursor → Result (List Char × Bool × Cursor)
  | 0, done, c => .ok (done, false, c)
  | fuel + 1, done, c =>
    match c.rest with
    | [] => .ok (done, false, c)
    | ch :: _ =>
      if endsWord (some ch) then .ok (done, false, c)
      else if single && ch == '\'' && c.peek 1 == some '\'' then
        quotedWord single fuel ('\'' :: done) (c.skip 2)
      else if ch == quoteOf single then .ok (done, false, c)
      else if !single && ch == '\\' && (c.peek 1).any isBreak then
        .ok (done, true, (c.skip 1).takeBreak.2)
      else if !single && ch == '\\' then
        match escape (c.skip 1) with
        | .ok (e, c) => quotedWord single fuel (e :: done) c
        | .error e => .error e
      else quotedWord single fuel (ch :: done) (c.skip 1)

/-- The text of a scalar behind its opening quote. -/
def quotedScalar (single : Bool) : Nat → List Char → Cursor → Result (List Char × Cursor)
  | 0, _, _ => .error "a quoted scalar does not end"
  | fuel + 1, done, c => do
    if c.atDocumentMark then throw "a document ends within a quoted scalar"
    if c.rest.isEmpty then throw "a quoted scalar does not end"
    let (done, escaped, c) ← quotedWord single (c.rest.length + 1) done c
    if c.sees (quoteOf single) then return (done.reverse, c.skip 1)
    else
      let (gap, c) ← Gap.scan 0 (c.rest.length + 1) (if escaped then .escaped else .none) c
      quotedScalar single fuel (gap.text.reverse ++ done) c

/-! ## Plain -/

/-- A character that ends a plain scalar between brackets. -/
def isFlowMark (c : Char) : Bool :=
  c == ',' || c == '[' || c == ']' || c == '\x7b' || c == '\x7d'

/-- Takes characters of a plain scalar up to a blank, a line break, the end or a mark. -/
def plainWord (inFlow : Bool) : Nat → List Char → Cursor → Result (List Char × Cursor)
  | 0, done, c => .ok (done, c)
  | fuel + 1, done, c =>
    match c.rest with
    | [] => .ok (done, c)
    | ch :: _ =>
      if endsWord (some ch) then .ok (done, c)
      else if inFlow && ch == ':' && (c.peek 1).any (fun d => isFlowMark d || d == '?') then
        .error "a colon stands where none is expected"
      else if ch == ':' && endsWord (c.peek 1) then .ok (done, c)
      else if inFlow && isFlowMark ch then .ok (done, c)
      else plainWord inFlow fuel (ch :: done) (c.skip 1)

/-- The text of a plain scalar whose lines must not start left of the column `margin`; `done` is
what has been taken, backwards, and `gap` what stands behind it. The answer also tells whether a
line break follows the scalar. -/
def plainScalar (inFlow : Bool) (margin : Nat) :
    Nat → List Char → Gap → Cursor → Result (List Char × Bool × Cursor)
  | 0, _, _, _ => .error "a plain scalar does not end"
  | fuel + 1, done, gap, c => do
    if c.atDocumentMark || c.sees '#' then return (done.reverse, gap.broken, c)
    let (word, c) ← plainWord inFlow (c.rest.length + 1) [] c
    let (done, gap) :=
      if word.isEmpty then (done, gap) else (word ++ gap.text.reverse ++ done, Gap.none)
    match c.rest with
    | [] => return (done.reverse, gap.broken, c)
    | ch :: _ =>
      if !endsWord (some ch) then return (done.reverse, gap.broken, c)
      else
        let (gap, c) ← Gap.scan margin (c.rest.length + 1) gap c
        if !inFlow && c.column < margin then return (done.reverse, gap.broken, c)
        else plainScalar inFlow margin fuel done gap c

/-! ## Blocks -/

/-- What becomes of the line breaks at the end of a block. -/
inductive Chomping
  | strip
  | clip
  | keep
deriving DecidableEq

/-- The chomping that a sign asks for. -/
def chomping? (c : Char) : Option Chomping :=
  if c == '+' then some .keep else if c == '-' then some .strip else none

/-- The indentation that a digit asks for. -/
def indentation? (c : Char) : Option Nat :=
  if c.isDigit then some (c.toNat - 48) else none

/-- The chomping and the indentation behind the sign of a block, in either order; indentation zero
means that none is given. -/
def blockHeader (c : Cursor) : Result (Chomping × Nat × Cursor) := do
  let sign (c : Cursor) := (c.peek 0).bind chomping?
  let digit (c : Cursor) := (c.peek 0).bind indentation?
  let (chomp, indent, c) :=
    match sign c, digit c with
    | some s, _ =>
      match digit (c.skip 1) with
      | some d => (s, some d, c.skip 2)
      | none => (s, none, c.skip 1)
    | none, some d =>
      match sign (c.skip 1) with
      | some s => (s, some d, c.skip 2)
      | none => (.clip, some d, c.skip 1)
    | none, none => (.clip, none, c)
  if indent == some 0 then throw "the indentation of a block is zero"
  return (chomp, indent.getD 0, c)

/-- Takes the blank lines that follow, up to the first character that belongs to the block; `widest`
is the largest column reached so far. Without a given indentation any column belongs to it. -/
def blankLines (indent : Nat) :
    Nat → Nat → List Char → Cursor → Result (Nat × List Char × Cursor)
  | 0, widest, breaks, c => .ok (widest, breaks, c)
  | fuel + 1, widest, breaks, c =>
    let spaces := (c.rest.takeWhile (· == ' ')).length
    let c := c.skip (if indent == 0 then spaces else min spaces (indent - c.column))
    let widest := max widest c.column
    if (indent == 0 || c.column < indent) && c.sees '\t' then
      .error "a tab stands where indentation is expected"
    else if (c.peek 0).any isBreak then
      let (b, c) := c.takeBreak
      blankLines indent fuel widest (breaks ++ b) c
    else .ok (widest, breaks, c)

/-- The lines of a block that have been taken: the text backwards, the last line break, the blank
lines behind it, and whether the last line started with a blank. -/
structure BlockText where
  done : List Char
  lastBreak : List Char
  blankBreaks : List Char
  indented : Bool

/-- Takes the lines of a block. In a folded block a single line break between two lines that start
without a blank becomes a space. -/
def blockLines (isFolded : Bool) (indent : Nat) :
    Nat → BlockText → Cursor → Result (BlockText × Cursor)
  | 0, t, c => .ok (t, c)
  | fuel + 1, t, c =>
    if c.column != indent || c.rest.isEmpty then .ok (t, c)
    else do
      let startsBlank := (c.peek 0).any isBlank
      let joint :=
        if isFolded && t.lastBreak == ['\n'] && !t.indented && !startsBlank then
          if t.blankBreaks.isEmpty then [' '] else []
        else t.lastBreak
      let (line, c) := c.span fun ch => !isBreak ch
      let (lastBreak, c) := c.takeBreak
      let (_, blankBreaks, c) ← blankLines indent (c.rest.length + 1) 0 [] c
      let done := (joint ++ t.blankBreaks ++ line).reverse ++ t.done
      blockLines isFolded indent fuel ⟨done, lastBreak, blankBreaks, startsBlank⟩ c

/-- The text of a block behind its sign. `parent` is the indentation of what the block belongs to,
-1 at the top. -/
def blockScalar (isFolded : Bool) (parent : Int) (c : Cursor) : Result (List Char × Cursor) := do
  let (chomp, given, c) ← blockHeader c
  let c := c.skipWhile isBlank
  let c := if c.sees '#' then c.skipWhile fun ch => !isBreak ch else c
  if !endsLine (c.peek 0) then throw "something follows the header of a block"
  let (_, c) := c.takeBreak
  let wanted := if given == 0 then 0 else (max parent 0).toNat + given
  let (widest, breaks, c) ← blankLines wanted (c.rest.length + 1) 0 [] c
  let indent := if wanted == 0 then max (max widest (parent + 1).toNat) 1 else wanted
  let (t, c) ← blockLines isFolded indent (c.rest.length + 1) ⟨[], [], breaks, false⟩ c
  let tail :=
    match chomp with
    | .strip => []
    | .clip => t.lastBreak
    | .keep => t.lastBreak ++ t.blankBreaks
  return (t.done.reverse ++ tail, c)

end FirmwareMatch.Yaml
