import FirmwareMatch.Text.CaseTable
import FirmwareMatch.Text.InversionList

/-
  Lower case of a text, after the full mappings of Unicode 16.

  Two rules look beyond a single character's own lower case: `İ` becomes `i` with a combining dot,
  and a `Σ` that ends a word becomes `ς`. A word ends there if a cased character stands before and
  none behind, with case-ignorable characters passed over.
-/

namespace FirmwareMatch.Text

/-- Whether a character has a case. -/
def isCased (c : Char) : Bool :=
  inInversionList casedChanges c.toNat

/-- Whether a character is passed over when the end of a word is looked for. -/
def isCaseIgnorable (c : Char) : Bool :=
  inInversionList caseIgnorableChanges c.toNat

/-- The lower case of a character on its own. -/
def lowerChar (c : Char) : List Char :=
  let n := c.toNat
  if n < 0x80 then [c.toLower]
  else if n == 0x130 then ['i', '\u0307']
  else
    match caseRuns.find? (·.contains n) with
    | some r => [Char.ofNat (n + r.shift).toNat]
    | none => [c]

/-- Whether the first character that is not passed over has a case. -/
def startsCased (cs : List Char) : Bool :=
  (cs.find? (!isCaseIgnorable ·)).any isCased

/-- The lower case of a text that follows `earlier`, which is given backwards. -/
def lowerAfter (earlier : List Char) : List Char → List Char
  | [] => []
  | c :: cs =>
    let low :=
      if c == 'Σ' then
        if startsCased earlier && !startsCased cs then ['ς'] else ['σ']
      else lowerChar c
    low ++ lowerAfter (c :: earlier) cs

/-- The lower case of a text. -/
def lower (cs : List Char) : List Char :=
  lowerAfter [] cs

end FirmwareMatch.Text
