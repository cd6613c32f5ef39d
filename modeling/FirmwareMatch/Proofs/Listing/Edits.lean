import FirmwareMatch.Proofs.Listing.Progress

/-
  Edits of a text that do not matter.

  A text is taken as what stands between its line feeds. An edit puts a line of blanks or of a
  comment between others (`Edit.silent`), decorates a line with blanks, a comment or a carriage
  return (`Decorated`), or touches lines outside every code section, where only section starts
  count. None of them changes what the reader has read behind the line.

  Proved:
  * `bare_of_silent`, `bare_decorated`: what is left of a line.
  * `run_edit`, `run_edited`: one edit, and any number of edits.
  * `parse_edited`: the listing of an edited text.
-/

namespace FirmwareMatch

open Std Text

namespace Line

/-! ## Edits of a line -/

/-- Spaces and tabs, possibly none. -/
def IsPadding (cs : List Char) : Prop :=
  ∀ c ∈ cs, c = ' ' ∨ c = '\t'

/-- A comment with the sign that starts it. -/
inductive IsComment : List Char → Prop
  | semicolon (rest : List Char) : IsComment (';' :: rest)
  | slashes (rest : List Char) : IsComment ('/' :: '/' :: rest)
  | sign (rest : List Char) : IsComment ('@' :: rest)

/-- A line that says nothing: padding, and possibly a comment. -/
inductive IsSilent : List Char → Prop
  | padding {pad : List Char} (h : IsPadding pad) : IsSilent pad
  | comment {pad comment : List Char} (h : IsPadding pad) (hcomment : IsComment comment) :
      IsSilent (pad ++ comment)

/-- What may stand directly before a line feed without being part of the line. -/
def IsReturn (cs : List Char) : Prop :=
  cs = [] ∨ cs = ['\r']

/-- A line and the same line with more blanks at one of its ends, a comment behind a space, or a
    carriage return. Blanks and comments are put before a carriage return that ends the line. -/
inductive Decorated : List Char → List Char → Prop
  | indent {pad line : List Char} (h : IsPadding pad) : Decorated line (pad ++ line)
  | pad {line pad ret : List Char} (h : IsPadding pad) (hret : IsReturn ret) :
      Decorated (line ++ ret) (line ++ (pad ++ ret))
  | comment {line comment ret : List Char} (h : IsComment comment) (hret : IsReturn ret) :
      Decorated (line ++ ret) (line ++ ' ' :: (comment ++ ret))
  | carriageReturn {line : List Char} : Decorated line (line ++ ['\r'])

theorem IsPadding.isAsciiBlank {pad : List Char} (h : IsPadding pad) :
    ∀ c ∈ pad, isAsciiBlank c := by
  intro c hc
  rcases h c hc with rfl | rfl <;> rfl

theorem IsPadding.isGap {pad : List Char} (h : IsPadding pad) : IsGap pad :=
  fun c hc => isBlank_of_isAsciiBlank (h.isAsciiBlank c hc)

theorem IsReturn.isGap {ret : List Char} (h : IsReturn ret) : IsGap ret := by
  rcases h with rfl | rfl <;> decide

theorem isTail_of_comment {comment : List Char} (h : IsComment comment) (rest : List Char) :
    IsTail (' ' :: (comment ++ rest)) := by
  have hspace : IsGap [' '] := by decide
  cases h with
  | semicolon text => exact .semicolon hspace (text ++ rest)
  | slashes text => exact .slashes hspace (text ++ rest)
  | sign text => exact .sign isGap_nil rfl (text ++ rest)

theorem bare_of_comment {comment : List Char} (h : IsComment comment) : bare comment = [] := by
  cases h <;> rfl

theorem bare_of_silent {line : List Char} (h : IsSilent line) : bare line = [] := by
  cases h with
  | padding hpad => exact bare_append_gap hpad.isGap []
  | comment hpad hcomment => rw [bare_indent hpad.isAsciiBlank, bare_of_comment hcomment]

/-- Decoration does not matter. -/
theorem bare_decorated {line line' : List Char} (h : Decorated line line') :
    bare line' = bare line := by
  cases h with
  | indent hpad => exact bare_indent hpad.isAsciiBlank line
  | @pad line pad ret hpad hret =>
    rw [bare_append_gap hret.isGap, ← List.append_assoc, bare_append_gap hret.isGap,
      bare_append_gap hpad.isGap]
  | @comment line comment ret hcomment hret =>
    rw [bare_append_gap hret.isGap,
      bare_append_tail (isTail_of_comment hcomment ret) (by simp)]
  | carriageReturn => exact bare_append_gap (by decide) line

end Line

/-! ## Edits of a text -/

namespace Listing

/-- The line behind these lines lies outside every code section. -/
def IsForeign (sections : List String) (before : List (List Char)) : Prop :=
  Line.sectionAfter (before.map (Line.read sections)) = none

/-- One edit, for the pieces between line feeds. -/
inductive Edit (sections : List String) : List (List Char) → List (List Char) → Prop
  /-- A line that says nothing is put between others. -/
  | silent {line : List Char} (before after : List (List Char)) (h : Line.IsSilent line) :
      Edit sections (before ++ after) (before ++ line :: after)
  /-- The same behind the last line feed, without a line feed of its own. -/
  | silentEnd {line : List Char} (before : List (List Char)) (h : Line.IsSilent line) :
      Edit sections (before ++ [[]]) (before ++ [line])
  | decorate {line line' : List Char} (before after : List (List Char))
      (h : Line.Decorated line line') :
      Edit sections (before ++ line :: after) (before ++ line' :: after)
  | insert {line : List Char} (before after : List (List Char)) (h : IsForeign sections before)
      (hline : (Line.read sections line).isMarker = false) :
      Edit sections (before ++ after) (before ++ line :: after)
  | delete {line : List Char} (before after : List (List Char)) (h : IsForeign sections before)
      (hline : (Line.read sections line).isMarker = false) :
      Edit sections (before ++ line :: after) (before ++ after)
  | replace {line line' : List Char} (before after : List (List Char))
      (h : IsForeign sections before) (hline : (Line.read sections line).isMarker = false)
      (hline' : (Line.read sections line').isMarker = false) :
      Edit sections (before ++ line :: after) (before ++ line' :: after)

/-- One edit of a text. -/
def EditedOnce (sections : List String) (text text' : String) : Prop :=
  Edit sections (fields (· == '\n') text.toList) (fields (· == '\n') text'.toList)

/-- Any number of edits of a text. -/
def Edited (sections : List String) : String → String → Prop :=
  Relation.ReflTransGen (EditedOnce sections)

end Listing

namespace Reader

open Listing

variable {sections : List String}

/-- Outside every code section a line that starts no section changes nothing. -/
theorem run_foreign {before : List (List Char)} (h : IsForeign sections before)
    {line : List Char} (hline : (Line.read sections line).isMarker = false)
    (after : List (List Char)) :
    start.run ((before ++ line :: after).map (Line.read sections)) =
      start.run ((before ++ after).map (Line.read sections)) := by
  have hcurrent := (followsLines_run (before.map (Line.read sections))).current.trans h
  rw [List.map_append, List.map_append, List.map_cons, run_append, run_append, run_cons,
    step_of_current_none hcurrent (Line.ne_marker hline)]

/-- A line that says nothing changes nothing. -/
theorem run_silent {line : List Char} (h : Line.IsSilent line)
    (before after : List (List Char)) :
    start.run ((before ++ line :: after).map (Line.read sections)) =
      start.run ((before ++ after).map (Line.read sections)) := by
  rw [List.map_append, List.map_append, List.map_cons, run_append, run_append, run_cons,
    Line.read_of_bare_nil (Line.bare_of_silent h), step_blank]

/-- An edit does not change what is read. -/
theorem run_edit {raws raws' : List (List Char)} (h : Edit sections raws raws') :
    start.run (raws'.map (Line.read sections)) = start.run (raws.map (Line.read sections)) := by
  cases h with
  | silent before after hline => exact run_silent hline before after
  | silentEnd before hline =>
    have hempty : Line.IsSilent [] := .padding (by simp [Line.IsPadding])
    rw [run_silent hline, run_silent hempty]
  | decorate before after hline =>
    rw [List.map_append, List.map_append, List.map_cons, List.map_cons,
      Line.read_congr (Line.bare_decorated hline)]
  | insert before after hforeign hline => exact run_foreign hforeign hline after
  | delete before after hforeign hline => exact (run_foreign hforeign hline after).symm
  | replace before after hforeign hline hline' =>
    rw [run_foreign hforeign hline', run_foreign hforeign hline]

end Reader

namespace Listing

/-- What is read of a text does not depend on edits. -/
theorem run_edited {sections : List String} {text text' : String}
    (h : Edited sections text text') :
    Reader.start.run (Line.ofText sections text') =
      Reader.start.run (Line.ofText sections text) := by
  induction h with
  | refl => rfl
  | tail _ hedit ih =>
    rw [← ih, run_ofText_fields, run_ofText_fields]
    exact Reader.run_edit hedit

/-- Comments, blank lines, blanks at the ends of lines, carriage returns and lines outside every
    code section have no influence on what is read. -/
theorem parse_edited {sections : List String} {text text' : String}
    (h : Edited sections text text') :
    let l := Listing.parse sections text
    let l' := Listing.parse sections text'
    l'.blocks = l.blocks ∧ l'.instructionCount = l.instructionCount ∧
      l'.skippedCount = l.skippedCount ∧ l'.blockCount = l.blockCount := by
  intro l l'
  have hrun := run_edited h
  have hfields : ∀ t, let r := (Reader.start.run (Line.ofText sections t)).close
      Listing.parse sections t = ⟨r.blocks.toList, r.blockCount, (Line.ofText sections t).length,
        r.instructionCount, r.skippedCount⟩ := fun t => rfl
  simp only [l, l', hfields, hrun, and_self]

/-- A comment on a line of its own, one behind an instruction on a line with a carriage return, and
    a line of another section that is taken away. -/
theorem parse_edited_mixed :
    let text := ".text\nnop\r\n.data\ntable:\n"
    let text' := ".text\n\t; wait\nnop // idle\r\n.data\n"
    Edited [".text"] text text' ∧
      (Listing.parse [".text"] text').blocks = (Listing.parse [".text"] text).blocks ∧
      (Listing.parse [".text"] text').instructionCount = 1 := by
  intro text text'
  have hsilent : EditedOnce [".text"] text ".text\n\t; wait\nnop\r\n.data\ntable:\n" := by
    have hline : Line.IsSilent (['\t'] ++ ';' :: " wait".toList) :=
      .comment (by simp [Line.IsPadding]) (.semicolon _)
    have hedit : Edit [".text"] _ _ := Edit.silent [".text".toList]
      ["nop\r".toList, ".data".toList, "table:".toList, []] hline
    unfold EditedOnce
    convert hedit using 1 <;> decide +kernel
  have hcomment : EditedOnce [".text"] ".text\n\t; wait\nnop\r\n.data\ntable:\n"
      ".text\n\t; wait\nnop // idle\r\n.data\ntable:\n" := by
    have hline : Line.Decorated ("nop".toList ++ ['\r'])
        ("nop".toList ++ ' ' :: ('/' :: '/' :: " idle".toList ++ ['\r'])) :=
      .comment (.slashes _) (Or.inr rfl)
    have hedit : Edit [".text"] _ _ := Edit.decorate [".text".toList, "\t; wait".toList]
      [".data".toList, "table:".toList, []] hline
    unfold EditedOnce
    convert hedit using 1 <;> decide +kernel
  have hdelete : EditedOnce [".text"]
      ".text\n\t; wait\nnop // idle\r\n.data\ntable:\n" text' := by
    have hforeign : IsForeign [".text"]
        [".text".toList, "\t; wait".toList, "nop // idle\r".toList, ".data".toList] := by
      unfold IsForeign
      decide +kernel
    have hline : (Line.read [".text"] "table:".toList).isMarker = false := by decide +kernel
    have hedit : Edit [".text"] _ _ := Edit.delete _ [[]] hforeign hline
    unfold EditedOnce
    convert hedit using 1 <;> decide +kernel
  have hedited : Edited [".text"] text text' :=
    ((Relation.ReflTransGen.single hsilent).tail hcomment).tail hdelete
  obtain ⟨hblocks, hinstructions, -⟩ := parse_edited hedited
  exact ⟨hedited, hblocks, hinstructions.trans (by decide +kernel)⟩

end Listing

end FirmwareMatch
