import FirmwareMatch.Proofs.Listing.Accounting

/-
  The labels and the instructions of a text, line by line.

  What stands on a line is said here of the lines as they are in the text, with the recognizers of
  one line (`bare`, `sectionMarker?`, `label?` and `Statement.read?`) and with the section starts
  before it. A line is looked at with all lines before and behind it (`splits`): those before it
  give its section and the number of instructions so far, and those behind it tell whether an
  instruction follows its label.

  The kinds of the lines (`Line.read`) say the same as the lines.

  Proved:
  * `isMarker_read`, `labelName?_read`, `statement?_read`: what the kind of a line says.
  * `codeStatements_read`: the instructions of code sections.
-/

namespace FirmwareMatch

open Text

namespace Line

/-! ## What stands on a line -/

/-- Whether a line starts a section. -/
def startsSection (sections : List String) (raw : List Char) : Bool :=
  (sectionMarker? sections (bare raw)).isSome

/-- The label on a line. -/
def labelOn? (sections : List String) (raw : List Char) : Option String :=
  if startsSection sections raw then none
  else (label? (bare raw)).map fun (name, _) => String.ofList name

/-- The instruction on a line, on its own or behind a label. -/
def statementOn? (sections : List String) (raw : List Char) : Option Statement :=
  if startsSection sections raw then none
  else
    match label? (bare raw) with
    | some (_, rest) => Statement.read? rest
    | none => Statement.read? (bare raw)

/-- The code section that a line behind others stands in. -/
def codeSection? (sections : List String) (before : List (List Char)) : Option String :=
  (lastSection? sections before).filter (sections.contains ·)

/-- Whether an instruction stands on the lines before the next section start. -/
def hasInstruction (sections : List String) (raws : List (List Char)) : Bool :=
  (raws.takeWhile (!startsSection sections ·)).any fun raw => (statementOn? sections raw).isSome

/-! ## Lines among others -/

/-- The lines `after`, each with those before and behind it; `before` stands before all of them. -/
def splitsFrom (before : List (List Char)) :
    List (List Char) → List (List (List Char) × List Char × List (List Char))
  | [] => []
  | raw :: after => (before, raw, after) :: splitsFrom (before ++ [raw]) after

/-- Every line with those before and behind it. -/
def splits (raws : List (List Char)) : List (List (List Char) × List Char × List (List Char)) :=
  splitsFrom [] raws

/-- The instruction of a line behind others, with its section, if that is a code section. -/
def codeStatementOn? (sections : List String) (before : List (List Char)) (raw : List Char) :
    Option (String × Statement) :=
  (codeSection? sections before).bind fun name =>
    (statementOn? sections raw).map fun s => (name, s)

/-- The instructions of code sections, each with its section, in the order of the text. -/
def statementsIn (sections : List String) (raws : List (List Char)) : List (String × Statement) :=
  (splits raws).filterMap fun (before, raw, _) => codeStatementOn? sections before raw

/-! ## The kinds of the lines -/

variable {sections : List String}

theorem isMarker_read (raw : List Char) :
    (read sections raw).isMarker = startsSection sections raw := by
  unfold startsSection
  rcases read_cases sections raw with ⟨hblank, hread⟩ | ⟨_, hmarker, hread⟩ |
    ⟨_, _, -, hmarker, -, hread⟩ | ⟨-, hmarker, -, hread⟩
  · rw [hread, hblank]
    rfl
  all_goals rw [hread, hmarker]; rfl

theorem labelName?_read (raw : List Char) :
    (read sections raw).labelName? = labelOn? sections raw := by
  unfold labelOn? startsSection
  rcases read_cases sections raw with ⟨hblank, hread⟩ | ⟨_, hmarker, hread⟩ |
    ⟨_, _, -, hmarker, hlabel, hread⟩ | ⟨-, hmarker, hlabel, hread⟩
  · rw [hread, hblank]
    rfl
  · rw [hread, hmarker]
    rfl
  all_goals rw [hread, hmarker, hlabel]; rfl

theorem statement?_content (text : List Char) :
    (content (readContent text)).statement? = Statement.read? text := by
  unfold readContent
  cases Statement.read? text <;> rfl

theorem statement?_label (name : String) (text : List Char) :
    (label name (if text.isEmpty then none else some (readContent text))).statement? =
      Statement.read? text := by
  cases text with
  | nil => rfl
  | cons c cs =>
    unfold readContent
    cases Statement.read? (c :: cs) <;> simp [statement?]

theorem statement?_read (raw : List Char) :
    (read sections raw).statement? = statementOn? sections raw := by
  unfold statementOn? startsSection
  rcases read_cases sections raw with ⟨hblank, hread⟩ | ⟨_, hmarker, hread⟩ |
    ⟨_, _, -, hmarker, hlabel, hread⟩ | ⟨-, hmarker, hlabel, hread⟩
  · rw [hread, hblank]
    rfl
  · rw [hread, hmarker]
    rfl
  · rw [hread, hmarker, hlabel]
    exact statement?_label _ _
  · rw [hread, hmarker, hlabel]
    exact statement?_content _

theorem hasInstruction_iff {raws : List (List Char)} :
    hasInstruction sections raws ↔
      ∃ l ∈ (raws.map (read sections)).takeWhile (!·.isMarker), l.statement?.isSome := by
  have hmarker : (fun l : Line => !l.isMarker) ∘ read sections = (!startsSection sections ·) := by
    funext raw
    simp [isMarker_read]
  rw [List.takeWhile_map, hmarker]
  simp [hasInstruction, statement?_read]

theorem codeStatements_read_append (before after : List (List Char)) :
    codeStatements ((before ++ after).map (read sections)) =
      codeStatements (before.map (read sections)) ++
        (splitsFrom before after).filterMap fun (before, raw, _) =>
          codeStatementOn? sections before raw := by
  induction after generalizing before with
  | nil => simp [splitsFrom]
  | cons raw after ih =>
    have hconcat : codeStatements ((before ++ [raw]).map (read sections)) =
        codeStatements (before.map (read sections)) ++
          (codeStatementOn? sections before raw).toList := by
      rw [List.map_append, List.map_singleton, codeStatements_concat, sectionAfter_read,
        statement?_read, codeStatementOn?, codeSection?]
    rw [List.append_cons, ih, hconcat, splitsFrom, List.append_assoc, List.filterMap_cons]
    cases h : codeStatementOn? sections before raw <;> simp [h]

/-- The instructions of code sections are those of the lines. -/
theorem codeStatements_read (raws : List (List Char)) :
    codeStatements (raws.map (read sections)) = statementsIn sections raws :=
  codeStatements_read_append [] raws

end Line

end FirmwareMatch
