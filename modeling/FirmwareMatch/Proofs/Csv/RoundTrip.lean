import FirmwareMatch.Csv.Printer
import FirmwareMatch.Csv.Reader

/-
  Records that were written are read back, whatever their fields hold.

  A field without special characters is taken as it stands. Between quotes every character is taken
  until a lone quote, and the doubled quotes of the field are halved again. Behind either form of a
  field a comma ends the field and a line feed the record. The one record that does not come back is
  that of a single empty field: it is an empty line.

  Proved:
  * `run_printField`: where the reader is behind a field.
  * `run_fields`: one record, from any of its fields on.
  * `records_print`: a list of records.
-/

namespace FirmwareMatch.Csv

/-! ## One field -/

/-- Where a field may start. -/
def Place.StartsField (p : Place) : Prop :=
  p = .recordStart ∨ p = .fieldStart

namespace Reader

variable {fields : List String} {records : List (List String)}

/-- Characters that are not special are taken as they stand. -/
theorem run_of_bare {cs : List Char} (h : ∀ c ∈ cs, isSpecial c = false) (field : List Char) :
    Reader.run ⟨.bare, field, fields, records⟩ cs =
      ⟨.bare, cs.reverse ++ field, fields, records⟩ := by
  induction cs generalizing field with
  | nil => rfl
  | cons c cs ih =>
    have hc := h c List.mem_cons_self
    simp only [isSpecial, Bool.or_eq_false_iff, beq_eq_false_iff_ne] at hc
    have hstep : Reader.step ⟨.bare, field, fields, records⟩ c =
        ⟨.bare, c :: field, fields, records⟩ := by
      simp [step, stepBare, push, isLineEnd, hc]
    rw [run_cons, hstep, ih fun d hd => h d (List.mem_cons_of_mem _ hd)]
    simp

/-- Between quotes every character is taken, and doubled quotes are halved. -/
theorem run_of_quoted (cs field : List Char) :
    Reader.run ⟨.quoted, field, fields, records⟩
      (cs.flatMap fun c => if c == '"' then ['"', '"'] else [c]) =
      ⟨.quoted, cs.reverse ++ field, fields, records⟩ := by
  induction cs generalizing field with
  | nil => rfl
  | cons c cs ih =>
    have hstep : Reader.run ⟨.quoted, field, fields, records⟩
        (if c == '"' then ['"', '"'] else [c]) = ⟨.quoted, c :: field, fields, records⟩ := by
      by_cases hc : c = '"' <;> simp [hc, step, push]
    rw [List.flatMap_cons, run_append, hstep, ih]
    simp

/-- Where a reader can be when it has read the field `cs` from the place `start`. -/
def Behind (start : Place) (cs : List Char) (place : Place) : Prop :=
  place = .bare ∨ place = .quoteSeen ∨ (cs = [] ∧ place = start)

variable {start : Place}

/-- A field is taken completely, and the reader is outside quotes behind it. -/
theorem run_printField (hstart : start.StartsField) (cs : List Char) (fields : List String)
    (records : List (List String)) :
    ∃ place, Behind start cs place ∧
      Reader.run ⟨start, [], fields, records⟩ (printField cs) =
        ⟨place, cs.reverse, fields, records⟩ := by
  unfold printField
  split
  · have hopen : Reader.step ⟨start, [], fields, records⟩ '"' = ⟨.quoted, [], fields, records⟩ := by
      rcases hstart with rfl | rfl <;> simp [step, stepField, isLineEnd]
    refine ⟨.quoteSeen, Or.inr (Or.inl rfl), ?_⟩
    rw [quoteField, List.cons_append, run_cons, hopen, run_append, run_of_quoted]
    simp [step]
  · rename_i hplain
    cases cs with
    | nil => exact ⟨start, Or.inr (Or.inr ⟨rfl, rfl⟩), rfl⟩
    | cons c cs =>
      have hspecial : ∀ d ∈ c :: cs, isSpecial d = false := by simpa using hplain
      have hc := hspecial c List.mem_cons_self
      simp only [isSpecial, Bool.or_eq_false_iff, beq_eq_false_iff_ne] at hc
      have hstep : Reader.step ⟨start, [], fields, records⟩ c = ⟨.bare, [c], fields, records⟩ := by
        rcases hstart with rfl | rfl <;>
          simp [step, stepField, stepBare, push, isLineEnd, hc]
      refine ⟨.bare, Or.inl rfl, ?_⟩
      rw [run_cons, hstep, run_of_bare fun d hd => hspecial d (List.mem_cons_of_mem _ hd)]
      simp

/-- A comma ends a field, also an empty one. -/
theorem run_printField_comma (hstart : start.StartsField) (s : String) (rest : List Char) :
    Reader.run ⟨start, [], fields, records⟩ (printField s.toList ++ ',' :: rest) =
      Reader.run ⟨.fieldStart, [], s :: fields, records⟩ rest := by
  obtain ⟨place, hbehind, hrun⟩ :=
    run_printField hstart s.toList fields records
  have hplace : place = .bare ∨ place = .quoteSeen ∨ place.StartsField := by
    rcases hbehind with h | h | ⟨_, rfl⟩
    · exact Or.inl h
    · exact Or.inr (Or.inl h)
    · exact Or.inr (Or.inr hstart)
  rw [run_append, hrun, run_cons]
  rcases hplace with rfl | rfl | rfl | rfl <;>
    simp [step, stepField, stepBare, endField, isLineEnd]

/-- A line feed ends a record, unless nothing stands on its line. -/
theorem run_printField_newline (hstart : start.StartsField) {s : String}
    (h : start = .recordStart → s ≠ "") (rest : List Char) :
    Reader.run ⟨start, [], fields, records⟩ (printField s.toList ++ '\n' :: rest) =
      Reader.run ⟨.recordStart, [], [], (s :: fields).reverse :: records⟩ rest := by
  obtain ⟨place, hbehind, hrun⟩ :=
    run_printField hstart s.toList fields records
  have hplace : place = .bare ∨ place = .quoteSeen ∨ place = .fieldStart := by
    rcases hbehind with hbehind | hbehind | ⟨hempty, rfl⟩
    · exact Or.inl hbehind
    · exact Or.inr (Or.inl hbehind)
    · exact Or.inr (Or.inr (hstart.resolve_left fun hrecord =>
        h hrecord (String.toList_inj.mp hempty)))
  rw [run_append, hrun, run_cons]
  rcases hplace with rfl | rfl | rfl <;>
    simp [step, stepField, stepBare, endRecord, isLineEnd]

/-! ## Records -/

/-- The fields that are left of a record, with its line feed. -/
theorem run_fields (ss : List String) {s : String} (hstart : start.StartsField)
    (h : start = .recordStart → s :: ss ≠ [""]) (rest : List Char) :
    Reader.run ⟨start, [], fields, records⟩ (printRecord (s :: ss) ++ rest) =
      Reader.run ⟨.recordStart, [], [], (fields.reverse ++ s :: ss) :: records⟩ rest := by
  induction ss generalizing s start fields with
  | nil =>
    have hs : start = .recordStart → s ≠ "" := fun hrecord hs => h hrecord (by rw [hs])
    rw [printRecord, List.map_singleton, List.intercalate_singleton, List.append_assoc,
      List.singleton_append, run_printField_newline hstart hs, List.reverse_cons]
  | cons t ss ih =>
    have hprint : printRecord (s :: t :: ss) =
        printField s.toList ++ ',' :: printRecord (t :: ss) := by
      simp [printRecord, List.intercalate_cons_cons]
    rw [hprint, List.append_assoc, List.cons_append, run_printField_comma hstart,
      ih (Or.inr rfl) (by simp)]
    simp

/-- Records are read line by line, if none is an empty line. -/
theorem run_print {rs : List (List String)} (h : ∀ r ∈ rs, r ≠ [] ∧ r ≠ [""]) :
    Reader.run ⟨.recordStart, [], [], records⟩ (rs.flatMap printRecord) =
      ⟨.recordStart, [], [], rs.reverse ++ records⟩ := by
  induction rs generalizing records with
  | nil => rfl
  | cons r rs ih =>
    obtain ⟨hne, hempty⟩ := h r List.mem_cons_self
    obtain ⟨s, ss, rfl⟩ := List.exists_cons_of_ne_nil hne
    rw [List.flatMap_cons, run_fields ss (Or.inl rfl) fun _ => hempty,
      ih fun q hq => h q (List.mem_cons_of_mem _ hq)]
    simp

end Reader

/-- Records are read back if none is an empty line and the text does not open with a mark. -/
theorem records_print {rs : List (List String)} (h : ∀ r ∈ rs, r ≠ [] ∧ r ≠ [""])
    (hmark : (print rs).toList.head? ≠ some '\uFEFF') : records (print rs).toList = rs := by
  have hdrop : dropMark (print rs).toList = (print rs).toList := by
    unfold dropMark
    split
    · rename_i hcs
      simp [hcs] at hmark
    · rfl
  rw [records, readAll, hdrop, print, String.toList_ofList, Reader.start, Reader.run_print h]
  simp [Reader.finish]

end FirmwareMatch.Csv
