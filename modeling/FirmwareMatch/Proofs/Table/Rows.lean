import FirmwareMatch.Proofs.Corpus.Uniqueness
import FirmwareMatch.Proofs.Csv.RoundTrip
import FirmwareMatch.Table.Rows
import Mathlib.Data.List.Basic
import Mathlib.Data.List.Induction

/-
  What rows and comma-separated text keep of a table.

  The set of a project in the table of rows holds the rows of that project, added in their order. A
  table has its rows project by project, so these are the entries of the project's set, and each
  project with an entry comes back with all of them. The text has the heading and one record for
  each row, none of which is an empty line.

  Proved:
  * `getElem?_projects_foldl_changeSet`: a project in a table that was built step by step.
  * `getElem?_projects_ofRows`: a project in the table of any rows.
  * `filter_values`, `rowsNamed_rows`: the set and the rows of one project in a table.
  * `getElem?_projects_ofRows_rows`: a project in the table of the rows of a table.
  * `ofCsv_renderCsv`: the text of a table is read as its rows.
-/

namespace FirmwareMatch.UniqueTable

open Std SortedMap

/-! ## Sets that are changed one after another -/

theorem getElem?_projects_changeSet (t : UniqueTable) (project : String)
    (f : UniqueSet → UniqueSet) (name : String) :
    (t.changeSet project f).projects[name]? =
      if project = name then some (f (t.setOf project)) else t.projects[name]? := by
  simp only [changeSet, ExtTreeMap.getElem?_insert, LawfulEqCmp.compare_eq_iff_eq]

/-- A project is known if a step names it, and its set has gone through the steps that do. -/
theorem getElem?_projects_foldl_changeSet {γ : Type} (nameOf : γ → String)
    (step : UniqueSet → γ → UniqueSet) (xs : List γ) (name : String) :
    (xs.foldl (fun t x => t.changeSet (nameOf x) fun s => step s x) empty).projects[name]? =
      if (xs.filter fun x => nameOf x == name).isEmpty then none
      else some ((xs.filter fun x => nameOf x == name).foldl step ⟨name, 0, ∅⟩) := by
  induction xs using List.reverseRecOn with
  | nil => simp [empty]
  | append_singleton xs x ih =>
    rw [List.foldl_append, List.foldl_cons, List.foldl_nil, getElem?_projects_changeSet,
      List.filter_append]
    by_cases h : nameOf x = name
    · subst h
      -- the set before the step is the fallback or the one that the earlier steps left
      have hset : (xs.foldl (fun t x => t.changeSet (nameOf x) fun s => step s x) empty).setOf
          (nameOf x) = (xs.filter fun y => nameOf y == nameOf x).foldl step ⟨nameOf x, 0, ∅⟩ := by
        rw [setOf, ExtTreeMap.getD_eq_getD_getElem?, ih]
        cases xs.filter fun y => nameOf y == nameOf x <;> rfl
      rw [if_pos rfl, hset]
      simp
    · rw [if_neg h, ih]
      simp [h]

/-! ## Tables of rows -/

/-- The digests of rows; of several rows for one digest the last counts. -/
def digestsOfRows (rs : List FeatureRow) : DigestMap :=
  rs.foldl (fun m r => m.insert r.hash r.opcode) ∅

/-- The rows of a project. -/
def rowsNamed (name : String) (rs : List FeatureRow) : List FeatureRow :=
  rs.filter fun r => r.project == name

/-- A project is known if it has a row, and has the digests of its rows. -/
theorem getElem?_projects_ofRows (rs : List FeatureRow) (name : String) :
    (ofRows rs).projects[name]? =
      if (rowsNamed name rs).isEmpty then none
      else some ⟨name, 0, digestsOfRows (rowsNamed name rs)⟩ := by
  have hfeatures : ∀ (rs : List FeatureRow) (s : UniqueSet),
      rs.foldl (fun s r => { s with features := s.features.insert r.hash r.opcode }) s =
        { s with features := rs.foldl (fun m r => m.insert r.hash r.opcode) s.features } := by
    intro rs
    induction rs with
    | nil => exact fun s => rfl
    | cons r rs ih => exact fun s => ih _
  have hfold := getElem?_projects_foldl_changeSet FeatureRow.project
    (fun s r => { s with features := s.features.insert r.hash r.opcode }) rs name
  rw [hfeatures] at hfold
  exact hfold

/-! ## The rows of a table -/

theorem isEmpty_rowsOfSet (s : UniqueSet) : (rowsOfSet s).isEmpty = s.features.isEmpty := by
  rw [rowsOfSet, List.isEmpty_map, ExtTreeMap.isEmpty_toList]

theorem digestsOfRows_rowsOfSet (s : UniqueSet) : digestsOfRows (rowsOfSet s) = s.features := by
  rw [digestsOfRows, rowsOfSet, List.foldl_map]
  exact foldl_insert_toList s.features

/-- All rows of a set name its project. -/
theorem rowsNamed_rowsOfSet (name : String) (s : UniqueSet) :
    rowsNamed name (rowsOfSet s) = if s.project = name then rowsOfSet s else [] := by
  unfold rowsNamed rowsOfSet
  rw [List.filter_map]
  split
  · rename_i h
    rw [List.filter_eq_self.mpr (by simp [h])]
  · rename_i h
    rw [List.filter_eq_nil_iff.mpr (by simp [h]), List.map_nil]

/-- A table has one set at most that names a project. -/
theorem filter_values {t : UniqueTable} (h : t.Keyed) (name : String) :
    (t.projects.values.filter fun s => s.project == name) = t.projects[name]?.toList := by
  have hproject : ∀ k, (t.setOf k).project = k := by
    intro k
    cases hk : t.projects[k]? with
    | none => rw [setOf, ExtTreeMap.getD_eq_getD_getElem?, hk, Option.getD_none]
    | some s => rw [setOf_of_getElem? hk, h k s hk]
  rw [values_eq_map_setOf, List.filter_map]
  simp only [Function.comp_def, hproject]
  rw [List.filter_beq, ExtTreeMap.nodup_keys.count]
  simp only [ExtTreeMap.mem_keys, ExtTreeMap.mem_iff_isSome_getElem?]
  cases hs : t.projects[name]? with
  | none => rfl
  | some s => simp [setOf_of_getElem? hs]

/-- The rows of one project in a table are those of its set. -/
theorem rowsNamed_rows {t : UniqueTable} (h : t.Keyed) (name : String) :
    rowsNamed name t.rows = ((t.projects[name]?).map rowsOfSet).getD [] := by
  have hflat : ∀ ss : List UniqueSet, rowsNamed name (ss.flatMap rowsOfSet) =
      (ss.filter fun s => s.project == name).flatMap rowsOfSet := by
    intro ss
    induction ss with
    | nil => rfl
    | cons s ss ih =>
      rw [List.flatMap_cons, rowsNamed, List.filter_append, ← rowsNamed, ← rowsNamed, ih,
        rowsNamed_rowsOfSet]
      by_cases hs : s.project = name <;> simp [hs]
  rw [rows, hflat, filter_values h]
  cases t.projects[name]? <;> simp

/-- The table of the rows of a table has the projects with digests, each with all of them and
    without a number of all digests. -/
theorem getElem?_projects_ofRows_rows {t : UniqueTable} (h : t.Keyed) (name : String) :
    (ofRows t.rows).projects[name]? =
      (t.projects[name]?.filter fun s => !s.features.isEmpty).map fun s =>
        { s with rawCount := 0 } := by
  rw [getElem?_projects_ofRows, rowsNamed_rows h]
  cases hs : t.projects[name]? with
  | none => rfl
  | some s =>
    have hname := h name s hs
    subst hname
    rw [Option.map_some, Option.getD_some, isEmpty_rowsOfSet, digestsOfRows_rowsOfSet]
    cases hempty : s.features.isEmpty <;> simp [Option.filter, hempty]

theorem projects_ofRows_rows {t : UniqueTable} (h : t.Keyed) :
    (ofRows t.rows).projects = (t.projects.filter fun _ s => !s.features.isEmpty).map fun _ s =>
      { s with rawCount := 0 } := by
  apply ExtTreeMap.ext_getElem?
  intro name
  rw [getElem?_projects_ofRows_rows h, ExtTreeMap.getElem?_map, ExtTreeMap.getElem?_filter']

/-- The table of the rows of a table is empty exactly if no project has a digest. -/
theorem isEmpty_projects_ofRows_rows {t : UniqueTable} (h : t.Keyed) :
    (ofRows t.rows).projects.isEmpty ↔
      ∀ (name : String) (s : UniqueSet), t.projects[name]? = some s → s.features.isEmpty := by
  rw [ExtTreeMap.isEmpty_iff, ExtTreeMap.eq_empty_iff_forall_not_mem]
  simp only [ExtTreeMap.mem_iff_isSome_getElem?, getElem?_projects_ofRows_rows h]
  refine forall_congr' fun name => ?_
  cases t.projects[name]? <;> simp

theorem isEmpty_projects_ofRows_rows_eq_false {t : UniqueTable} (h : t.Keyed) :
    (ofRows t.rows).projects.isEmpty = false ↔
      ∃ (name : String) (s : UniqueSet), t.projects[name]? = some s ∧
        s.features.isEmpty = false := by
  rw [Bool.eq_false_iff, ne_eq, isEmpty_projects_ofRows_rows h]
  simp only [not_forall, exists_prop, Bool.not_eq_true]

/-! ## Text -/

/-- The line of the heading. -/
def heading : List Char :=
  "Project,Opcode,Hash\n".toList

theorem toList_renderCsv (t : UniqueTable) :
    t.renderCsv.toList = heading ++ (t.rows.map recordOfRow).flatMap Csv.printRecord := by
  have hheading : Csv.printRecord rowColumns = heading := by decide +kernel
  rw [renderCsv, records, Csv.print, String.toList_ofList, List.flatMap_cons, hheading]

theorem rowOfRecord_recordOfRow (r : FeatureRow) :
    rowOfRecord rowColumns (recordOfRow r) = .ok r := by
  have hcolumns : (rowColumns.any fun name => rowColumns.count name != 1) = false := by
    decide +kernel
  rw [rowOfRecord, if_neg (by simp [recordOfRow, rowColumns]), if_neg (by simp [hcolumns])]
  simp [column, rowColumns, recordOfRow, List.lookup_cons]

/-- The text of a table is read as its rows. -/
theorem ofCsv_renderCsv (t : UniqueTable) : ofCsv t.renderCsv.toList = .ok (ofRows t.rows) := by
  have hrecords : Csv.records t.renderCsv.toList = rowColumns :: t.rows.map recordOfRow := by
    apply Csv.records_print
    · intro r hr
      rcases List.mem_cons.mp hr with rfl | hr
      · simp [rowColumns]
      · obtain ⟨row, _, rfl⟩ := List.mem_map.mp hr
        simp [recordOfRow]
    · change t.renderCsv.toList.head? ≠ _
      obtain ⟨rest, hheading⟩ : ∃ rest, heading = 'P' :: rest := ⟨_, rfl⟩
      rw [toList_renderCsv, hheading]
      simp
  have hcolumn : missingColumn? rowColumns = none := by decide +kernel
  have hrows : (t.rows.map recordOfRow).mapM (rowOfRecord rowColumns) = .ok t.rows := by
    have hpure : rowOfRecord rowColumns ∘ recordOfRow = pure := funext rowOfRecord_recordOfRow
    rw [List.mapM_map, hpure]
    exact (List.mapM_pure (m := Except TableFault) (f := id)).trans (by rw [List.map_id]; rfl)
  rw [ofCsv, hrecords, ofRecords]
  simp only [List.headD_cons, hcolumn, List.drop_succ_cons, List.drop_zero, hrows]
  rfl

end FirmwareMatch.UniqueTable
