import FirmwareMatch.Proofs.Disk.Volume
import FirmwareMatch.Proofs.Table.Document
import FirmwareMatch.Table.Access

/-
  Tables that were saved in files and are loaded again.

  A file that a program wrote holds the bytes of the text, which are its UTF-8, and the text is read
  as comma-separated rows unless the path ends in `.json`. Rows keep the projects with digests; the
  document keeps the whole table.

  Proved:
  * `decodeUtf8?_toUTF8`: a text is read back from its bytes.
  * `run_saveCsv`: saving a table is writing its text.
  * `run_load`: loading a table is reading the bytes at its path.
  * `load_saveCsv`: what is loaded from a file to which a table was saved as comma-separated text.
  * `load_saveJson`: a table that was saved as a document is loaded as it was.
-/

namespace FirmwareMatch

open Std

theorem Text.decodeUtf8?_toUTF8 (s : String) : decodeUtf8? s.toUTF8 = some s :=
  dif_pos s.isValidUTF8

namespace UniqueTable

/-- The bytes of a text of rows are the table of the rows. -/
theorem ofBytes_renderCsv (t : UniqueTable) {path : Path}
    (hpath : path.hasExtension "json".toList = false) :
    ofBytes path t.renderCsv.toUTF8 = .ok (ofRows t.rows) := by
  rw [ofBytes, hpath, if_neg Bool.false_ne_true, ofCsvBytes, Text.utf8Prefix,
    Text.decodeUtf8?_toUTF8]
  exact ofCsv_renderCsv t

/-- Saving a table is as if its text were written at once. -/
theorem run_saveCsv (v : Volume) (path : Path) (t : UniqueTable) :
    (saveCsv path t : Access (StateM Volume) PUnit).run.run v =
      match v.write? path t.renderCsv.toUTF8 with
      | some w => (.ok ⟨⟩, w)
      | none => (.error (.csv Volume.refusal), v) :=
  Volume.run_writeRecords v path t.records

theorem write?_of_run_saveCsv {t : UniqueTable} {path : Path} {v v' : Volume}
    (h : (saveCsv path t : Access (StateM Volume) PUnit).run.run v = (.ok ⟨⟩, v')) :
    v.write? path t.renderCsv.toUTF8 = some v' :=
  Volume.write?_of_run_writeRecords h

/-- Loading a table reads the bytes at its path and changes nothing. -/
theorem run_load {v : Volume} {path : Path} {bytes : ByteArray} (hkind : v.kindOf path = .file)
    (hread : v.read? path = some bytes) :
    (load path : Access (StateM Volume) UniqueTable).run.run v =
      (ofRead path (ofBytes path bytes), v) := by
  rw [load, Volume.run_kindOf_bind, hkind]
  exact Volume.run_readFile_bind hread _

/-- What is loaded from a file to which a table was saved as comma-separated text: the table of its
    rows. -/
theorem run_load_saveCsv {t : UniqueTable} {path : Path}
    (hpath : path.hasExtension "json".toList = false) {v v' : Volume}
    (hsave : (saveCsv path t : Access (StateM Volume) PUnit).run.run v = (.ok ⟨⟩, v')) :
    (load path : Access (StateM Volume) UniqueTable).run.run v' =
      (ofRead path (.ok (ofRows t.rows)), v') := by
  have hwrite := write?_of_run_saveCsv hsave
  rw [run_load (Volume.kindOf_write? hwrite) (Volume.read?_write? hwrite),
    ofBytes_renderCsv t hpath]

/-- A table without digests has no rows. -/
theorem rows_eq_nil {t : UniqueTable}
    (h : ∀ (name : String) (s : UniqueSet), t.projects[name]? = some s → s.features.isEmpty) :
    t.rows = [] := by
  rw [rows, List.flatMap_eq_nil_iff, SortedMap.values_eq_map_snd]
  intro s hs
  obtain ⟨⟨name, s⟩, hmem, rfl⟩ := List.mem_map.mp hs
  rw [← List.isEmpty_iff, isEmpty_rowsOfSet]
  exact h name s (ExtTreeMap.mem_toList_iff_getElem?_eq_some.mp hmem)

/-- For every table, with any texts as names, opcodes and digests: what is loaded from a file to
    which the table was saved as comma-separated text, unless the path asks for JSON. The projects
    with digests come back, each with all of them and without the number of all its digests; if
    there is none, the file is the heading and loading finds the table empty. -/
theorem load_saveCsv {t : UniqueTable} (hkeyed : t.Keyed) {path : Path}
    (hpath : path.hasExtension "json".toList = false) {v v' : Volume}
    (hsave : (saveCsv path t : Access (StateM Volume) PUnit).run.run v = (.ok ⟨⟩, v')) :
    ((∃ (name : String) (s : UniqueSet), t.projects[name]? = some s ∧
        s.features.isEmpty = false) →
      ∃ loaded : UniqueTable,
        (load path : Access (StateM Volume) UniqueTable).run.run v' = (.ok loaded, v') ∧
        loaded.origin = some path ∧
        ∀ name : String, loaded.projects[name]? =
          (t.projects[name]?.filter fun s => !s.features.isEmpty).map fun s =>
            { s with rawCount := 0 }) ∧
    ((∀ (name : String) (s : UniqueSet), t.projects[name]? = some s → s.features.isEmpty) →
      v'.read? path = some "Project,Opcode,Hash\n".toUTF8 ∧
      (load path : Access (StateM Volume) UniqueTable).run.run v' =
        (.error (.tableEmpty path.text), v')) := by
  have hload := run_load_saveCsv hpath hsave
  constructor
  · intro hsome
    have hempty := (isEmpty_projects_ofRows_rows_eq_false hkeyed).mpr hsome
    refine ⟨{ ofRows t.rows with origin := some path }, ?_, rfl,
      getElem?_projects_ofRows_rows hkeyed⟩
    rw [hload, ofRead, hempty]
    rfl
  · intro hall
    have hrows := rows_eq_nil hall
    have htext : t.renderCsv = "Project,Opcode,Hash\n" := by
      rw [← String.toList_inj, toList_renderCsv, hrows]
      exact List.append_nil _
    refine ⟨htext ▸ Volume.read?_write? (write?_of_run_saveCsv hsave), ?_⟩
    rw [hload, hrows]
    rfl

/-- Names, opcodes and digests with quotes, commas, line breaks and nothing at all, beside a project
    whose only digest is not its own. -/
theorem load_saveCsv_awkward :
    let corpus : Corpus :=
      ((∅ : Corpus).insert "a, \"b\"\n" (((∅ : DigestMap).insert "" " mov,\r").insert "d" "")).insert
        "" ((∅ : DigestMap).insert "d" "x")
    let path : Path := ⟨"unique.csv"⟩
    let v : Volume := ⟨.directory [], []⟩
    ∃ (v' : Volume) (loaded : UniqueTable),
      (saveCsv path corpus.unique : Access (StateM Volume) PUnit).run.run v = (.ok ⟨⟩, v') ∧
      (load path : Access (StateM Volume) UniqueTable).run.run v' = (.ok loaded, v') ∧
      loaded.projects.contains "" = false ∧
      (loaded.projects["a, \"b\"\n"]?.map fun s => (s.rawCount, s.features.toList)) =
        some (0, [("", " mov,\r")]) := by
  intro corpus path v
  obtain ⟨v', hwrite⟩ : ∃ v', v.write? path corpus.unique.renderCsv.toUTF8 = some v' :=
    Option.isSome_iff_exists.mp (by decide +kernel)
  have hsave : (saveCsv path corpus.unique : Access (StateM Volume) PUnit).run.run v =
      (.ok ⟨⟩, v') := by
    rw [run_saveCsv, hwrite]
  have hown : (corpus.unique.projects["a, \"b\"\n"]?.map fun s =>
      (s.features.isEmpty, s.features.toList)) = some (false, [("", " mov,\r")]) := by
    decide +kernel
  have hnone : (corpus.unique.projects[""]?.filter fun s => !s.features.isEmpty).isNone := by
    decide +kernel
  obtain ⟨s, hs, hfeatures⟩ := Option.map_eq_some_iff.mp hown
  obtain ⟨hempty, hlist⟩ := Prod.mk.inj hfeatures
  obtain ⟨loaded, hload, _, hprojects⟩ :=
    (load_saveCsv corpus.keyed_unique (by decide +kernel) hsave).1 ⟨_, s, hs, hempty⟩
  refine ⟨v', loaded, hsave, hload, ?_, ?_⟩
  · rw [ExtTreeMap.contains_eq_isSome_getElem?, hprojects, Option.isNone_iff_eq_none.mp hnone]
    rfl
  · rw [hprojects, hs]
    simp [Option.filter, hempty, hlist]

/-! ## Documents -/

/-- The bytes of a document are the table of its entries. -/
theorem ofBytes_renderJson {t : UniqueTable} (h : t.HasCounts) {path : Path}
    (hpath : path.hasExtension "json".toList) :
    ofBytes path t.renderJson.toUTF8 = .ok (ofEntries t.entries) := by
  rw [ofBytes, if_pos hpath, ofJsonBytes, Text.decodeUtf8?_toUTF8]
  dsimp only
  rw [parse_renderJson h]
  rfl

/-- What is loaded from a file with the extension `json` to which a table was saved as a document:
    the table of its entries. -/
theorem run_load_saveJson {t : UniqueTable} (hcounts : t.HasCounts) {path : Path}
    (hpath : path.hasExtension "json".toList) {v v' : Volume}
    (hsave : (saveJson path t : Access (StateM Volume) PUnit).run.run v = (.ok ⟨⟩, v')) :
    (load path : Access (StateM Volume) UniqueTable).run.run v' =
      (ofRead path (.ok (ofEntries t.entries)), v') := by
  have hwrite := Volume.write?_of_run_writeText hsave
  rw [run_load (Volume.kindOf_write? hwrite) (Volume.read?_write? hwrite),
    ofBytes_renderJson hcounts hpath]

/-- For every table, with any texts as names, opcodes and digests and any numbers of 64 bits: what
    is loaded from a file with the extension `json` to which the table was saved as a document. All
    projects come back, also those without digests, and all that is known of them; a table without
    projects is found empty. -/
theorem load_saveJson {t : UniqueTable} (hkeyed : t.Keyed) (hcounts : t.HasCounts) {path : Path}
    (hpath : path.hasExtension "json".toList) {v v' : Volume}
    (hsave : (saveJson path t : Access (StateM Volume) PUnit).run.run v = (.ok ⟨⟩, v')) :
    (t.projects.isEmpty = false →
      (load path : Access (StateM Volume) UniqueTable).run.run v' =
        (.ok ⟨some path, t.projects⟩, v')) ∧
    (t.projects.isEmpty = true →
      (load path : Access (StateM Volume) UniqueTable).run.run v' =
        (.error (.tableEmpty path.text), v')) := by
  rw [run_load_saveJson hcounts hpath hsave, ofRead, projects_ofEntries_entries hkeyed]
  constructor
  · intro hempty
    rw [if_neg (by simp [hempty])]
  · intro hempty
    rw [if_pos hempty]

/-- Names and opcodes with characters that are escaped, a project without digests, and the largest
    number that a count can be. -/
theorem load_saveJson_escaped :
    let alpha : UniqueSet := ⟨"a\"\n\\", Json.maxCount, (∅ : DigestMap).insert "d\x01" "mov \u00e9"⟩
    let beta : UniqueSet := ⟨"", 3, ∅⟩
    let t : UniqueTable :=
      ⟨none, ((∅ : ExtTreeMap String UniqueSet).insert alpha.project alpha).insert beta.project beta⟩
    let path : Path := ⟨"unique.json"⟩
    ∃ v' : Volume,
      (saveJson path t : Access (StateM Volume) PUnit).run.run ⟨.directory [], []⟩ = (.ok ⟨⟩, v') ∧
      (load path : Access (StateM Volume) UniqueTable).run.run v' =
        (.ok ⟨some path, t.projects⟩, v') := by
  intro alpha beta t path
  have hlookup : ∀ (p : String) (s : UniqueSet), t.projects[p]? = some s → s.project = p ∧
      s.rawCount ≤ Json.maxCount := by
    intro p s hs
    simp only [t, ExtTreeMap.getElem?_insert, LawfulEqCmp.compare_eq_iff_eq,
      ExtTreeMap.getElem?_empty] at hs
    split at hs
    · rename_i hp
      exact ⟨by rw [← Option.some.inj hs, hp], by rw [← Option.some.inj hs]; decide⟩
    · split at hs
      · rename_i hp
        exact ⟨by rw [← Option.some.inj hs, hp], by rw [← Option.some.inj hs]⟩
      · simp at hs
  obtain ⟨v', hwrite⟩ : ∃ v', (⟨.directory [], []⟩ : Volume).write? path t.renderJson.toUTF8 =
      some v' := Option.isSome_iff_exists.mp (by decide +kernel)
  have hsave : (saveJson path t : Access (StateM Volume) PUnit).run.run ⟨.directory [], []⟩ =
      (.ok ⟨⟩, v') := by
    rw [saveJson, Volume.run_writeText, hwrite]
  exact ⟨v', hsave, (load_saveJson (fun p s hs => (hlookup p s hs).1)
    (fun p s hs => (hlookup p s hs).2) (by decide +kernel) hsave).1 (by decide +kernel)⟩

end UniqueTable

end FirmwareMatch
