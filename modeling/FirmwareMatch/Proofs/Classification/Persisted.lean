import FirmwareMatch.Proofs.Classification.OwnSource
import FirmwareMatch.Proofs.Corpus.Summary
import FirmwareMatch.Proofs.Sorting
import FirmwareMatch.Proofs.Table.Files

/-
  Classifying against a table that was saved and loaded again.

  A ranking reads nothing of a table but its projects, so a table that comes back from a document
  ranks as before. Rows bring back the projects with digests only. The scores of these are a part of
  the scores of the whole table, in its order, and sorting the part gives the part of the ranking.

  Proved:
  * `scoreTable_ofRows_rows`, `rankProjects_ofRows_rows`: the scores and the ranking of the table of
    the rows of a table.
  * `exists_rankProjects_load_saveJson`, `exists_rankProjects_load_saveCsv`: the ranking of what is
    loaded.
  * `hasCounts_foldl_add`: counts have 64 bits where the number of all instructions does.
  * `classify_persisted`: reports on a text against a table in memory and from files.
-/

namespace FirmwareMatch

open Std SortedMap

/-! ## Rankings -/

/-- The record has a digest to match. -/
def ScoreRecord.hasDigests (r : ScoreRecord) : Bool :=
  0 < r.total

section Ranking

variable {unknown : ExtTreeSet Digest} {t : UniqueTable} {thresholds : Thresholds}
  {records : List ScoreRecord}

theorem hasDigests_scoreProject (s : UniqueSet) :
    (scoreProject unknown thresholds s).hasDigests = !s.features.isEmpty := by
  unfold scoreProject ScoreRecord.hasDigests
  rw [Bool.eq_iff_iff, ExtTreeMap.isEmpty_eq_size_beq_zero]
  simp [Nat.pos_iff_ne_zero]

/-- The table of the rows of a table has the scores of the projects with digests, in order. -/
theorem scoreTable_ofRows_rows (h : t.Keyed) :
    scoreTable unknown (.ofRows t.rows) thresholds =
      (scoreTable unknown t thresholds).filter ScoreRecord.hasDigests := by
  have hdigests : ScoreRecord.hasDigests ∘ scoreProject unknown thresholds =
      fun s => !s.features.isEmpty := funext hasDigests_scoreProject
  unfold scoreTable
  rw [values_eq_map_snd, values_eq_map_snd, UniqueTable.projects_ofRows_rows h,
    ExtTreeMap.toList_map, ExtTreeMap.toList_filter, List.filter_map, hdigests, List.filter_map,
    List.map_map, List.map_map, List.map_map]
  rfl

/-- A ranking does not depend on where the table comes from. -/
theorem rankProjects_origin (hrecords : rankProjects unknown t thresholds = .ok records)
    (origin : Option Path) :
    rankProjects unknown ⟨origin, t.projects⟩ thresholds = .ok records := by
  rw [rankProjects_eq_ok_iff] at hrecords ⊢
  exact hrecords

/-- The table of the rows of a table, if it has a project, ranks the projects with digests as the
    whole table does. -/
theorem rankProjects_ofRows_rows (h : t.Keyed)
    (hempty : (UniqueTable.ofRows t.rows).projects.isEmpty = false)
    (hrecords : rankProjects unknown t thresholds = .ok records) :
    rankProjects unknown (.ofRows t.rows) thresholds =
      .ok (records.filter ScoreRecord.hasDigests) := by
  obtain ⟨_, rfl⟩ := rankProjects_eq_ok_iff.mp hrecords
  refine rankProjects_eq_ok_iff.mpr ⟨hempty, ?_⟩
  rw [scoreTable_ofRows_rows h]
  exact mergeSort_filter _ (fun a b c => ScoreRecord.ranksBefore_trans)
    ScoreRecord.ranksBefore_total

end Ranking

/-! ## Loaded tables -/

section Loaded

variable {unknown : ExtTreeSet Digest} {t : UniqueTable} {thresholds : Thresholds}
  {records : List ScoreRecord} {path : Path} {v v' : Volume}

/-- What is loaded from the document of a table has the ranking of the table. -/
theorem exists_rankProjects_load_saveJson (hkeyed : t.Keyed) (hcounts : t.HasCounts)
    (hpath : path.hasExtension "json".toList)
    (hsave : (t.saveJson path : Access (StateM Volume) PUnit).run.run v = (.ok ⟨⟩, v'))
    (hrecords : rankProjects unknown t thresholds = .ok records) :
    ∃ loaded : UniqueTable,
      (UniqueTable.load path : Access (StateM Volume) UniqueTable).run.run v' =
        (.ok loaded, v') ∧
      rankProjects unknown loaded thresholds = .ok records := by
  have hprojects := UniqueTable.projects_ofEntries_entries hkeyed
  have hempty := (rankProjects_eq_ok_iff.mp hrecords).1
  refine ⟨⟨some path, t.projects⟩, ?_, rankProjects_origin hrecords _⟩
  rw [UniqueTable.run_load_saveJson hcounts hpath hsave, UniqueTable.ofRead, hprojects, hempty]
  rfl

/-- What is loaded from the rows of a table ranks the projects with digests as the table does. -/
theorem exists_rankProjects_load_saveCsv (hkeyed : t.Keyed)
    (hpath : path.hasExtension "json".toList = false)
    (hsave : (t.saveCsv path : Access (StateM Volume) PUnit).run.run v = (.ok ⟨⟩, v'))
    (hsome : ∃ (p : String) (s : UniqueSet), t.projects[p]? = some s ∧ s.features.isEmpty = false)
    (hrecords : rankProjects unknown t thresholds = .ok records) :
    ∃ loaded : UniqueTable,
      (UniqueTable.load path : Access (StateM Volume) UniqueTable).run.run v' =
        (.ok loaded, v') ∧
      rankProjects unknown loaded thresholds = .ok (records.filter ScoreRecord.hasDigests) := by
  have hempty := (UniqueTable.isEmpty_projects_ofRows_rows_eq_false hkeyed).mpr hsome
  refine ⟨⟨some path, (UniqueTable.ofRows t.rows).projects⟩, ?_,
    rankProjects_origin (rankProjects_ofRows_rows hkeyed hempty hrecords) _⟩
  rw [UniqueTable.run_load_saveCsv hpath hsave, UniqueTable.ofRead, hempty]
  rfl

/-- Loading finds the rows of a table empty exactly if no project has a digest. -/
theorem run_load_saveCsv_eq_error_iff (hkeyed : t.Keyed)
    (hpath : path.hasExtension "json".toList = false)
    (hsave : (t.saveCsv path : Access (StateM Volume) PUnit).run.run v = (.ok ⟨⟩, v')) :
    (UniqueTable.load path : Access (StateM Volume) UniqueTable).run.run v' =
        (.error (.tableEmpty path.text), v') ↔
      ∀ (p : String) (s : UniqueSet), t.projects[p]? = some s → s.features.isEmpty := by
  rw [← UniqueTable.isEmpty_projects_ofRows_rows hkeyed, UniqueTable.run_load_saveCsv hpath hsave,
    UniqueTable.ofRead]
  cases (UniqueTable.ofRows t.rows).projects.isEmpty
  · exact iff_of_false (fun h => by cases h) Bool.false_ne_true
  · exact iff_of_true rfl rfl

end Loaded

/-- If all instructions are counted in 64 bits, so are the digests of every project. -/
theorem BuildState.hasCounts_foldl_add (c : Config) (generatedAt : String) (sources : List Source)
    (h : (sources.foldl (add c) (start generatedAt)).instructions ≤ Json.maxCount) :
    (sources.foldl (add c) (start generatedAt)).corpus.unique.HasCounts := by
  intro p s hs
  rw [Corpus.getElem?_unique, Option.map_eq_some_iff] at hs
  obtain ⟨digests, hdigests, rfl⟩ := hs
  have hsize := size_digestsOf_le c generatedAt sources p
  rw [Corpus.digestsOf, ExtTreeMap.getD_eq_getD_getElem?, hdigests, Option.getD_some,
    total_map] at hsize
  rw [(sums_foldl_add c sources (start generatedAt)).2.1] at h
  calc digests.size
      ≤ total (fun s => (s.fileRecord c).instructionCount)
          (sources.filter fun s => s.project == p) := hsize
    _ ≤ total (fun s => (s.fileRecord c).instructionCount) sources := total_filter_le _ _ sources
    _ ≤ Json.maxCount := (Nat.le_add_left _ _).trans h

/-! ## Reports -/

/-- A table that was saved and loaded again reports as the table in memory, for any sources and any
    text. From a document comes the same report. From rows comes the report with the records of the
    projects that have unique digests, in the same order and ranked from one, and no table exactly
    if no project has any. -/
theorem classify_persisted (c : Config) (generatedAt name text : String) {sources : List Source}
    (hsources : sources ≠ []) :
    ∃ (build : CorpusBuild) (report : Report),
      buildCorpus c generatedAt (sources.map .ok) = .ok build ∧
      Report.ofText c build.unique name text = .ok report ∧
      (∀ {path : Path} {v v' : Volume}, path.hasExtension "json".toList →
        build.unique.HasCounts →
        (build.unique.saveJson path : Access (StateM Volume) PUnit).run.run v = (.ok ⟨⟩, v') →
        ∃ loaded : UniqueTable,
          (UniqueTable.load path : Access (StateM Volume) UniqueTable).run.run v' =
            (.ok loaded, v') ∧
          Report.ofText c loaded name text = .ok report) ∧
      (∀ {path : Path} {v v' : Volume}, path.hasExtension "json".toList = false →
        (build.unique.saveCsv path : Access (StateM Volume) PUnit).run.run v = (.ok ⟨⟩, v') →
        ((UniqueTable.load path : Access (StateM Volume) UniqueTable).run.run v' =
            (.error (.tableEmpty path.text), v') ↔
          ∀ (p : String) (s : UniqueSet), build.unique.projects[p]? = some s →
            s.features.isEmpty) ∧
        ((∃ (p : String) (s : UniqueSet), build.unique.projects[p]? = some s ∧
            s.features.isEmpty = false) →
          ∃ (loaded : UniqueTable) (kept : Report),
            (UniqueTable.load path : Access (StateM Volume) UniqueTable).run.run v' =
              (.ok loaded, v') ∧
            Report.ofText c loaded name text = .ok kept ∧
            kept.firmware = report.firmware ∧
            kept.instructionCount = report.instructionCount ∧
            kept.distinctDigests = report.distinctDigests ∧
            kept.records = (report.records.filter fun r => 0 < r.total) ∧
            kept.ranked.map Prod.fst = List.range' 1 kept.records.length)) := by
  obtain ⟨s, hs⟩ := List.exists_mem_of_ne_nil sources hsources
  let t := (sources.foldl (BuildState.add c) (.start generatedAt)).corpus.unique
  have hkeyed : t.Keyed := Corpus.keyed_unique _
  have hproject : s.project ∈ t.projects := Corpus.mem_projects_unique.mpr
    ((BuildState.mem_corpus_start c generatedAt sources _).mpr ⟨s, hs, rfl⟩)
  obtain ⟨records, hrecords⟩ : ∃ records,
      rankProjects (Fingerprint.ofText c text).digests t c.thresholds = .ok records :=
    exists_rankProjects hproject
  refine ⟨_, _, buildCorpus_ok c generatedAt sources, Report.ofText_of_rankProjects hrecords name,
    ?_, ?_⟩
  · intro path v v' hpath hcounts hsave
    obtain ⟨loaded, hload, hsame⟩ :=
      exists_rankProjects_load_saveJson hkeyed hcounts hpath hsave hrecords
    exact ⟨loaded, hload, Report.ofText_of_rankProjects hsame name⟩
  · intro path v v' hpath hsave
    refine ⟨run_load_saveCsv_eq_error_iff hkeyed hpath hsave, fun hsome => ?_⟩
    obtain ⟨loaded, hload, hpart⟩ :=
      exists_rankProjects_load_saveCsv hkeyed hpath hsave hsome hrecords
    exact ⟨loaded, _, hload, Report.ofText_of_rankProjects hpart name, rfl, rfl, rfl, rfl,
      Report.map_fst_ranked _⟩

/-- Beside a listing with one instruction an empty one, whose project is known and has no digests:
    the document keeps its record, the rows do not. -/
theorem classify_persisted_empty_listing :
    let sources : List Source :=
      [⟨"alpha", "1", "a.asm", ".text\nnop\n"⟩, ⟨"beta", "1", "b.asm", ""⟩]
    let volume : Volume := ⟨.directory [], []⟩
    ∃ (build : CorpusBuild) (report kept : Report) (document rows : UniqueTable)
      (v v' : Volume),
      buildCorpus .standard "now" (sources.map .ok) = .ok build ∧
      Report.ofText .standard build.unique "a.asm" ".text\nnop\n" = .ok report ∧
      (build.unique.saveJson ⟨"unique.json"⟩ : Access (StateM Volume) PUnit).run.run volume =
        (.ok ⟨⟩, v) ∧
      (UniqueTable.load ⟨"unique.json"⟩ : Access (StateM Volume) UniqueTable).run.run v =
        (.ok document, v) ∧
      Report.ofText .standard document "a.asm" ".text\nnop\n" = .ok report ∧
      (build.unique.saveCsv ⟨"unique.csv"⟩ : Access (StateM Volume) PUnit).run.run volume =
        (.ok ⟨⟩, v') ∧
      (UniqueTable.load ⟨"unique.csv"⟩ : Access (StateM Volume) UniqueTable).run.run v' =
        (.ok rows, v') ∧
      Report.ofText .standard rows "a.asm" ".text\nnop\n" = .ok kept ∧
      kept.records = report.records.filter fun r => 0 < r.total := by
  intro sources volume
  obtain ⟨build, report, hbuild, hreport, hjson, hcsv⟩ :=
    classify_persisted .standard "now" "a.asm" ".text\nnop\n" (List.cons_ne_nil _ _ : sources ≠ [])
  let b := sources.foldl (BuildState.add .standard) (.start "now")
  obtain rfl : b.finish = build :=
    Except.ok.inj ((buildCorpus_ok .standard "now" sources).symm.trans hbuild)
  obtain ⟨v, hv⟩ : ∃ v,
      volume.write? ⟨"unique.json"⟩ b.finish.unique.renderJson.toUTF8 = some v :=
    Option.isSome_iff_exists.mp (by decide +kernel)
  obtain ⟨v', hv'⟩ : ∃ v',
      volume.write? ⟨"unique.csv"⟩ b.finish.unique.renderCsv.toUTF8 = some v' :=
    Option.isSome_iff_exists.mp (by decide +kernel)
  have hsave : (b.finish.unique.saveJson ⟨"unique.json"⟩ :
      Access (StateM Volume) PUnit).run.run volume = (.ok ⟨⟩, v) := by
    rw [UniqueTable.saveJson, Volume.run_writeText, hv]
  have hsave' : (b.finish.unique.saveCsv ⟨"unique.csv"⟩ :
      Access (StateM Volume) PUnit).run.run volume = (.ok ⟨⟩, v') := by
    rw [UniqueTable.run_saveCsv, hv']
  have hcounts : b.finish.unique.HasCounts :=
    BuildState.hasCounts_foldl_add .standard "now" sources (by decide +kernel)
  have hsome : ∃ (p : String) (s : UniqueSet), b.finish.unique.projects[p]? = some s ∧
      s.features.isEmpty = false := by
    obtain ⟨d, hd⟩ : ∃ d, d ∈ Source.digests .standard ⟨"alpha", "1", "a.asm", ".text\nnop\n"⟩ :=
      Source.exists_mem_digests_iff.mpr (by decide +kernel)
    have hnone : ¬ ∃ d, d ∈ Source.digests .standard ⟨"beta", "1", "b.asm", ""⟩ := by
      rw [Source.exists_mem_digests_iff]
      decide +kernel
    have hholds := BuildState.holds_corpus_start .standard "now" sources
    obtain ⟨p, s, hs, hmem⟩ := (Corpus.exists_mem_features_unique_iff b.corpus d).mpr
      ⟨"alpha", (hholds _ _).mpr ⟨_, List.mem_cons_self, rfl, hd⟩, fun q hq => by
        obtain ⟨t, ht, rfl, htd⟩ := (hholds q d).mp hq
        rcases List.mem_pair.mp ht with rfl | rfl
        · rfl
        · exact absurd ⟨d, htd⟩ hnone⟩
    exact ⟨p, s, hs, isEmpty_eq_false_of_mem hmem⟩
  obtain ⟨document, hdocument, hsame⟩ := hjson (by decide +kernel) hcounts hsave
  obtain ⟨rows, kept, hrows, hkept, _, _, _, hrecords, _⟩ :=
    (hcsv (by decide +kernel) hsave').2 hsome
  exact ⟨_, report, kept, document, rows, v, v', hbuild, hreport, hsave, hdocument, hsame, hsave',
    hrows, hkept, hrecords⟩

end FirmwareMatch
