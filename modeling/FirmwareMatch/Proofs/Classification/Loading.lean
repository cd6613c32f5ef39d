import FirmwareMatch.Disk.Volume
import FirmwareMatch.Proofs.Classification.OwnSource
import FirmwareMatch.Proofs.Table.Regrouping
import FirmwareMatch.Table.Access

/-
  Loading a table, whatever lies at its path.

  Of the file system no more is assumed than that its operations have results: it may find nothing,
  refuse to read, or give any bytes. What is found is a table or a reason why there is none
  (`fetch`), and loading only judges it. Every table that is found is one of rows or one of entries,
  so each of its sets stands under the name of its project, and in a table of rows each has a
  digest.

  Proved:
  * `run_load_eq_map`: loading is judging what is found.
  * `keyed_ofRows`, `keyed_ofEntries`: the sets of a table that is built stand under their names.
  * `exists_of_ofBytes`: the tables that bytes can hold.
  * `Report.exists_ofText_ranked`: reports against a table with a project.
  * `load_outcome`: loading fails in one of two ways or gives a table that every text can be
    classified against.
-/

namespace FirmwareMatch

open Std SortedMap

namespace UniqueTable

/-! ## Sets of tables that are built -/

/-- The sets of a table of rows stand under the names of their projects, and have digests. -/
theorem of_getElem?_projects_ofRows {rs : List FeatureRow} {name : String} {s : UniqueSet}
    (h : (ofRows rs).projects[name]? = some s) : s.project = name ∧ s.features.isEmpty = false := by
  rw [getElem?_projects_ofRows] at h
  split at h
  · cases h
  · rename_i hrows
    obtain rfl := Option.some.inj h
    refine ⟨rfl, ?_⟩
    obtain ⟨r, hr⟩ := List.exists_mem_of_ne_nil _ (mt List.isEmpty_iff.mpr hrows)
    have hmem : r.hash ∈ digestsOfRows (rowsNamed name rs) :=
      (mem_foldl_insert_map FeatureRow.hash FeatureRow.opcode _ ∅ r.hash).mpr (.inr ⟨r, hr, rfl⟩)
    exact isEmpty_eq_false_of_mem hmem

theorem keyed_ofRows (rs : List FeatureRow) : (ofRows rs).Keyed :=
  fun _ _ h => (of_getElem?_projects_ofRows h).1

theorem keyed_ofEntries (es : List ProjectEntry) : (ofEntries es).Keyed := by
  intro name s h
  rw [getElem?_projects_ofEntries_contents] at h
  split at h
  · cases h
  · rw [← Option.some.inj h]

/-! ## Tables that bytes hold -/

/-- What two steps give, the first one gave something for. -/
theorem exists_of_bind_eq_ok {ε α β : Type} {x : Except ε α} {f : α → Except ε β} {b : β}
    (h : x >>= f = .ok b) : ∃ a, x = .ok a ∧ f a = .ok b := by
  cases x with
  | error e => cases h
  | ok a => exact ⟨a, rfl, h⟩

theorem exists_of_ofRecords {records : List (List String)} {t : UniqueTable}
    (h : ofRecords records = .ok t) : ∃ rs, t = ofRows rs := by
  unfold ofRecords at h
  dsimp only at h
  split at h
  · cases h
  · obtain ⟨rs, -, hrows⟩ := exists_of_bind_eq_ok h
    exact ⟨rs, (Except.ok.inj hrows).symm⟩

theorem exists_of_ofJson {v : Json} {t : UniqueTable} (h : ofJson v = .ok t) :
    ∃ es, t = ofEntries es := by
  unfold ofJson at h
  obtain ⟨ms, -, h⟩ := exists_of_bind_eq_ok h
  obtain ⟨es, -, hentries⟩ := exists_of_bind_eq_ok h
  exact ⟨es, (Except.ok.inj hentries).symm⟩

/-- Bytes hold the table of a document if the path asks for JSON, and a table of rows otherwise. -/
theorem exists_of_ofBytes {path : Path} {bytes : ByteArray} {t : UniqueTable}
    (h : ofBytes path bytes = .ok t) :
    (∃ es, t = ofEntries es) ∧ path.hasExtension "json".toList ∨
      (∃ rs, t = ofRows rs) ∧ path.hasExtension "json".toList = false := by
  unfold ofBytes at h
  split at h
  · rename_i hpath
    refine .inl ⟨?_, hpath⟩
    unfold ofJsonBytes at h
    split at h
    · cases h
    · rename_i text htext
      cases hread : Json.parse text >>= ofJson with
      | error detail =>
        rw [hread] at h
        cases h
      | ok t' =>
        rw [hread] at h
        obtain ⟨v, -, hv⟩ := exists_of_bind_eq_ok hread
        exact Except.ok.inj h ▸ exists_of_ofJson hv
  · rename_i hpath
    refine .inr ⟨?_, Bool.eq_false_iff.mpr hpath⟩
    unfold ofCsvBytes at h
    split at h
    · exact exists_of_ofRecords h
    · cases h

/-- The sets of a table that bytes hold stand under the names of their projects, and have digests
    unless the path asks for JSON. -/
theorem of_ofBytes {path : Path} {bytes : ByteArray} {t : UniqueTable}
    (h : ofBytes path bytes = .ok t) :
    t.Keyed ∧ (path.hasExtension "json".toList = false →
      ∀ (name : String) (s : UniqueSet), t.projects[name]? = some s → s.features.isEmpty = false) := by
  rcases exists_of_ofBytes h with ⟨⟨es, rfl⟩, hpath⟩ | ⟨⟨rs, rfl⟩, -⟩
  · exact ⟨keyed_ofEntries es, fun hno => absurd (hpath.symm.trans hno) (by decide)⟩
  · exact ⟨keyed_ofRows rs, fun _ _ _ hs => (of_getElem?_projects_ofRows hs).2⟩

/-! ## What is found at a path -/

section

variable {m : Type → Type} [Monad m] [Disk m]

/-- The table at a path, or the reason why there is none. -/
def fetch (path : Path) : m (Except TableFault UniqueTable) := do
  if (← Disk.kindOf path) != .file then return .error .absent
  match ← Disk.readFile path with
  | .error detail => return .error (.unreadable detail)
  | .ok bytes => return ofBytes path bytes

/-- Loading is judging what is found. -/
theorem run_load_eq_map [LawfulMonad m] (path : Path) :
    (load path : Access m UniqueTable).run = ofRead path <$> fetch path := by
  unfold load fetch Access.kindOf
  simp only [ExceptT.run_bind_lift, map_bind]
  congr 1
  funext kind
  by_cases hkind : kind = .file
  · subst hkind
    simp only [bne_self_eq_false, Bool.false_eq_true, if_false]
    change (ExceptT.lift (Disk.readFile path) >>= _ : Access m UniqueTable).run = _
    rw [ExceptT.run_bind_lift, map_bind]
    congr 1
    funext read
    cases read with
    | error detail => simp [ofRead]
    | ok bytes => simp [Access.ofExcept]
  · have hother : (kind != .file) = true := by simpa using hkind
    simp [hother, ofRead]

end

end UniqueTable

/-- Every text has a report against a table with a project: one record for each project, ranked from
    one. -/
theorem Report.exists_ofText_ranked {t : UniqueTable} (hkeyed : t.Keyed)
    (hsome : t.projects.isEmpty = false) (c : Config) (name text : String) :
    ∃ report, Report.ofText c t name text = .ok report ∧
      (report.records.map ScoreRecord.project).Perm t.projects.keys ∧
      report.ranked.map Prod.fst = List.range' 1 t.projects.size := by
  have hrecords : rankProjects (Fingerprint.ofText c text).digests t c.thresholds = .ok _ :=
    rankProjects_eq_ok_iff.mpr ⟨hsome, rfl⟩
  have hperm := (perm_of_rankProjects hrecords).map ScoreRecord.project
  rw [map_project_scoreTable hkeyed] at hperm
  refine ⟨_, Report.ofText_of_rankProjects hrecords name, hperm, ?_⟩
  have hlength := hperm.length_eq
  rw [List.length_map, ExtTreeMap.length_keys] at hlength
  rw [Report.map_fst_ranked, hlength]

namespace UniqueTable

section

variable {σ : Type} [Disk (StateM σ)]

/-- A table that is found was in the bytes of a file. -/
theorem exists_of_fetch {path : Path} {s s' : σ} {t : UniqueTable}
    (h : StateT.run (fetch path : StateM σ (Except TableFault UniqueTable)) s = (.ok t, s')) :
    ∃ bytes, ofBytes path bytes = .ok t := by
  unfold fetch at h
  rw [StateT.run_bind] at h
  rcases hkind : StateT.run (Disk.kindOf path : StateM σ EntryKind) s with ⟨kind, u⟩
  rw [hkind] at h
  change StateT.run (if kind != .file then _ else _) u = _ at h
  split at h
  · cases h
  · rw [StateT.run_bind] at h
    rcases hread : StateT.run (Disk.readFile path : StateM σ (Except String ByteArray)) u with
      ⟨read, u'⟩
    rw [hread] at h
    cases read with
    | error detail => cases h
    | ok bytes => exact ⟨bytes, (Prod.mk.inj h).1⟩

/-- Loading has one of three outcomes, on any file system, for any path and whatever is found there.
    Nothing that can be used: the table is unusable, for whatever reason. A table without projects:
    it is empty. A table with a project: it is given, and knows its path. Each of its sets stands
    under the name of its project, and has a digest unless the path asks for JSON; and every text
    has a report against it, with one record for each project, ranked from one. -/
theorem load_outcome (path : Path) (s : σ) :
    let found := StateT.run (fetch path : StateM σ (Except TableFault UniqueTable)) s
    let loaded := (load path : Access (StateM σ) UniqueTable).run.run s
    loaded.2 = found.2 ∧
    ((∃ reason, found.1 = .error reason ∧ loaded.1 = .error (.tableUnusable path reason)) ∨
      (∃ t, found.1 = .ok t ∧ t.projects.isEmpty = true ∧
        loaded.1 = .error (.tableEmpty path.text)) ∨
      ∃ t, found.1 = .ok t ∧ t.projects.isEmpty = false ∧
        loaded.1 = .ok { t with origin := some path } ∧
        (∀ (name : String) (s : UniqueSet), t.projects[name]? = some s → s.project = name ∧
          (path.hasExtension "json".toList = false → s.features.isEmpty = false)) ∧
        ∀ (c : Config) (name text : String), ∃ report,
          Report.ofText c { t with origin := some path } name text = .ok report ∧
          (report.records.map ScoreRecord.project).Perm t.projects.keys ∧
          report.ranked.map Prod.fst = List.range' 1 t.projects.size) := by
  intro found loaded
  have hloaded : loaded = (ofRead path found.1, found.2) := by
    show StateT.run (load path : Access (StateM σ) UniqueTable).run s = _
    rw [run_load_eq_map, StateT.run_map]
    rfl
  refine ⟨by rw [hloaded], ?_⟩
  rw [hloaded]
  rcases hfound : found with ⟨t | t, s'⟩
  · exact .inl ⟨t, rfl, rfl⟩
  · obtain ⟨bytes, hbytes⟩ := exists_of_fetch hfound
    obtain ⟨hkeyed, hdigests⟩ := of_ofBytes hbytes
    dsimp only [ofRead]
    cases hempty : t.projects.isEmpty with
    | true => exact .inr (.inl ⟨t, rfl, hempty, rfl⟩)
    | false =>
      have hkeyed' : UniqueTable.Keyed { t with origin := some path } := hkeyed
      exact .inr (.inr ⟨t, rfl, hempty, rfl,
        fun name s hs => ⟨hkeyed name s hs, fun hpath => hdigests hpath name s hs⟩,
        Report.exists_ofText_ranked hkeyed' hempty⟩)

end

/-- Rows with an empty name, two rows of a project and two of a digest; a heading without rows; and
    half of a document. -/
theorem load_outcome_rows :
    let v : Volume := ⟨.directory
      [("rows.csv", .file "Project,Opcode,Hash\nb,nop,1\n,mov,2\nb,bx,3\nb,add,1\n".toUTF8),
        ("heading.csv", .file "Project,Opcode,Hash\n".toUTF8),
        ("half.json", .file "\x7b\"projects\": [".toUTF8)], []⟩
    let loaded := fun path : Path => ((load path : Access (StateM Volume) UniqueTable).run.run v).1
    (∃ t, loaded ⟨"rows.csv"⟩ = .ok t ∧ t.origin = some ⟨"rows.csv"⟩ ∧
      (∀ (name : String) (s : UniqueSet), t.projects[name]? = some s →
        s.project = name ∧ s.features.isEmpty = false) ∧
      ∀ (c : Config) (name text : String), ∃ report, Report.ofText c t name text = .ok report ∧
        (report.records.map ScoreRecord.project).Perm ["", "b"] ∧
        report.ranked.map Prod.fst = [1, 2]) ∧
    loaded ⟨"heading.csv"⟩ = .error (.tableEmpty "heading.csv") ∧
    ∃ reason, loaded ⟨"half.json"⟩ = .error (.tableUnusable ⟨"half.json"⟩ reason) := by
  intro v loaded
  let found := fun path : Path =>
    (StateT.run (fetch path : StateM Volume (Except TableFault UniqueTable)) v).1
  refine ⟨?_, ?_, ?_⟩
  · obtain ⟨t, hfound, hkeys⟩ : ∃ t, found ⟨"rows.csv"⟩ = .ok t ∧ t.projects.keys = ["", "b"] :=
      ⟨_, rfl, by decide +kernel⟩
    obtain ⟨-, h | h | ⟨t', ht', -, hloaded, hsets, hreports⟩⟩ := load_outcome ⟨"rows.csv"⟩ v
    · obtain ⟨reason, hreason, -⟩ := h
      cases hfound.symm.trans hreason
    · obtain ⟨t', ht', hnone, -⟩ := h
      obtain rfl := Except.ok.inj (hfound.symm.trans ht')
      rw [ExtTreeMap.isEmpty_iff.mp hnone] at hkeys
      cases hkeys
    · obtain rfl := Except.ok.inj (hfound.symm.trans ht')
      have hsize : t.projects.size = 2 := by rw [← ExtTreeMap.length_keys, hkeys]; rfl
      rw [hkeys, hsize] at hreports
      refine ⟨_, hloaded, rfl, fun name s hs => ⟨(hsets name s hs).1, (hsets name s hs).2 ?_⟩,
        hreports⟩
      decide +kernel
  · obtain ⟨t, hfound, hnone⟩ : ∃ t, found ⟨"heading.csv"⟩ = .ok t ∧ t.projects.isEmpty :=
      ⟨_, rfl, by decide +kernel⟩
    obtain ⟨-, h | h | h⟩ := load_outcome ⟨"heading.csv"⟩ v
    · obtain ⟨reason, hreason, -⟩ := h
      cases hfound.symm.trans hreason
    · obtain ⟨t', -, -, hloaded⟩ := h
      exact hloaded
    · obtain ⟨t', ht', hsome, -⟩ := h
      obtain rfl := Except.ok.inj (hfound.symm.trans ht')
      rw [hnone] at hsome
      cases hsome
  · have hfails : (found ⟨"half.json"⟩).isOk = false := by decide +kernel
    obtain ⟨-, h | h | h⟩ := load_outcome ⟨"half.json"⟩ v
    · obtain ⟨reason, -, hloaded⟩ := h
      exact ⟨reason, hloaded⟩
    · obtain ⟨t, ht, -⟩ := h
      cases hfails.symm.trans (congrArg Except.isOk ht)
    · obtain ⟨t, ht, -⟩ := h
      cases hfails.symm.trans (congrArg Except.isOk ht)

end UniqueTable

end FirmwareMatch
