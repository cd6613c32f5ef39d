import FirmwareMatch.Corpus.Build
import FirmwareMatch.Proofs.SortedMap

/-
  The projects, versions and files that the feature store has.

  A source changes one version of one project, and adds one file to it; both are made if they are
  not there. So the store has the projects of the sources and the versions of a project are those of
  its sources, each once, and every source is one file, in whichever order the sources come.

  Proved:
  * `findNamed?_changeNamed_of_ne`, `map_name_changeNamed`, `perm_flatMap_changeNamed`: what a
    change of one named record leaves of the others, of the names and of the parts of all records.
  * `versionsOf_changeVersion`: a change of a version, seen from the versions of a project.
  * `mem_projectNames_foldl_add`, `mem_versionNames_foldl_add`, `files_foldl_add`,
    `filesOf_foldl_add`: what a sequence of sources leaves.
  * `projectNames_perm`, `versionNames_perm`: the names after reordered sources.
-/

namespace FirmwareMatch

open SortedMap

/-! ## Named records -/

/-- The names, with one more at the end if it is new. -/
def withName (name : String) (names : List String) : List String :=
  if name ∈ names then names else names ++ [name]

theorem mem_withName {name other : String} {names : List String} :
    other ∈ withName name names ↔ other ∈ names ∨ name = other := by
  unfold withName
  split
  · rename_i h
    constructor
    · exact Or.inl
    · rintro (hmem | rfl)
      · exact hmem
      · exact h
  · simp [eq_comm]

theorem nodup_withName {name : String} {names : List String} (h : names.Nodup) :
    (withName name names).Nodup := by
  unfold withName
  split
  · exact h
  · rename_i hname
    exact (List.perm_append_singleton name names).nodup_iff.mpr (List.nodup_cons.mpr ⟨hname, h⟩)

section Named

variable {α : Type} {nameOf : α → String} {name : String} {fresh : α} {f : α → α}

/-- A change of one record does not touch records of another name. -/
theorem findNamed?_changeNamed_of_ne {other : String} {xs : List α}
    (hf : ∀ x, nameOf (f x) = nameOf x) (hfresh : nameOf fresh = name) (hne : name ≠ other) :
    findNamed? nameOf other (changeNamed nameOf name fresh f xs) =
      findNamed? nameOf other xs := by
  have hb : (name == other) = false := beq_eq_false_iff_ne.mpr hne
  induction xs with
  | nil => simp [changeNamed, findNamed?, hf, hfresh, hb]
  | cons x xs ih =>
    unfold findNamed? at ih
    by_cases hx : nameOf x = name
    · simp [changeNamed, findNamed?, hx, hf, hb]
    · simp [changeNamed, findNamed?, hx, List.find?_cons, ih]

/-- A change keeps the names, and adds the name that it asks for if it is new. -/
theorem map_name_changeNamed {xs : List α} (hf : ∀ x, nameOf (f x) = nameOf x)
    (hfresh : nameOf fresh = name) :
    (changeNamed nameOf name fresh f xs).map nameOf = withName name (xs.map nameOf) := by
  unfold withName
  induction xs with
  | nil => simp [changeNamed, hf, hfresh]
  | cons x xs ih =>
    by_cases hx : nameOf x = name
    · simp [changeNamed, hx, hf]
    · simp only [changeNamed, if_neg hx, List.map_cons, ih, List.mem_cons, Ne.symm hx, false_or]
      split <;> rfl

/-- A change that adds parts to a record adds them to the parts of all records. -/
theorem perm_flatMap_changeNamed {β : Type} {parts : α → List β} {added : List β} {xs : List α}
    (hf : ∀ x, (parts (f x)).Perm (parts x ++ added)) (hfresh : parts fresh = []) :
    ((changeNamed nameOf name fresh f xs).flatMap parts).Perm (xs.flatMap parts ++ added) := by
  induction xs with
  | nil => simpa [changeNamed, hfresh] using hf fresh
  | cons x xs ih =>
    by_cases hx : nameOf x = name
    · simp only [changeNamed, if_pos hx, List.flatMap_cons, List.append_assoc]
      have hown : (parts (f x) ++ xs.flatMap parts).Perm (parts x ++ (added ++ xs.flatMap parts)) :=
        List.append_assoc _ _ _ ▸ (hf x).append_right (xs.flatMap parts)
      exact hown.trans (List.perm_append_comm.append_left (parts x))
    · simp only [changeNamed, if_neg hx, List.flatMap_cons, List.append_assoc]
      exact ih.append_left (parts x)

end Named

/-! ## Views of the store -/

/-- The files of all versions of a project. -/
def ProjectRecord.files (p : ProjectRecord) : List FileRecord :=
  p.versions.flatMap VersionRecord.files

namespace FeatureStore

/-- The names of the projects. -/
def projectNames (s : FeatureStore) : List String :=
  s.projects.map ProjectRecord.name

/-- The files of all projects. -/
def files (s : FeatureStore) : List FileRecord :=
  s.projects.flatMap ProjectRecord.files

/-- The versions of a project; none if the store does not know it. -/
def versionsOf (s : FeatureStore) (project : String) : List VersionRecord :=
  ((s.find? project).map ProjectRecord.versions).getD []

/-- The names of the versions of a project. -/
def versionNames (s : FeatureStore) (project : String) : List String :=
  (s.versionsOf project).map VersionRecord.name

/-- The files of all versions of a project; none if the store does not know it. -/
def filesOf (s : FeatureStore) (project : String) : List FileRecord :=
  (s.versionsOf project).flatMap VersionRecord.files

theorem projectNames_changeVersion (s : FeatureStore) (project version : String)
    (f : VersionRecord → VersionRecord) :
    (s.changeVersion project version f).projectNames = withName project s.projectNames := by
  have hname : ∀ r : ProjectRecord, (r.change version f).name = r.name := fun _ => rfl
  have hfresh : (ProjectRecord.fresh project).name = project := rfl
  exact map_name_changeNamed hname hfresh

/-- A change of a version concerns its project only. -/
theorem versionsOf_changeVersion (s : FeatureStore) (project version other : String)
    (f : VersionRecord → VersionRecord) :
    (s.changeVersion project version f).versionsOf other =
      if project = other then
        changeNamed VersionRecord.name version (.fresh version) f (s.versionsOf other)
      else s.versionsOf other := by
  have hname : ∀ r : ProjectRecord, (r.change version f).name = r.name := fun _ => rfl
  have hfresh : (ProjectRecord.fresh project).name = project := rfl
  unfold versionsOf find? changeVersion change
  dsimp only
  by_cases h : project = other
  · subst h
    rw [if_pos rfl, findNamed?_changeNamed hname hfresh]
    cases findNamed? ProjectRecord.name project s.projects <;> rfl
  · rw [if_neg h, findNamed?_changeNamed_of_ne hname hfresh h]

/-- A project that the store knows is found under its name. -/
theorem exists_find? {s : FeatureStore} {project : String} (h : project ∈ s.projectNames) :
    ∃ r, s.find? project = some r ∧ s.versionsOf project = r.versions ∧
      s.filesOf project = r.files := by
  obtain ⟨r, hr, hname⟩ := List.mem_map.mp h
  obtain ⟨found, hfound⟩ : ∃ found, s.find? project = some found :=
    Option.isSome_iff_exists.mp (List.find?_isSome.mpr ⟨r, hr, by simp [hname]⟩)
  have hversions : s.versionsOf project = found.versions := by rw [versionsOf, hfound]; rfl
  exact ⟨found, hfound, hversions, by rw [filesOf, hversions]; rfl⟩

end FeatureStore

/-! ## Sources -/

/-- The record of the listing that a source holds. -/
def Source.fileRecord (c : Config) (s : Source) : FileRecord :=
  BuildState.fileRecord s (Fingerprint.ofText c s.contents).listing

namespace BuildState

theorem recordIn_eq (file : FileRecord) (features : List DigestedFeature) (v : VersionRecord) :
    (recordIn file features v).name = v.name ∧
      (recordIn file features v).files = v.files ++ [file] := by
  unfold recordIn
  have h : ∀ w : VersionRecord,
      (features.foldl (fun v d => v.addFeature d.feature.mnemonic d.digest) w).name = w.name ∧
      (features.foldl (fun v d => v.addFeature d.feature.mnemonic d.digest) w).files =
        w.files := by
    induction features with
    | nil => exact fun w => ⟨rfl, rfl⟩
    | cons d ds ih => exact fun w => ih (w.addFeature d.feature.mnemonic d.digest)
  exact h (v.addFile file)

/-- A line of the summary counts the versions and the files that the store has. -/
theorem projectSummary_eq (store : FeatureStore) (unique : UniqueTable) (name : String)
    (digests : DigestMap) :
    projectSummary store unique name digests =
      ⟨name, (store.versionsOf name).length, (store.filesOf name).length, digests.size,
        (unique.setOf name).features.size⟩ := by
  rw [FeatureStore.filesOf, length_flatMap]
  rfl

variable (c : Config) (b : BuildState) (s : Source) (p : String)

/-! ### One source -/

theorem projectNames_add :
    (b.add c s).store.projectNames = withName s.project b.store.projectNames :=
  FeatureStore.projectNames_changeVersion _ _ _ _

theorem versionNames_add :
    (b.add c s).store.versionNames p =
      if s.project = p then withName s.version (b.store.versionNames p)
      else b.store.versionNames p := by
  unfold FeatureStore.versionNames add
  rw [FeatureStore.versionsOf_changeVersion]
  by_cases h : s.project = p
  · have hname := fun v : VersionRecord =>
      (recordIn_eq (s.fileRecord c) (Fingerprint.ofText c s.contents).features v).1
    have hfresh : (VersionRecord.fresh s.version).name = s.version := rfl
    rw [if_pos h, if_pos h]
    exact map_name_changeNamed hname hfresh
  · rw [if_neg h, if_neg h]

/-- A source adds its file to a list of versions in which its version is changed. -/
theorem perm_files_recordIn (vs : List VersionRecord) :
    ((changeNamed VersionRecord.name s.version (.fresh s.version)
      (recordIn (s.fileRecord c) (Fingerprint.ofText c s.contents).features) vs).flatMap
        VersionRecord.files).Perm (vs.flatMap VersionRecord.files ++ [s.fileRecord c]) :=
  perm_flatMap_changeNamed (fun v => .of_eq (recordIn_eq _ _ v).2) rfl

theorem files_add : (b.add c s).store.files.Perm (b.store.files ++ [s.fileRecord c]) :=
  perm_flatMap_changeNamed (fun r => perm_files_recordIn c s r.versions) rfl

theorem filesOf_add :
    ((b.add c s).store.filesOf p).Perm
      (b.store.filesOf p ++ if s.project = p then [s.fileRecord c] else []) := by
  unfold FeatureStore.filesOf add
  rw [FeatureStore.versionsOf_changeVersion]
  by_cases h : s.project = p
  · rw [if_pos h, if_pos h]
    exact perm_files_recordIn c s _
  · rw [if_neg h, if_neg h, List.append_nil]

/-! ### A sequence of sources -/

/-- The projects of the store are those it had and those of the sources. -/
theorem mem_projectNames_foldl_add (sources : List Source) :
    p ∈ (sources.foldl (add c) b).store.projectNames ↔
      p ∈ b.store.projectNames ∨ ∃ s ∈ sources, s.project = p := by
  refine foldl_iff_exists (P := fun b => p ∈ b.store.projectNames) (fun b s => ?_) sources b
  rw [projectNames_add, mem_withName]

/-- No project is listed twice. -/
theorem nodup_projectNames_foldl_add (sources : List Source) (h : b.store.projectNames.Nodup) :
    (sources.foldl (add c) b).store.projectNames.Nodup := by
  refine List.foldlRecOn (motive := fun b => b.store.projectNames.Nodup) sources (add c) h
    fun b hb s _ => ?_
  rw [projectNames_add]
  exact nodup_withName hb

/-- The versions of a project are those it had and those of its sources. -/
theorem mem_versionNames_foldl_add (sources : List Source) (version : String) :
    version ∈ (sources.foldl (add c) b).store.versionNames p ↔
      version ∈ b.store.versionNames p ∨
        ∃ s ∈ sources, s.project = p ∧ s.version = version := by
  refine foldl_iff_exists (P := fun b => version ∈ b.store.versionNames p) (fun b s => ?_) sources b
  rw [versionNames_add]
  by_cases h : s.project = p
  · rw [if_pos h, mem_withName]
    simp [h]
  · simp [h]

/-- No version of a project is listed twice. -/
theorem nodup_versionNames_foldl_add (sources : List Source)
    (h : (b.store.versionNames p).Nodup) :
    ((sources.foldl (add c) b).store.versionNames p).Nodup := by
  refine List.foldlRecOn (motive := fun b => (b.store.versionNames p).Nodup) sources (add c) h
    fun b hb s _ => ?_
  rw [versionNames_add]
  split
  · exact nodup_withName hb
  · exact hb

/-- The names of the projects do not depend on the order of the sources, apart from their own. -/
theorem projectNames_perm {sources sources' : List Source} (hperm : sources.Perm sources')
    (generatedAt generatedAt' : String) :
    (sources.foldl (add c) (start generatedAt)).store.projectNames.Perm
      (sources'.foldl (add c) (start generatedAt')).store.projectNames := by
  rw [List.perm_ext_iff_of_nodup]
  · intro p
    rw [mem_projectNames_foldl_add, mem_projectNames_foldl_add]
    simp only [hperm.mem_iff]
    rfl
  · exact nodup_projectNames_foldl_add c _ sources List.nodup_nil
  · exact nodup_projectNames_foldl_add c _ sources' List.nodup_nil

/-- The same holds of the names of the versions of a project. -/
theorem versionNames_perm {sources sources' : List Source} (hperm : sources.Perm sources')
    (generatedAt generatedAt' : String) :
    ((sources.foldl (add c) (start generatedAt)).store.versionNames p).Perm
      ((sources'.foldl (add c) (start generatedAt')).store.versionNames p) := by
  rw [List.perm_ext_iff_of_nodup]
  · intro v
    rw [mem_versionNames_foldl_add, mem_versionNames_foldl_add]
    simp only [hperm.mem_iff]
    rfl
  · exact nodup_versionNames_foldl_add c _ p sources List.nodup_nil
  · exact nodup_versionNames_foldl_add c _ p sources' List.nodup_nil

/-- Every source is one file. -/
theorem files_foldl_add (sources : List Source) :
    (sources.foldl (add c) b).store.files.Perm
      (b.store.files ++ sources.map (Source.fileRecord c)) := by
  induction sources generalizing b with
  | nil => simp
  | cons s ss ih =>
    rw [List.foldl_cons, List.map_cons, List.append_cons]
    exact (ih (b.add c s)).trans ((files_add c b s).append_right _)

/-- Every source is one file of its project. -/
theorem filesOf_foldl_add (sources : List Source) :
    ((sources.foldl (add c) b).store.filesOf p).Perm (b.store.filesOf p ++
      (sources.filter fun s => s.project == p).map (Source.fileRecord c)) := by
  induction sources generalizing b with
  | nil => simp
  | cons s ss ih =>
    have hown : ((s :: ss).filter fun s => s.project == p).map (Source.fileRecord c) =
        (if s.project = p then [s.fileRecord c] else []) ++
          (ss.filter fun s => s.project == p).map (Source.fileRecord c) := by
      by_cases h : s.project = p <;> simp [h]
    rw [List.foldl_cons, hown, ← List.append_assoc]
    exact (ih (b.add c s)).trans ((filesOf_add c b s p).append_right _)

end BuildState

end FirmwareMatch
