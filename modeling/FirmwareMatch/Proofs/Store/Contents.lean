import FirmwareMatch.Proofs.Corpus.Sources
import FirmwareMatch.Proofs.Store.Records
import Mathlib.Data.List.Induction

/-
  What the feature store holds after a build.

  The sources of projects and versions may come in any mixture. Projects and their versions are kept
  in the same way: the record of a name is changed where it stands, or made at the end of the list.
  So one lemma serves for both (`foldl_changeNamed`): after a sequence of changes there is one record
  for each name, in the order in which the names first came, and it is what the changes of its own
  name make of a fresh record. No change is lost, made twice or made to another record.

  Proved:
  * `eraseDups_concat`: names in the order of their first appearance, as they grow.
  * `changeNamed_map`, `foldl_changeNamed`: one change, and a sequence of changes, of named records.
  * `findNamed?_foldl_changeNamed`: what is found under a name after a sequence of changes.
  * `projects_foldl_add`, `versions_foldl_recordVersion`: projects and versions are such records.
  * `records_foldl_recordSource`: the files and the digests of one version.
  * `buildCorpus_store`: all of the store.
-/

namespace FirmwareMatch

open Std SortedMap

/-! ## Grouping -/

/-- A name is appended to the names so far if it is new. -/
theorem eraseDups_concat (names : List String) (name : String) :
    (names ++ [name]).eraseDups = withName name names.eraseDups := by
  unfold withName
  rw [List.eraseDups_append]
  by_cases h : name ∈ names
  · simp [List.removeAll, h]
  · simp [List.removeAll, h, List.eraseDups_cons]

theorem nodup_eraseDups (names : List String) : names.eraseDups.Nodup := by
  induction names using List.reverseRecOn with
  | nil => simp
  | append_singleton names name ih =>
    rw [eraseDups_concat]
    exact nodup_withName ih

section Named

variable {α σ : Type} {nameOf : α → String} {fresh : String → α}

/-- A change of one of the records `g n` with the names `n`: only the record of its name changes, and
    it is made if it is not there. -/
theorem changeNamed_map {names : List String} {name : String} {g : String → α} {f : α → α}
    (hname : ∀ n, nameOf (g n) = n) (hnodup : names.Nodup)
    (hfresh : name ∉ names → g name = fresh name) :
    changeNamed nameOf name (fresh name) f (names.map g) =
      (withName name names).map fun n => if n = name then f (g n) else g n := by
  have hothers : ∀ {ns : List String}, name ∉ ns →
      ns.map (fun n => if n = name then f (g n) else g n) = ns.map g := by
    intro ns hns
    apply List.map_congr_left
    intro n hn
    rw [if_neg (ne_of_mem_of_not_mem hn hns)]
  have habsent : ∀ {ns : List String}, name ∉ ns → ∀ x ∈ ns.map g, nameOf x ≠ name := by
    intro ns hns x hx
    obtain ⟨n, hn, rfl⟩ := List.mem_map.mp hx
    rw [hname]
    exact ne_of_mem_of_not_mem hn hns
  unfold withName
  by_cases h : name ∈ names
  · obtain ⟨before, after, rfl⟩ := List.append_of_mem h
    have hbefore : name ∉ before := fun hmem =>
      (List.nodup_append.mp hnodup).2.2 name hmem name List.mem_cons_self rfl
    have hafter : name ∉ after :=
      (List.nodup_cons.mp (List.nodup_append.mp hnodup).2.1).1
    rw [if_pos h, List.map_append, List.map_cons, changeNamed_append (habsent hbefore) (hname name),
      List.map_append, List.map_cons, if_pos rfl, hothers hbefore, hothers hafter]
  · rw [if_neg h, changeNamed_of_absent (habsent h), List.map_append, hothers h, List.map_singleton,
      if_pos rfl, hfresh h]

section Changes

variable {key : σ → String} {change : σ → α → α} (hfresh : ∀ n, nameOf (fresh n) = n)
  (hchange : ∀ x a, nameOf (change x a) = nameOf a)

include hfresh hchange

theorem nameOf_foldl_change (xs : List σ) (n : String) :
    nameOf (xs.foldl (fun a x => change x a) (fresh n)) = n := by
  refine List.foldlRecOn (motive := fun a => nameOf a = n) xs _ (hfresh n) fun a ha x _ => ?_
  rw [hchange, ha]

/-- After a sequence of changes of named records there is one record for each name, in the order in
    which the names first came: what the changes of its name make of a fresh one. -/
theorem foldl_changeNamed (xs : List σ) :
    xs.foldl (fun as x => changeNamed nameOf (key x) (fresh (key x)) (change x) as) [] =
      (xs.map key).eraseDups.map fun n =>
        (xs.filter fun x => key x == n).foldl (fun a x => change x a) (fresh n) := by
  induction xs using List.reverseRecOn with
  | nil => rfl
  | append_singleton xs x ih =>
    have hname : ∀ n, nameOf ((xs.filter fun x => key x == n).foldl
        (fun a x => change x a) (fresh n)) = n :=
      fun n => nameOf_foldl_change hfresh hchange _ n
    -- before the name first comes no change is one of its record
    have habsent : key x ∉ (xs.map key).eraseDups →
        (xs.filter fun y => key y == key x).foldl (fun a y => change y a) (fresh (key x)) =
          fresh (key x) := by
      intro h
      have hnil : (xs.filter fun y => key y == key x) = [] := by
        rw [List.filter_eq_nil_iff]
        intro y hy hkey
        exact h (List.mem_eraseDups.mpr (List.mem_map.mpr ⟨y, hy, eq_of_beq hkey⟩))
      rw [hnil, List.foldl_nil]
    rw [List.foldl_append, List.foldl_cons, List.foldl_nil, ih, List.map_append,
      List.map_singleton, eraseDups_concat, changeNamed_map hname (nodup_eraseDups _) habsent]
    apply List.map_congr_left
    intro n _
    rw [List.filter_append, List.foldl_append]
    by_cases hn : n = key x
    · simp [hn]
    · simp [hn, Ne.symm hn]

theorem map_name_foldl_changeNamed (xs : List σ) :
    (xs.foldl (fun as x => changeNamed nameOf (key x) (fresh (key x)) (change x) as) []).map
      nameOf = (xs.map key).eraseDups := by
  rw [foldl_changeNamed hfresh hchange, List.map_map]
  refine (List.map_congr_left fun n _ => ?_).trans (List.map_id _)
  exact nameOf_foldl_change hfresh hchange _ n

theorem eq_of_mem_foldl_changeNamed {xs : List σ} {a : α}
    (h : a ∈ xs.foldl
      (fun as x => changeNamed nameOf (key x) (fresh (key x)) (change x) as) []) :
    a = (xs.filter fun x => key x == nameOf a).foldl (fun a x => change x a)
      (fresh (nameOf a)) := by
  rw [foldl_changeNamed hfresh hchange] at h
  obtain ⟨n, -, rfl⟩ := List.mem_map.mp h
  rw [nameOf_foldl_change hfresh hchange]

/-- Under a name the record is found that the changes of the name make of a fresh one, if there are
    any. -/
theorem findNamed?_foldl_changeNamed (xs : List σ) (n : String) :
    findNamed? nameOf n (xs.foldl
      (fun as x => changeNamed nameOf (key x) (fresh (key x)) (change x) as) []) =
      if xs.filter (fun x => key x == n) = [] then none
      else some ((xs.filter fun x => key x == n).foldl (fun a x => change x a) (fresh n)) := by
  induction xs using List.reverseRecOn with
  | nil => rfl
  | append_singleton xs x ih =>
    rw [List.foldl_append, List.foldl_cons, List.foldl_nil, List.filter_append]
    by_cases hn : key x = n
    · subst hn
      rw [findNamed?_changeNamed (hchange x) (hfresh _), ih]
      by_cases hown : xs.filter (fun y => key y == key x) = []
      · simp [hown]
      · simp [hown]
    · rw [findNamed?_changeNamed_of_ne (hchange x) (hfresh _) hn, ih]
      simp [hn]

end Changes

end Named

namespace BuildState

/-! ## Projects and versions -/

/-- What a source changes in the record of its version. -/
def recordSource (c : Config) (s : Source) : VersionRecord → VersionRecord :=
  recordIn (s.fileRecord c) (Fingerprint.ofText c s.contents).features

theorem name_recordSource (c : Config) (s : Source) (v : VersionRecord) :
    (recordSource c s v).name = v.name :=
  (recordIn_eq _ _ v).1

theorem files_recordSource (c : Config) (s : Source) (v : VersionRecord) :
    (recordSource c s v).files = v.files ++ [s.fileRecord c] :=
  (recordIn_eq _ _ v).2

variable (c : Config)

/-- What a source changes in the record of its project. -/
def recordVersion (s : Source) (r : ProjectRecord) : ProjectRecord :=
  r.change s.version (recordSource c s)

theorem projects_foldl_add (sources : List Source) (b : BuildState) :
    (sources.foldl (add c) b).store.projects =
      sources.foldl (fun rs s => changeNamed ProjectRecord.name s.project (.fresh s.project)
        (recordVersion c s) rs) b.store.projects := by
  induction sources generalizing b with
  | nil => rfl
  | cons s ss ih => exact ih (b.add c s)

theorem versions_foldl_recordVersion (own : List Source) (r : ProjectRecord) :
    (own.foldl (fun r s => recordVersion c s r) r).versions =
      own.foldl (fun vs s => changeNamed VersionRecord.name s.version (.fresh s.version)
        (recordSource c s) vs) r.versions := by
  induction own generalizing r with
  | nil => rfl
  | cons s ss ih => exact ih (recordVersion c s r)

/-! ## One version -/

theorem features_recordSource (s : Source) (v : VersionRecord) :
    (recordSource c s v).features = (Fingerprint.ofText c s.contents).features.foldl
      (fun m d => m.insert d.feature.mnemonic d.digest) v.features := by
  unfold recordSource recordIn
  have h : ∀ (ds : List DigestedFeature) (w : VersionRecord),
      (ds.foldl (fun w d => w.addFeature d.feature.mnemonic d.digest) w).features =
        ds.foldl (fun m d => m.insert d.feature.mnemonic d.digest) w.features := by
    intro ds
    induction ds with
    | nil => exact fun w => rfl
    | cons d ds ih => exact fun w => ih (w.addFeature d.feature.mnemonic d.digest)
  exact h _ (v.addFile (s.fileRecord c))

/-- Every source adds its file at the end. -/
theorem files_foldl_recordSource (own : List Source) (v : VersionRecord) :
    (own.foldl (fun r s => recordSource c s r) v).files =
      v.files ++ own.map (Source.fileRecord c) := by
  induction own generalizing v with
  | nil => exact (List.append_nil _).symm
  | cons s ss ih => rw [List.foldl_cons, ih, files_recordSource, List.append_assoc, List.map_cons,
      List.singleton_append]

/-- Digests are noted as if the fingerprints of the sources were one. -/
theorem features_foldl_recordSource (own : List Source) (v : VersionRecord) :
    (own.foldl (fun r s => recordSource c s r) v).features =
      (own.flatMap fun s => (Fingerprint.ofText c s.contents).features).foldl
        (fun m d => m.insert d.feature.mnemonic d.digest) v.features := by
  induction own generalizing v with
  | nil => rfl
  | cons s ss ih => rw [List.foldl_cons, ih, features_recordSource, List.flatMap_cons,
      List.foldl_append]

end BuildState

/-! ## The store -/

section Store

variable (c : Config)

/-- The sources of a version, in the order in which they came. -/
def Source.ofVersion (sources : List Source) (project version : String) : List Source :=
  sources.filter fun s => s.project == project && s.version == version

/-- The features of sources, one after another. -/
def Source.allFeatures (own : List Source) : List DigestedFeature :=
  own.flatMap fun s => (Fingerprint.ofText c s.contents).features

/-- The record of a version holds the files of its sources and the last digest of each mnemonic. -/
structure VersionRecord.Records (own : List Source) (v : VersionRecord) : Prop where
  files : v.files = own.map fun s =>
    let l := Listing.parse c.codeSections s.contents
    ⟨s.path, Sha256.hexDigest s.contents.toUTF8, l.instructionCount, l.skippedCount⟩
  mem_features : ∀ m, m ∈ v.features ↔
    ∃ s ∈ own, ∃ i ∈ (Listing.parse c.codeSections s.contents).instructions, i.mnemonic = m
  features : ∀ m : String, v.features[m]? =
    ((Source.allFeatures c own).filter (·.feature.mnemonic == m)).getLast?.map
      DigestedFeature.digest

theorem mem_allFeatures_iff (own : List Source) (m : String) :
    (∃ d ∈ Source.allFeatures c own, d.feature.mnemonic = m) ↔
      ∃ s ∈ own, ∃ i ∈ (Listing.parse c.codeSections s.contents).instructions, i.mnemonic = m := by
  simp only [Source.allFeatures, List.mem_flatMap]
  constructor
  · rintro ⟨d, ⟨s, hs, hd⟩, rfl⟩
    have hmem := List.mem_map_of_mem (f := fun x : DigestedFeature => x.feature.mnemonic) hd
    rw [Fingerprint.map_mnemonic_features] at hmem
    exact ⟨s, hs, List.mem_map.mp hmem⟩
  · rintro ⟨s, hs, i, hi, rfl⟩
    have hmem := List.mem_map_of_mem (f := Instruction.mnemonic) hi
    rw [← Fingerprint.map_mnemonic_features] at hmem
    obtain ⟨d, hd, hmnemonic⟩ := List.mem_map.mp hmem
    exact ⟨d, ⟨s, hs, hd⟩, hmnemonic⟩

/-- What the sources of a version make of a fresh record. -/
theorem records_foldl_recordSource (own : List Source) (name : String) :
    (own.foldl (fun r s => BuildState.recordSource c s r) (.fresh name)).Records c own where
  files := BuildState.files_foldl_recordSource c own _
  mem_features m := by
    rw [BuildState.features_foldl_recordSource, mem_foldl_insert_map, ← mem_allFeatures_iff]
    exact or_iff_right ExtTreeMap.not_mem_empty
  features m := by
    rw [BuildState.features_foldl_recordSource, getElem?_foldl_insert_getLast?]
    simp [VersionRecord.fresh, Source.allFeatures]

/-- For all sources, in whichever order those of different projects and versions come: the store
    lists each project once, in the order of its first source, and for each project its versions in
    the same way. A version has one file for each of its sources, in their order, and one digest for
    each mnemonic of their instructions, the one of the last instruction that has it. -/
theorem buildCorpus_store (generatedAt : String) (sources : List Source) :
    ∃ build, buildCorpus c generatedAt (sources.map .ok) = .ok build ∧
      build.store.projects.map ProjectRecord.name = (sources.map Source.project).eraseDups ∧
      ∀ p ∈ build.store.projects,
        p.versions.map VersionRecord.name =
          ((sources.filter (·.project == p.name)).map Source.version).eraseDups ∧
        ∀ v ∈ p.versions, v.Records c (Source.ofVersion sources p.name v.name) := by
  have hprojects : (sources.foldl (BuildState.add c) (.start generatedAt)).finish.store.projects =
      _ := BuildState.projects_foldl_add c sources (.start generatedAt)
  have hproject : ∀ s r, (BuildState.recordVersion c s r).name = r.name := fun _ _ => rfl
  refine ⟨_, buildCorpus_ok c generatedAt sources, ?_, fun p hp => ?_⟩
  · rw [hprojects]
    exact map_name_foldl_changeNamed (fun _ => rfl) hproject sources
  · rw [hprojects] at hp
    -- the record of a project is filled by its own sources
    have hp' := eq_of_mem_foldl_changeNamed (fun _ => rfl) hproject hp
    have hversions := congrArg ProjectRecord.versions hp'
    rw [BuildState.versions_foldl_recordVersion] at hversions
    rw [hversions]
    refine ⟨map_name_foldl_changeNamed (fun _ => rfl) (BuildState.name_recordSource c) _,
      fun v hv => ?_⟩
    -- and the record of a version by those of them that are of the version
    have hv' := eq_of_mem_foldl_changeNamed (fun _ => rfl) (BuildState.name_recordSource c) hv
    have hown : Source.ofVersion sources p.name v.name =
        (sources.filter fun s => s.project == p.name).filter fun s => s.version == v.name := by
      rw [List.filter_filter]
      exact List.filter_congr fun s _ => Bool.and_comm _ _
    have hrecords := records_foldl_recordSource c (Source.ofVersion sources p.name v.name) v.name
    rwa [hown, ← hv', ← hown] at hrecords

end Store

/-- Sources of two projects and of two versions of one of them, in a mixture. The version with two
    files has the digest of `nop` in the second one, where it is the second instruction. -/
theorem buildCorpus_store_mixed :
    let sources : List Source :=
      [⟨"beta", "1", "1/fw.asm", ".text\nnop\n"⟩,
        ⟨"alpha", "2", "2/b.asm", ".text\nnop\nbx lr\n"⟩,
        ⟨"alpha", "1", "1/fw.asm", "nop\n"⟩,
        ⟨"beta", "1", "1/fw.asm", ".text\nnop\n"⟩,
        ⟨"alpha", "2", "2/a.asm", ".text\nmov r0, r1\nnop\n?\n"⟩]
    ∃ build, buildCorpus .standard "now" (sources.map .ok) = .ok build ∧
      build.store.projects.map (fun p => (p.name, p.versions.map VersionRecord.name)) =
        [("beta", ["1"]), ("alpha", ["2", "1"])] ∧
      ∀ p ∈ build.store.projects, ∀ v ∈ p.versions, p.name = "alpha" → v.name = "2" →
        v.files.map (fun f => (f.path, f.instructionCount, f.skippedLines)) =
          [("2/b.asm", 2, 0), ("2/a.asm", 2, 1)] ∧
        "bx" ∈ v.features ∧ "b" ∉ v.features ∧
        v.features["nop"]? = some (Feature.digest ⟨"nop", ⟨1, 0, 0⟩⟩) := by
  intro sources
  obtain ⟨build, hbuild, hnames, hprojects⟩ := buildCorpus_store .standard "now" sources
  refine ⟨build, hbuild, ?_, fun p hp v hv hpname hvname => ?_⟩
  · -- the versions of a project are known from its name
    have hversions : build.store.projects.map
        (fun p => (p.name, p.versions.map VersionRecord.name)) =
        (build.store.projects.map ProjectRecord.name).map fun name =>
          (name, ((sources.filter (·.project == name)).map Source.version).eraseDups) := by
      rw [List.map_map]
      exact List.map_congr_left fun p hp => congrArg (Prod.mk p.name) (hprojects p hp).1
    rw [hversions, hnames]
    decide +kernel
  · obtain ⟨hfiles, hmem, hlast⟩ := (hprojects p hp).2 v hv
    rw [hpname, hvname] at hfiles hmem hlast
    refine ⟨?_, (hmem "bx").mpr (by decide +kernel), mt (hmem "b").mp (by decide +kernel), ?_⟩
    · rw [hfiles, List.map_map]
      decide +kernel
    · have hfeatures : (Source.ofVersion sources "alpha" "2").flatMap (fun s =>
          extractFeatures Config.standard.branchPolicy
            (Listing.parse Config.standard.codeSections s.contents).blocks) =
          [⟨"nop", ⟨0, 0, 0⟩⟩, ⟨"bx", ⟨1, 0, 0⟩⟩, ⟨"mov", ⟨0, 0, 0⟩⟩, ⟨"nop", ⟨1, 0, 0⟩⟩] := by
        decide +kernel
      rw [hlast, Source.allFeatures]
      simp only [Fingerprint.features_ofText]
      rw [← List.map_flatMap, hfeatures]
      simp [Feature.digested]

end FirmwareMatch
