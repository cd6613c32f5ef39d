import FirmwareMatch.Proofs.Corpus.Reordering
import FirmwareMatch.Proofs.Store.Contents
import Mathlib.Data.Option.Basic

/-
  The order of the sources matters for the feature store in one place.

  Whatever the order, the store has the same projects with the same versions, and a version has the
  same files and knows the same mnemonics. But of the digests of a mnemonic it keeps the one that
  came last, of the last source that has the mnemonic at all. So the store depends only on what the
  sources hold, and not on the order in which they come, exactly if all sources of a version that
  have a mnemonic end it with the same digest: any one of them may come last.

  Stores are compared up to the order in which they list projects, versions and files, and without
  the time at which they were made.

  Proved:
  * `findVersion?_foldl_add`: the record of a version is what its own sources make of a fresh one.
  * `VersionRecord.Records.getElem?_features`: which source the digest of a mnemonic comes from.
  * `sameFiles_of_perm`, `sameContents_of_perm`: a version after reordered sources.
  * `buildCorpus_store_perm`: what all orders agree in, and when they agree in all.
-/

namespace FirmwareMatch

open Std SortedMap

/-! ## Comparing stores -/

/-- Two records of a version with the same files and the same mnemonics. -/
structure VersionRecord.SameFiles (v w : VersionRecord) : Prop where
  name : v.name = w.name
  files : v.files.Perm w.files
  mnemonics : ∀ m, m ∈ v.features ↔ m ∈ w.features

/-- Two records of a version with the same files and the same digests. -/
structure VersionRecord.SameContents (v w : VersionRecord) : Prop where
  name : v.name = w.name
  files : v.files.Perm w.files
  features : v.features = w.features

/-- Two stores with the same projects and versions, whose records of one version are related. The
    time at which the stores were made is left out. -/
structure FeatureStore.Matches (R : VersionRecord → VersionRecord → Prop) (s t : FeatureStore) :
    Prop where
  toolVersion : s.toolVersion = t.toolVersion
  projects : s.projectNames.Perm t.projectNames
  versions : ∀ p, (s.versionNames p).Perm (t.versionNames p)
  records : ∀ p v, Option.Rel R (s.findVersion? p v) (t.findVersion? p v)

/-- The builds of two sequences of sources both succeed, with matching stores. -/
def Source.BuildAlike (c : Config) (R : VersionRecord → VersionRecord → Prop)
    (sources sources' : List Source) : Prop :=
  ∀ generatedAt generatedAt', ∃ build build' : CorpusBuild,
    buildCorpus c generatedAt (sources.map .ok) = .ok build ∧
    buildCorpus c generatedAt' (sources'.map .ok) = .ok build' ∧
    build.store.Matches R build'.store

/-! ## The digest of a mnemonic -/

/-- The digest of the last instruction of a source that has the mnemonic. -/
def Source.lastDigest? (c : Config) (m : String) (s : Source) : Option Digest :=
  ((Fingerprint.ofText c s.contents).features.filter (·.feature.mnemonic == m)).getLast?.map
    DigestedFeature.digest

/-- All sources that have the mnemonic have the same digest for their last instruction with it. -/
def Source.EndAlike (c : Config) (m : String) (own : List Source) : Prop :=
  ∀ s ∈ own, ∀ t ∈ own, ∀ d e, s.lastDigest? c m = some d → t.lastDigest? c m = some e → d = e

/-- The digest is that of the last source that has the mnemonic. -/
theorem VersionRecord.Records.getElem?_features {c : Config} {own : List Source}
    {v : VersionRecord} (h : v.Records c own) (m : String) :
    v.features[m]? = own.reverse.findSome? (Source.lastDigest? c m) := by
  rw [h.features, Source.allFeatures, List.filter_flatMap, List.getLast?_flatMap,
    List.map_findSome?]
  rfl

/-- What is found first does not depend on the order if nothing else can be found. -/
theorem findSome?_eq_of_perm {α β : Type} {f : α → Option β} {xs ys : List α}
    (hperm : xs.Perm ys)
    (h : ∀ x ∈ xs, ∀ y ∈ xs, ∀ a b, f x = some a → f y = some b → a = b) :
    xs.findSome? f = ys.findSome? f := by
  cases hx : xs.findSome? f with
  | none =>
    rw [List.findSome?_eq_none_iff] at hx
    exact (List.findSome?_eq_none_iff.mpr fun y hy => hx y (hperm.mem_iff.mpr hy)).symm
  | some a =>
    obtain ⟨x, hxs, hfx⟩ := List.exists_of_findSome?_eq_some hx
    cases hy : ys.findSome? f with
    | none =>
      rw [List.findSome?_eq_none_iff] at hy
      rw [hy x (hperm.mem_iff.mp hxs)] at hfx
      cases hfx
    | some b =>
      obtain ⟨y, hys, hfy⟩ := List.exists_of_findSome?_eq_some hy
      rw [h x hxs y (hperm.mem_iff.mpr hys) a b hfx hfy]

/-! ## One version -/

section Version

variable {c : Config} {own own' : List Source} {v w : VersionRecord}

theorem sameFiles_of_perm (hperm : own.Perm own') (hname : v.name = w.name)
    (hv : v.Records c own) (hw : w.Records c own') : v.SameFiles w where
  name := hname
  files := by
    rw [hv.files, hw.files]
    exact hperm.map _
  mnemonics m := by
    rw [hv.mem_features, hw.mem_features]
    simp only [hperm.mem_iff]

theorem sameContents_of_perm (hperm : own.Perm own') (hname : v.name = w.name)
    (hv : v.Records c own) (hw : w.Records c own') (hend : ∀ m, Source.EndAlike c m own) :
    v.SameContents w where
  name := hname
  files := (sameFiles_of_perm hperm hname hv hw).files
  features := by
    apply ExtTreeMap.ext_getElem?
    intro m
    rw [hv.getElem?_features, hw.getElem?_features]
    have hreverse : own.reverse.Perm own'.reverse :=
      (List.reverse_perm own).trans (hperm.trans (List.reverse_perm own').symm)
    refine findSome?_eq_of_perm hreverse fun s hs t ht => ?_
    exact hend m s (List.mem_reverse.mp hs) t (List.mem_reverse.mp ht)

end Version

/-! ## All sources -/

section Build

variable (c : Config)

/-- A project is found under its name if it has a source, with what its own sources make of a fresh
    record. -/
theorem find?_foldl_add (generatedAt : String) (sources : List Source) (p : String) :
    (sources.foldl (BuildState.add c) (.start generatedAt)).store.find? p =
      if (sources.filter fun s => s.project == p) = [] then none
      else some ((sources.filter fun s => s.project == p).foldl
        (fun r s => BuildState.recordVersion c s r) (.fresh p)) := by
  have hproject : ∀ s r, (BuildState.recordVersion c s r).name = r.name := fun _ _ => rfl
  unfold FeatureStore.find?
  rw [BuildState.projects_foldl_add]
  exact findNamed?_foldl_changeNamed (fun _ => rfl) hproject sources p

/-- The same holds of a version among the sources of its project. -/
theorem find?_foldl_recordVersion (own : List Source) (p v : String) :
    (own.foldl (fun r s => BuildState.recordVersion c s r) (.fresh p)).find? v =
      if (own.filter fun s => s.version == v) = [] then none
      else some ((own.filter fun s => s.version == v).foldl
        (fun r s => BuildState.recordSource c s r) (.fresh v)) := by
  unfold ProjectRecord.find?
  rw [BuildState.versions_foldl_recordVersion]
  exact findNamed?_foldl_changeNamed (fun _ => rfl) (BuildState.name_recordSource c) own v

/-- A version is found under its name if it has a source, with what its own sources make of a fresh
    record. -/
theorem findVersion?_foldl_add (generatedAt : String) (sources : List Source) (p v : String) :
    (sources.foldl (BuildState.add c) (.start generatedAt)).store.findVersion? p v =
      if Source.ofVersion sources p v = [] then none
      else some ((Source.ofVersion sources p v).foldl
        (fun r s => BuildState.recordSource c s r) (.fresh v)) := by
  have hown : Source.ofVersion sources p v =
      (sources.filter fun s => s.project == p).filter fun s => s.version == v := by
    rw [List.filter_filter]
    exact List.filter_congr fun s _ => Bool.and_comm _ _
  rw [FeatureStore.findVersion?, find?_foldl_add, hown]
  by_cases hproject : (sources.filter fun s => s.project == p) = []
  · simp [hproject]
  · rw [if_neg hproject]
    exact find?_foldl_recordVersion c _ p v

theorem toolVersion_foldl_add (generatedAt : String) (sources : List Source) :
    (sources.foldl (BuildState.add c) (.start generatedAt)).store.toolVersion = toolVersion :=
  List.foldlRecOn (motive := fun b : BuildState => b.store.toolVersion = toolVersion) sources _ rfl
    fun _ hb _ _ => hb

variable {c} {R : VersionRecord → VersionRecord → Prop} {sources sources' : List Source}

/-- It is enough to relate what the sources of a version make of it in both orders. -/
theorem buildAlike_of_perm (hperm : sources.Perm sources')
    (hR : ∀ p v, ∀ r r' : VersionRecord, r.name = r'.name →
      r.Records c (Source.ofVersion sources p v) → r'.Records c (Source.ofVersion sources' p v) →
      R r r') :
    Source.BuildAlike c R sources sources' := by
  intro generatedAt generatedAt'
  refine ⟨_, _, buildCorpus_ok c generatedAt sources, buildCorpus_ok c generatedAt' sources', ?_⟩
  refine ⟨(toolVersion_foldl_add c _ sources).trans (toolVersion_foldl_add c _ sources').symm,
    BuildState.projectNames_perm c hperm _ _,
    fun p => BuildState.versionNames_perm c p hperm _ _, fun p v => ?_⟩
  have hlength : (Source.ofVersion sources p v).length = (Source.ofVersion sources' p v).length :=
    (hperm.filter _).length_eq
  unfold BuildState.finish
  rw [findVersion?_foldl_add, findVersion?_foldl_add]
  by_cases hnil : Source.ofVersion sources p v = []
  · have hnil' : Source.ofVersion sources' p v = [] := by
      rw [← List.length_eq_zero_iff, ← hlength, hnil, List.length_nil]
    rw [if_pos hnil, if_pos hnil']
    exact .none
  · have hnil' : Source.ofVersion sources' p v ≠ [] := by
      rwa [ne_eq, ← List.length_eq_zero_iff, ← hlength, List.length_eq_zero_iff]
    have hname : ∀ (own : List Source) (n : String),
        (own.foldl (fun r s => BuildState.recordSource c s r) (.fresh n)).name = n :=
      nameOf_foldl_change (fun _ => rfl) (BuildState.name_recordSource c)
    rw [if_neg hnil, if_neg hnil']
    exact .some (hR p v _ _ ((hname _ v).trans (hname _ v).symm)
      (records_foldl_recordSource c _ v) (records_foldl_recordSource c _ v))

/-- Builds whose versions have the same digests find the same digest of a mnemonic: that of the last
    source of the version that has it. -/
theorem findSome?_lastDigest?_of_buildAlike
    (h : Source.BuildAlike c VersionRecord.SameContents sources sources') (p v m : String) :
    (Source.ofVersion sources p v).reverse.findSome? (Source.lastDigest? c m) =
      (Source.ofVersion sources' p v).reverse.findSome? (Source.lastDigest? c m) := by
  obtain ⟨build, build', hbuild, hbuild', hmatches⟩ := h "" ""
  rw [buildCorpus_ok, Except.ok.injEq] at hbuild hbuild'
  have hrel := hmatches.records p v
  rw [← hbuild, ← hbuild'] at hrel
  unfold BuildState.finish at hrel
  rw [findVersion?_foldl_add, findVersion?_foldl_add] at hrel
  by_cases hnil : Source.ofVersion sources p v = []
  · by_cases hnil' : Source.ofVersion sources' p v = []
    · rw [hnil, hnil']
    · rw [if_pos hnil, if_neg hnil'] at hrel
      cases hrel
  · by_cases hnil' : Source.ofVersion sources' p v = []
    · rw [if_neg hnil, if_pos hnil'] at hrel
      cases hrel
    · rw [if_neg hnil, if_neg hnil'] at hrel
      obtain ⟨hsame⟩ := hrel
      rw [← (records_foldl_recordSource c _ v).getElem?_features, hsame.features,
        (records_foldl_recordSource c _ v).getElem?_features]

/-- Any source of a version may come last, and then its digest of a mnemonic is the one that the
    version has. -/
theorem lastDigest?_of_buildAlike
    (h : ∀ sources', sources.Perm sources' →
      Source.BuildAlike c VersionRecord.SameContents sources sources')
    {p v m : String} {s : Source} (hs : s ∈ Source.ofVersion sources p v) {d : Digest}
    (hd : s.lastDigest? c m = some d) :
    (Source.ofVersion sources p v).reverse.findSome? (Source.lastDigest? c m) = some d := by
  obtain ⟨hmem, hown⟩ := List.mem_filter.mp hs
  obtain ⟨before, after, hsplit⟩ := List.append_of_mem hmem
  have hperm : sources.Perm (before ++ after ++ [s]) := by
    rw [hsplit, List.append_assoc]
    exact (List.perm_append_singleton s after).symm.append_left before
  have hlast : Source.ofVersion (before ++ after ++ [s]) p v =
      Source.ofVersion (before ++ after) p v ++ [s] := by
    unfold Source.ofVersion
    rw [List.filter_append _ [s], List.filter_singleton, hown, cond_true]
  rw [findSome?_lastDigest?_of_buildAlike (h _ hperm), hlast, List.reverse_append,
    List.reverse_singleton, List.singleton_append, List.findSome?_cons_of_isSome]
  · exact hd
  · rw [hd]
    rfl

end Build

/-- For all sources and every rearrangement of them: both builds succeed, and their stores have the
    same projects and versions with the same files and the same mnemonics. The stores of all
    rearrangements are the same, but for when they were made and for the order in which they list
    projects, versions and files, exactly if in every version all sources that have a mnemonic have
    the same digest for their last instruction with it. -/
theorem buildCorpus_store_perm (c : Config) (sources : List Source) :
    (∀ sources', sources.Perm sources' →
      Source.BuildAlike c VersionRecord.SameFiles sources sources') ∧
    ((∀ sources', sources.Perm sources' →
      Source.BuildAlike c VersionRecord.SameContents sources sources') ↔
      ∀ p v m, Source.EndAlike c m (Source.ofVersion sources p v)) := by
  refine ⟨fun sources' hperm => ?_, fun h p v m s hs t ht d e hd he => ?_,
    fun hend sources' hperm => ?_⟩
  · exact buildAlike_of_perm hperm fun p v _ _ hname hr hr' =>
      sameFiles_of_perm (hperm.filter _) hname hr hr'
  · have hdigest := lastDigest?_of_buildAlike h hs hd
    rw [lastDigest?_of_buildAlike h ht he] at hdigest
    exact (Option.some.inj hdigest).symm
  · exact buildAlike_of_perm hperm fun p v _ _ hname hr hr' =>
      sameContents_of_perm (hperm.filter _) hname hr hr' (hend p v)

/-- Of two files of one version, in which `nop` is the first and the second instruction, the later
    one decides. -/
theorem not_buildAlike_swapped :
    let s : Source := ⟨"alpha", "v1", "v1/a.asm", ".text\nnop\n"⟩
    let t : Source := ⟨"alpha", "v1", "v1/b.asm", ".text\nmov r0, r1\nnop\n"⟩
    ¬ Source.BuildAlike .standard VersionRecord.SameContents [s, t] [t, s] := by
  intro s t halike
  have hs : extractFeatures Config.standard.branchPolicy
      (Listing.parse Config.standard.codeSections s.contents).blocks =
        [⟨"nop", ⟨0, 0, 0⟩⟩] := by decide +kernel
  have ht : extractFeatures Config.standard.branchPolicy
      (Listing.parse Config.standard.codeSections t.contents).blocks =
        [⟨"mov", ⟨0, 0, 0⟩⟩, ⟨"nop", ⟨1, 0, 0⟩⟩] := by decide +kernel
  have hlast : s.lastDigest? .standard "nop" = some (Feature.digest ⟨"nop", ⟨0, 0, 0⟩⟩) := by
    simp [Source.lastDigest?, Fingerprint.features_ofText, hs, Feature.digested]
  have hlast' : t.lastDigest? .standard "nop" = some (Feature.digest ⟨"nop", ⟨1, 0, 0⟩⟩) := by
    simp [Source.lastDigest?, Fingerprint.features_ofText, ht, Feature.digested]
  have hown : Source.ofVersion [s, t] "alpha" "v1" = [s, t] := rfl
  have hown' : Source.ofVersion [t, s] "alpha" "v1" = [t, s] := rfl
  have hsame := findSome?_lastDigest?_of_buildAlike halike "alpha" "v1" "nop"
  rw [hown, hown'] at hsame
  simp only [List.reverse_cons, List.reverse_nil, List.nil_append, List.singleton_append,
    List.findSome?_cons, hlast, hlast', Option.some.injEq] at hsame
  have hne : Feature.digest ⟨"nop", ⟨1, 0, 0⟩⟩ ≠ Feature.digest ⟨"nop", ⟨0, 0, 0⟩⟩ := by
    decide +kernel
  exact hne hsame

end FirmwareMatch
