import FirmwareMatch.Proofs.Corpus.Sources
import FirmwareMatch.Proofs.Feature.Encoding
import FirmwareMatch.Proofs.Store.Records

/-
  The order of the sources does not matter for the table of unique features and the summary.

  A project has the digests of its sources, and the mnemonic of a digest is that of a feature with
  this digest. A later feature with the same digest may write its mnemonic over the earlier one;
  if SHA-256 tells the encodings apart that occur, both features are the same, because an encoding
  determines its feature. What the summary counts, it counts over all sources.

  Not claimed: that the feature store is the same. It lists projects, versions and files in the
  order in which they came, and keeps one digest for each mnemonic.

  Proved:
  * `getElem?_digestsOf_foldl_add`: where the mnemonic of a digest comes from.
  * `corpus_perm`, `projectSummary_perm`: the corpus and the lines of the summary after reordered
    sources.
  * `buildCorpus_perm`: the builds of reordered sources agree in the table and in the summary.
-/

namespace FirmwareMatch

open Std SortedMap

/-- The features that occur in sources. -/
def Source.occurring (c : Config) (sources : List Source) : Set Feature :=
  {f | ∃ s ∈ sources, f ∈ s.features c}

/-! ## The corpus -/

namespace Corpus

theorem digestsOf_add (c : Corpus) (p : String) (features : List DigestedFeature) (q : String) :
    (c.add p features).digestsOf q =
      if p = q then features.foldl note (c.digestsOf q) else c.digestsOf q := by
  unfold add digestsOf
  rw [ExtTreeMap.getD_insert]
  simp only [LawfulEqCmp.compare_eq_iff_eq]
  split
  · rename_i h
    rw [h]
  · rfl

theorem getElem?_of_mem {corpus : Corpus} {p : String} (h : p ∈ corpus) :
    corpus[p]? = some (corpus.digestsOf p) := by
  rw [digestsOf, ExtTreeMap.getD_eq_getD_getElem?, ExtTreeMap.getElem?_eq_some_getElem h,
    Option.getD_some]

/-- A corpus is determined by its projects and their digests. -/
theorem ext_digestsOf {c d : Corpus} (hmem : ∀ p, p ∈ c ↔ p ∈ d)
    (hdigests : ∀ p, c.digestsOf p = d.digestsOf p) : c = d := by
  apply ExtTreeMap.ext_getElem?
  intro p
  by_cases hp : p ∈ c
  · rw [getElem?_of_mem hp, getElem?_of_mem ((hmem p).mp hp), hdigests]
  · rw [ExtTreeMap.getElem?_eq_none hp, ExtTreeMap.getElem?_eq_none (mt (hmem p).mpr hp)]

end Corpus

namespace BuildState

variable {c : Config} {b : BuildState} {sources : List Source} {p : String}

/-- The mnemonic of a digest was there, or it is that of a feature of a source. -/
theorem getElem?_digestsOf_foldl_add {d : Digest} {mnemonic : String}
    (h : ((sources.foldl (add c) b).corpus.digestsOf p)[d]? = some mnemonic) :
    (b.corpus.digestsOf p)[d]? = some mnemonic ∨
      ∃ s ∈ sources, ∃ f ∈ s.features c, f.digest = d ∧ f.mnemonic = mnemonic := by
  induction sources generalizing b with
  | nil => exact Or.inl h
  | cons s ss ih =>
    rcases ih h with hb | ⟨t, ht, hf⟩
    · rw [corpus_add, Corpus.digestsOf_add] at hb
      split at hb
      · rcases getElem?_foldl_insert_map hb with hb | ⟨x, hx, hd, hm⟩
        · exact Or.inl hb
        · refine Or.inr ⟨s, List.mem_cons_self, x.feature, List.mem_map_of_mem hx, ?_, hm⟩
          rw [← hd, Fingerprint.digest_of_mem hx]
      · exact Or.inl hb
    · exact Or.inr ⟨t, List.mem_cons_of_mem _ ht, hf⟩

/-- In a corpus that was built from sources a mnemonic comes from a source. -/
theorem exists_feature_of_getElem? {generatedAt : String} {d : Digest} {mnemonic : String}
    (h : ((sources.foldl (add c) (start generatedAt)).corpus.digestsOf p)[d]? = some mnemonic) :
    ∃ s ∈ sources, ∃ f ∈ s.features c, f.digest = d ∧ f.mnemonic = mnemonic := by
  rcases getElem?_digestsOf_foldl_add h with h | h
  · simp [start, Corpus.digestsOf] at h
  · exact h

end BuildState

section Perm

variable {c : Config} {sources sources' : List Source} (generatedAt generatedAt' : String)

/-- Reordered sources give the same corpus. -/
theorem corpus_perm (hperm : sources.Perm sources')
    (hseparates : Sha256.Separates (Feature.encoding '' Source.occurring c sources)) :
    (sources.foldl (BuildState.add c) (.start generatedAt)).corpus =
      (sources'.foldl (BuildState.add c) (.start generatedAt')).corpus := by
  apply Corpus.ext_digestsOf
  · intro p
    rw [BuildState.mem_corpus_start, BuildState.mem_corpus_start]
    simp only [hperm.mem_iff]
  · intro p
    apply ExtTreeMap.ext_getElem?
    intro d
    generalize hx : (Corpus.digestsOf
      (sources.foldl (BuildState.add c) (.start generatedAt)).corpus p)[d]? = x
    generalize hy : (Corpus.digestsOf
      (sources'.foldl (BuildState.add c) (.start generatedAt')).corpus p)[d]? = y
    -- both maps have the digest or neither has it
    have hsome : x.isSome = y.isSome := by
      rw [Bool.eq_iff_iff, ← hx, ← hy, ← ExtTreeMap.mem_iff_isSome_getElem?,
        ← ExtTreeMap.mem_iff_isSome_getElem?]
      have hholds := BuildState.holds_corpus_start c generatedAt sources p d
      have hholds' := BuildState.holds_corpus_start c generatedAt' sources' p d
      unfold Corpus.Holds at hholds hholds'
      rw [hholds, hholds']
      simp only [hperm.mem_iff]
    cases x with
    | none =>
      cases y with
      | none => rfl
      | some m' => simp at hsome
    | some m =>
      cases y with
      | none => simp at hsome
      | some m' =>
        obtain ⟨s, hs, f, hf, hfd, rfl⟩ := BuildState.exists_feature_of_getElem? hx
        obtain ⟨t, ht, g, hg, hgd, rfl⟩ := BuildState.exists_feature_of_getElem? hy
        -- the digest is that of one feature, wherever it was met
        rw [Feature.injOn_digest hseparates ⟨s, hs, hf⟩ ⟨t, hperm.mem_iff.mpr ht, hg⟩
          (hfd.trans hgd.symm)]

/-! ## The summary -/

/-- The versions of a project, counted once each, do not depend on the order. -/
theorem length_versionsOf_perm (hperm : sources.Perm sources') (p : String) :
    ((sources.foldl (BuildState.add c) (.start generatedAt)).store.versionsOf p).length =
      ((sources'.foldl (BuildState.add c) (.start generatedAt')).store.versionsOf p).length := by
  have hnames := BuildState.versionNames_perm c p hperm generatedAt generatedAt'
  have hlength := hnames.length_eq
  unfold FeatureStore.versionNames at hlength
  rwa [List.length_map, List.length_map] at hlength

theorem length_filesOf_perm (hperm : sources.Perm sources') (p : String) :
    ((sources.foldl (BuildState.add c) (.start generatedAt)).store.filesOf p).length =
      ((sources'.foldl (BuildState.add c) (.start generatedAt')).store.filesOf p).length := by
  have hfiles := BuildState.filesOf_foldl_add c (.start generatedAt) p sources
  have hfiles' := BuildState.filesOf_foldl_add c (.start generatedAt') p sources'
  have hown := (hperm.filter fun s => s.project == p).map (Source.fileRecord c)
  exact (hfiles.trans ((hown.append_left _).trans hfiles'.symm)).length_eq

/-- Reordered sources give the same line of the summary. -/
theorem projectSummary_perm (hperm : sources.Perm sources') (unique : UniqueTable) (p : String)
    (digests : DigestMap) :
    BuildState.projectSummary (sources.foldl (BuildState.add c) (.start generatedAt)).store
        unique p digests =
      BuildState.projectSummary (sources'.foldl (BuildState.add c) (.start generatedAt')).store
        unique p digests := by
  rw [BuildState.projectSummary_eq, BuildState.projectSummary_eq,
    length_versionsOf_perm generatedAt generatedAt' hperm,
    length_filesOf_perm generatedAt generatedAt' hperm]

/-- A corpus does not depend on the order in which its sources come. The builds of a sequence of
    sources and of a rearrangement of it both succeed, with the same table of unique features and
    the same summary, if SHA-256 gives the different encodings that occur different digests. -/
theorem buildCorpus_perm (hperm : sources.Perm sources')
    (hseparates : Sha256.Separates (Feature.encoding '' Source.occurring c sources)) :
    ∃ build build' : CorpusBuild,
      buildCorpus c generatedAt (sources.map .ok) = .ok build ∧
      buildCorpus c generatedAt' (sources'.map .ok) = .ok build' ∧
      build'.unique = build.unique ∧ build'.summary = build.summary := by
  refine ⟨_, _, buildCorpus_ok c generatedAt sources, buildCorpus_ok c generatedAt' sources', ?_⟩
  have hcorpus := corpus_perm generatedAt generatedAt' hperm hseparates
  obtain ⟨hfiles, hinstructions, hskipped⟩ :=
    BuildState.sums_foldl_add c sources (.start generatedAt)
  obtain ⟨hfiles', hinstructions', hskipped'⟩ :=
    BuildState.sums_foldl_add c sources' (.start generatedAt')
  unfold BuildState.finish
  dsimp only
  rw [← hcorpus]
  refine ⟨rfl, ?_⟩
  rw [hfiles, hfiles', hinstructions, hinstructions', hskipped, hskipped', hperm.length_eq,
    total_perm _ hperm, total_perm _ hperm]
  congr 1
  apply List.map_congr_left
  rintro ⟨p, digests⟩ _
  exact (projectSummary_perm generatedAt generatedAt' hperm _ p digests).symm

end Perm

/-- Two versions of one project, of which the second has two digests for one mnemonic, and a project
    that shares a digest with both, in two orders. -/
theorem buildCorpus_perm_rotated :
    let s : Source := ⟨"alpha", "1", "a.asm", ".text\nnop\nmov r0, r1\n"⟩
    let t : Source := ⟨"alpha", "2", "a.asm", ".init\n.text\nNOP\nmov r2, r3\nend:\nnop\n"⟩
    let u : Source := ⟨"beta", "1", "b.asm", ".text\nnop\n"⟩
    Source.features .standard t = Feature.samples ∧
    Sha256.Separates (Feature.encoding '' Source.occurring .standard [s, t, u]) ∧
    ∃ build build' : CorpusBuild,
      buildCorpus .standard "monday" [.ok s, .ok t, .ok u] = .ok build ∧
      buildCorpus .standard "tuesday" [.ok t, .ok u, .ok s] = .ok build' ∧
      build'.unique = build.unique ∧ build'.summary = build.summary := by
  intro s t u
  have hfeatures : ∀ x ∈ [s, t, u], ∀ f ∈ x.features .standard, f ∈ Feature.samples := by
    decide +kernel
  have hseparates : Sha256.Separates (Feature.encoding '' Source.occurring .standard [s, t, u]) :=
    Feature.separates_samples fun f ⟨x, hx, hf⟩ => hfeatures x hx f hf
  have hperm : ([s] ++ [t, u]).Perm ([t, u] ++ [s]) := List.perm_append_comm
  exact ⟨by decide +kernel, hseparates, buildCorpus_perm "monday" "tuesday" hperm hseparates⟩

end FirmwareMatch
