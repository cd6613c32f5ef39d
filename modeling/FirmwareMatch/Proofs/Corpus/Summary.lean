import FirmwareMatch.Proofs.Corpus.Sources
import FirmwareMatch.Proofs.Listing.Reading
import FirmwareMatch.Proofs.Store.Records
import Mathlib.Data.Finset.Card

/-
  The store, the table and the summary of one build tell the same.

  The three are filled side by side, source after source, and are joined by the names of the
  projects at the end. Each of them has exactly the projects of the sources, so no join falls back
  to nothing, and what the summary counts for a project is what the table and the store have of it.

  Proved:
  * `Fingerprint.length_features`: a fingerprint has one feature per instruction.
  * `size_digestsOf_foldl_add`: a project has the distinct digests of its sources.
  * `map_name_projects_finish`, `totalUnique_finish`: the lines of the summary and their sum.
  * `buildCorpus_agrees`: the agreement of the three.
-/

namespace FirmwareMatch

open Std SortedMap

/-! ## Features and digests -/

/-- A fingerprint has one feature per instruction. -/
theorem Fingerprint.length_features (c : Config) (text : String) :
    (ofText c text).features.length = (ofText c text).listing.instructionCount := by
  have hmnemonics := congrArg List.length (map_mnemonic_features c text)
  rw [List.length_map, List.length_map] at hmnemonics
  have hcount := (Listing.wellFormed_parse c.codeSections text).instructionCount
  rw [hmnemonics, Listing.instructions, length_flatMap, ← instructionsOf, ← hcount]
  rfl

/-- The digests of a project's sources, one for each feature. -/
def Source.digestsOf (c : Config) (sources : List Source) (p : String) : List Digest :=
  (sources.filter fun s => s.project == p).flatMap fun s =>
    (Fingerprint.ofText c s.contents).features.map DigestedFeature.digest

theorem Source.mem_digestsOf {c : Config} {sources : List Source} {p : String} {d : Digest} :
    d ∈ digestsOf c sources p ↔ ∃ s ∈ sources, s.project = p ∧ d ∈ s.digests c := by
  simp only [digestsOf, List.mem_flatMap, List.mem_filter, beq_iff_eq, and_assoc, digests,
    Fingerprint.mem_digests, List.mem_map]

/-- There are as many digests as the files of the project have instructions. -/
theorem Source.length_digestsOf (c : Config) (sources : List Source) (p : String) :
    (digestsOf c sources p).length = total FileRecord.instructionCount
      ((sources.filter fun s => s.project == p).map (Source.fileRecord c)) := by
  rw [digestsOf, length_flatMap, total_map]
  simp only [List.length_map, Fingerprint.length_features]
  rfl

namespace BuildState

variable (c : Config) (generatedAt : String) (sources : List Source)

/-- A project has the distinct digests of its sources. -/
theorem size_digestsOf_foldl_add (p : String) :
    (Corpus.digestsOf (sources.foldl (add c) (start generatedAt)).corpus p).size =
      (Source.digestsOf c sources p).toFinset.card := by
  rw [← ExtTreeMap.length_keys, ← List.toFinset_card_of_nodup ExtTreeMap.nodup_keys]
  congr 1
  ext d
  rw [List.mem_toFinset, List.mem_toFinset, ExtTreeMap.mem_keys, Source.mem_digestsOf]
  exact holds_corpus_start c generatedAt sources p d

/-- A project has no more digests than its sources have instructions. -/
theorem size_digestsOf_le (p : String) :
    (Corpus.digestsOf (sources.foldl (add c) (start generatedAt)).corpus p).size ≤
      total FileRecord.instructionCount
        ((sources.filter fun s => s.project == p).map (Source.fileRecord c)) := by
  rw [size_digestsOf_foldl_add, ← Source.length_digestsOf]
  exact List.toFinset_card_le _

/-- What the files of the store count is counted over the sources. -/
theorem total_files_foldl_add (count : FileRecord → Nat) :
    total count (sources.foldl (add c) (start generatedAt)).store.files =
      total (fun s => count (s.fileRecord c)) sources := by
  rw [total_perm count (files_foldl_add c (start generatedAt) sources), total_append, total_map]
  exact Nat.zero_add _

/-! ## The summary -/

variable (b : BuildState)

theorem map_name_projects_finish :
    b.finish.summary.projects.map ProjectSummary.name = b.corpus.keys := by
  rw [← ExtTreeMap.map_fst_toList_eq_keys]
  exact List.map_map

/-- The sum over the lines of the summary is the number of features in the table. -/
theorem totalUnique_finish : b.finish.summary.totalUnique = b.finish.unique.featureCount := by
  have hkeys : b.corpus.unique.projects.keys = b.corpus.toList.map Prod.fst := by
    rw [ExtTreeMap.map_fst_toList_eq_keys]
    exact ExtTreeMap.keys_map
  rw [CorpusSummary.totalUnique, UniqueTable.featureCount]
  change total _ (b.corpus.toList.map _) = total _ b.corpus.unique.projects.values
  rw [UniqueTable.values_eq_map_setOf, hkeys, total_map, total_map, total_map]
  rfl

end BuildState

/-! ## Agreement -/

/-- A line of the summary counts what the sources, the set of the table and the record of the store
    have of a project. -/
structure ProjectSummary.Counts (c : Config) (sources : List Source) (line : ProjectSummary)
    (set : UniqueSet) (record : ProjectRecord) : Prop where
  rawCount : line.rawFeatures = set.rawCount
  distinct : line.rawFeatures = (Source.digestsOf c sources line.name).toFinset.card
  unique : line.uniqueFeatures = set.features.size
  unique_le : line.uniqueFeatures ≤ line.rawFeatures
  raw_le : line.rawFeatures ≤ total FileRecord.instructionCount record.files
  versions : line.versions = record.versions.length
  files : line.files = record.files.length

/-- The store, the table and the summary of a build of the sources tell the same. -/
structure CorpusBuild.Agrees (c : Config) (sources : List Source) (b : CorpusBuild) : Prop where
  /-- The lines of the summary ascend by name, so none is repeated. -/
  ascending : (b.summary.projects.map ProjectSummary.name).Pairwise (· < ·)
  summary_projects : ∀ p, p ∈ b.summary.projects.map ProjectSummary.name ↔
    ∃ s ∈ sources, s.project = p
  table_projects : ∀ p, p ∈ b.unique.projects ↔ ∃ s ∈ sources, s.project = p
  store_projects : ∀ p, p ∈ b.store.projectNames ↔ ∃ s ∈ sources, s.project = p
  /-- The store has one record for each project. -/
  store_nodup : b.store.projectNames.Nodup
  /-- Every line has a set in the table and a record in the store, and counts what is there. -/
  counts : ∀ line ∈ b.summary.projects, ∃ (set : UniqueSet) (record : ProjectRecord),
    b.unique.projects[line.name]? = some set ∧ b.store.find? line.name = some record ∧
      line.Counts c sources set record
  files : b.summary.files = sources.length
  instructions : b.summary.instructions = total FileRecord.instructionCount b.store.files
  skippedLines : b.summary.skippedLines = total FileRecord.skippedLines b.store.files
  totalUnique : b.summary.totalUnique = b.unique.featureCount

section Agreement

variable (c : Config) (generatedAt : String) (sources : List Source)

/-- A line of the summary counts what is there. -/
theorem exists_counts {line : ProjectSummary}
    (h : line ∈ (sources.foldl (BuildState.add c) (.start generatedAt)).finish.summary.projects) :
    let b := sources.foldl (BuildState.add c) (.start generatedAt)
    ∃ (set : UniqueSet) (record : ProjectRecord),
      b.corpus.unique.projects[line.name]? = some set ∧ b.store.find? line.name = some record ∧
        line.Counts c sources set record := by
  intro b
  obtain ⟨⟨p, digests⟩, hmem, rfl⟩ := List.mem_map.mp h
  have hp : b.corpus[p]? = some digests := ExtTreeMap.mem_toList_iff_getElem?_eq_some.mp hmem
  have hset : b.corpus.unique.projects[p]? =
      some ⟨p, digests.size, Corpus.aloneIn b.corpus.holders digests⟩ := by
    rw [Corpus.getElem?_unique, hp]
    rfl
  have hdigests : b.corpus.digestsOf p = digests := by
    rw [Corpus.digestsOf, ExtTreeMap.getD_eq_getD_getElem?, hp, Option.getD_some]
  have hsize : digests.size = (Source.digestsOf c sources p).toFinset.card :=
    hdigests ▸ BuildState.size_digestsOf_foldl_add c generatedAt sources p
  have hknown : p ∈ b.store.projectNames := by
    rw [BuildState.mem_projectNames_foldl_add]
    exact Or.inr ((BuildState.mem_corpus_start c generatedAt sources p).mp
      (ExtTreeMap.mem_iff_isSome_getElem?.mpr (by rw [hp]; rfl)))
  obtain ⟨record, hfind, hversions, hfiles⟩ := FeatureStore.exists_find? hknown
  have hperm : record.files.Perm
      ((sources.filter fun s => s.project == p).map (Source.fileRecord c)) :=
    hfiles ▸ BuildState.filesOf_foldl_add c (.start generatedAt) p sources
  refine ⟨_, record, hset, hfind, ?_⟩
  dsimp only
  rw [BuildState.projectSummary_eq, hversions, hfiles, UniqueTable.setOf_of_getElem? hset]
  refine ⟨rfl, hsize, rfl, ExtTreeMap.size_filter_le_size, ?_, rfl, rfl⟩
  rw [total_perm _ hperm]
  exact hdigests ▸ BuildState.size_digestsOf_le c generatedAt sources p

/-- The store, the table of unique features and the summary of a build agree, for any sources: they
    have the projects of the sources, also those whose listings have no instructions, and the
    counts of the summary are those of the sources, the table and the store. -/
theorem buildCorpus_agrees : ∃ build : CorpusBuild,
    buildCorpus c generatedAt (sources.map .ok) = .ok build ∧ build.Agrees c sources := by
  refine ⟨_, buildCorpus_ok c generatedAt sources, ?_⟩
  obtain ⟨hfiles, hinstructions, hskipped⟩ :=
    BuildState.sums_foldl_add c sources (.start generatedAt)
  have htotal := BuildState.total_files_foldl_add c generatedAt sources
  have hknown := BuildState.mem_corpus_start c generatedAt sources
  exact {
    ascending := by
      rw [BuildState.map_name_projects_finish]
      exact ExtTreeMap.ordered_keys.imp compare_lt_iff_lt.mp
    summary_projects := fun p => by
      rw [BuildState.map_name_projects_finish, ExtTreeMap.mem_keys]
      exact hknown p
    table_projects := fun p => Corpus.mem_projects_unique.trans (hknown p)
    store_projects := fun p =>
      (BuildState.mem_projectNames_foldl_add c (.start generatedAt) p sources).trans
        (or_iff_right List.not_mem_nil)
    store_nodup := BuildState.nodup_projectNames_foldl_add c (.start generatedAt) sources
      List.nodup_nil
    counts := fun line hline => exists_counts c generatedAt sources hline
    files := hfiles.trans (Nat.zero_add _)
    instructions := hinstructions.trans
      ((Nat.zero_add _).trans (htotal FileRecord.instructionCount).symm)
    skippedLines := hskipped.trans ((Nat.zero_add _).trans (htotal FileRecord.skippedLines).symm)
    totalUnique := BuildState.totalUnique_finish _ }

end Agreement

end FirmwareMatch
