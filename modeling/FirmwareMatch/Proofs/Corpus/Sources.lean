import FirmwareMatch.Corpus.Build
import FirmwareMatch.Proofs.Corpus.Uniqueness

/-
  The corpus that a build collects from its sources.

  A source makes its project known and adds the digests of its listing to it; nothing else of the
  corpus changes. So after any sequence of sources a project has the digests of its own sources.

  Proved:
  * `Source.mem_digests_iff`: the digests of a source are those of its features.
  * `mem_add`, `holds_add`: what one source changes.
  * `mem_corpus_foldl_add`, `holds_corpus_foldl_add`: what a sequence of sources leaves.
  * `sums_foldl_add`: the sums over a sequence of sources.
-/

namespace FirmwareMatch

open Std SortedMap

theorem Fingerprint.mem_digests (f : Fingerprint) (d : Digest) :
    d ∈ f.digests ↔ ∃ x ∈ f.features, x.digest = d := by
  unfold digests
  rw [mem_foldl_insert]
  simp

/-- The digests of the listing that a source holds. -/
def Source.digests (c : Config) (s : Source) : ExtTreeSet Digest :=
  (Fingerprint.ofText c s.contents).digests

/-- The features of the listing that a source holds. -/
def Source.features (c : Config) (s : Source) : List Feature :=
  (Fingerprint.ofText c s.contents).features.map DigestedFeature.feature

theorem Fingerprint.features_ofText (c : Config) (text : String) :
    (ofText c text).features =
      (extractFeatures c.branchPolicy (Listing.parse c.codeSections text).blocks).map
        Feature.digested := by
  simp only [ofText]

/-- A feature of a fingerprint carries its own digest. -/
theorem Fingerprint.digest_of_mem {c : Config} {text : String} {x : DigestedFeature}
    (h : x ∈ (Fingerprint.ofText c text).features) : x.digest = x.feature.digest := by
  rw [features_ofText, List.mem_map] at h
  obtain ⟨f, _, rfl⟩ := h
  rfl

/-- The digests of a source are those of its features. -/
theorem Source.mem_digests_iff {c : Config} {s : Source} {d : Digest} :
    d ∈ s.digests c ↔ ∃ f ∈ s.features c, f.digest = d := by
  unfold digests features
  rw [Fingerprint.mem_digests]
  constructor
  · rintro ⟨x, hx, rfl⟩
    exact ⟨x.feature, List.mem_map_of_mem hx, (Fingerprint.digest_of_mem hx).symm⟩
  · rintro ⟨f, hf, rfl⟩
    obtain ⟨x, hx, rfl⟩ := List.mem_map.mp hf
    exact ⟨x, hx, Fingerprint.digest_of_mem hx⟩

/-- A source has a digest exactly if its listing has a feature. -/
theorem Source.exists_mem_digests_iff {c : Config} {s : Source} :
    (∃ d, d ∈ s.digests c) ↔ (Fingerprint.ofText c s.contents).features ≠ [] := by
  rw [← List.isEmpty_eq_false_iff, List.isEmpty_eq_false_iff_exists_mem]
  simp only [digests, Fingerprint.mem_digests]
  constructor
  · rintro ⟨_, x, hx, _⟩
    exact ⟨x, hx⟩
  · rintro ⟨x, hx⟩
    exact ⟨x.digest, x, hx, rfl⟩

/-! ## One source -/

namespace Corpus

theorem mem_foldl_note (features : List DigestedFeature) (m : DigestMap) (d : Digest) :
    d ∈ features.foldl note m ↔ d ∈ m ∨ ∃ x ∈ features, x.digest = d :=
  mem_foldl_insert_map DigestedFeature.digest (fun x => x.feature.mnemonic) features m d

theorem mem_add (c : Corpus) (p : String) (features : List DigestedFeature) (q : String) :
    q ∈ c.add p features ↔ p = q ∨ q ∈ c := by
  unfold add
  rw [ExtTreeMap.mem_insert, LawfulEqCmp.compare_eq_iff_eq]

/-- The digests go to the project they were found for, and no other project changes. -/
theorem holds_add (c : Corpus) (p : String) (features : List DigestedFeature) (q : String)
    (d : Digest) :
    (c.add p features).Holds q d ↔ c.Holds q d ∨ p = q ∧ ∃ x ∈ features, x.digest = d := by
  unfold Holds add
  by_cases h : p = q
  · subst h
    have hdigests : Corpus.digestsOf (c.insert p (features.foldl note (c.digestsOf p))) p =
        features.foldl note (c.digestsOf p) := by
      simp [digestsOf]
    rw [hdigests, mem_foldl_note]
    simp
  · have hdigests : Corpus.digestsOf (c.insert p (features.foldl note (c.digestsOf p))) q =
        c.digestsOf q := by
      simp [digestsOf, ExtTreeMap.getD_insert, h]
    rw [hdigests]
    simp [h]

end Corpus

/-! ## A sequence of sources -/

namespace BuildState

theorem corpus_add (c : Config) (b : BuildState) (s : Source) :
    (b.add c s).corpus = b.corpus.add s.project (Fingerprint.ofText c s.contents).features :=
  rfl

/-- The projects of a corpus are those it had and those of its sources. -/
theorem mem_corpus_foldl_add (c : Config) (sources : List Source) (b : BuildState) (p : String) :
    p ∈ (sources.foldl (add c) b).corpus ↔ p ∈ b.corpus ∨ ∃ s ∈ sources, s.project = p := by
  refine foldl_iff_exists (P := fun b => p ∈ b.corpus) (fun b s => ?_) sources b
  rw [corpus_add, Corpus.mem_add]
  exact Or.comm

/-- The digests of a project are those it had and those of its sources. -/
theorem holds_corpus_foldl_add (c : Config) (sources : List Source) (b : BuildState) (p : String)
    (d : Digest) :
    (sources.foldl (add c) b).corpus.Holds p d ↔
      b.corpus.Holds p d ∨ ∃ s ∈ sources, s.project = p ∧ d ∈ s.digests c := by
  refine foldl_iff_exists (P := fun b => b.corpus.Holds p d) (fun b s => ?_) sources b
  rw [corpus_add, Corpus.holds_add, Source.digests, Fingerprint.mem_digests]

theorem mem_corpus_start (c : Config) (generatedAt : String) (sources : List Source) (p : String) :
    p ∈ (sources.foldl (add c) (start generatedAt)).corpus ↔ ∃ s ∈ sources, s.project = p := by
  rw [mem_corpus_foldl_add]
  simp [start]

theorem holds_corpus_start (c : Config) (generatedAt : String) (sources : List Source)
    (p : String) (d : Digest) :
    (sources.foldl (add c) (start generatedAt)).corpus.Holds p d ↔
      ∃ s ∈ sources, s.project = p ∧ d ∈ s.digests c := by
  rw [holds_corpus_foldl_add]
  simp [start, Corpus.Holds, Corpus.digestsOf]

/-- The sums of a build, over all sources. -/
theorem sums_foldl_add (c : Config) (sources : List Source) (b : BuildState) :
    (sources.foldl (add c) b).files = b.files + sources.length ∧
    (sources.foldl (add c) b).instructions = b.instructions +
      total (fun s => (Fingerprint.ofText c s.contents).listing.instructionCount) sources ∧
    (sources.foldl (add c) b).skippedLines = b.skippedLines +
      total (fun s => (Fingerprint.ofText c s.contents).listing.skippedCount) sources := by
  induction sources generalizing b with
  | nil => exact ⟨rfl, rfl, rfl⟩
  | cons s ss ih =>
    obtain ⟨hfiles, hinstructions, hskipped⟩ := ih (b.add c s)
    rw [List.foldl_cons, hfiles, hinstructions, hskipped]
    simp only [add, List.length_cons, total_cons]
    omega

end BuildState

end FirmwareMatch
