import FirmwareMatch.Classification.Report
import FirmwareMatch.Proofs.Classification.Ranking
import FirmwareMatch.Proofs.Corpus.Sources
import FirmwareMatch.Proofs.Feature.Encoding

/-
  Classifying a source against the table that was built from it.

  Every digest of the source is one of its project, so no other project can hold it alone: the
  others match nothing. A digest that only the source's project has is in the table and matches.
  If the project has no further sources, all its unique digests match. Records are ranked by rounded
  shares, and one match among very many digests could round to nothing; but a project has no more
  digests than there are, and one match among all of them is still a double behind zero.

  Proved:
  * `matched_eq_zero_of_holds`, `exists_record_of_alone`, `matched_eq_total_of_holds`: the scores
    of an unknown whose digests a project of the corpus has.
  * `matched_pos_iff`: a record with matches has a similarity behind zero.
  * `classify_own_source`: the report on a source of the corpus.
-/

namespace FirmwareMatch

open Std

/-! ## Scores against the table of a corpus -/

section Scores

variable {corpus : Corpus} {unknown : ExtTreeSet Digest} {thresholds : Thresholds} {p : String}

/-- If a project has all digests of the unknown, no other project matches any. -/
theorem matched_eq_zero_of_holds (hall : ∀ d ∈ unknown, corpus.Holds p d) {r : ScoreRecord}
    (hr : r ∈ scoreTable unknown corpus.unique thresholds) (hp : r.project ≠ p) :
    r.matched = 0 := by
  obtain ⟨q, s, hs, rfl⟩ := (mem_scoreTable_iff r).mp hr
  have hq : s.project = q := corpus.keyed_unique q s hs
  show countMatches unknown s.features = 0
  rw [countMatches_eq_zero_iff]
  intro d hd hdu
  have halone := ((Corpus.mem_features_unique_iff hs d).mp hd).2
  refine halone p ?_ (hall d hdu)
  rw [← hq]
  exact Ne.symm hp

/-- A digest of the unknown that only one project has is a match of this project. -/
theorem exists_record_of_alone {d : Digest} (hd : d ∈ unknown) (hp : corpus.Holds p d)
    (halone : ∀ q, q ≠ p → ¬ corpus.Holds q d) :
    ∃ r ∈ scoreTable unknown corpus.unique thresholds, r.project = p ∧ 0 < r.matched := by
  have hmem : p ∈ corpus.unique.projects :=
    Corpus.mem_projects_unique.mpr (Corpus.mem_of_holds hp)
  have hs : corpus.unique.projects[p]? = some corpus.unique.projects[p] :=
    ExtTreeMap.getElem?_eq_some_getElem hmem
  refine ⟨_, (mem_scoreTable_iff _).mpr ⟨p, _, hs, rfl⟩, corpus.keyed_unique p _ hs, ?_⟩
  show 0 < countMatches unknown _
  rw [countMatches_pos_iff]
  exact ⟨d, (Corpus.mem_features_unique_iff hs d).mpr ⟨hp, halone⟩, hd⟩

/-- If the unknown has all digests of a project, all unique ones match. -/
theorem matched_eq_total_of_holds (hall : ∀ d, corpus.Holds p d → d ∈ unknown) {r : ScoreRecord}
    (hr : r ∈ scoreTable unknown corpus.unique thresholds) (hp : r.project = p) :
    r.matched = r.total := by
  obtain ⟨q, s, hs, rfl⟩ := (mem_scoreTable_iff r).mp hr
  have hq : s.project = q := corpus.keyed_unique q s hs
  show countMatches unknown s.features = s.features.size
  rw [countMatches_eq_size_iff]
  intro d hd
  apply hall
  rw [← hp]
  show corpus.Holds s.project d
  rw [hq]
  exact ((Corpus.mem_features_unique_iff hs d).mp hd).1

theorem similarity_of_mem_scoreTable {t : UniqueTable} {r : ScoreRecord}
    (hr : r ∈ scoreTable unknown t thresholds) :
    r.similarity = ScoreRecord.share r.matched r.total := by
  obtain ⟨q, s, _, rfl⟩ := (mem_scoreTable_iff r).mp hr
  rfl

/-- A project has no more unique digests than there are digests. -/
theorem total_le_of_mem_scoreTable
    (hdigests : ∀ q d, corpus.Holds q d → ∃ message, Sha256.hexDigest message = d)
    {r : ScoreRecord} (hr : r ∈ scoreTable unknown corpus.unique thresholds) :
    r.total ≤ 2 ^ 256 := by
  obtain ⟨q, s, hs, rfl⟩ := (mem_scoreTable_iff r).mp hr
  show s.features.size ≤ 2 ^ 256
  rw [← ExtTreeMap.length_keys]
  refine Sha256.length_digests_le ExtTreeMap.nodup_keys fun d hd => hdigests q d ?_
  exact ((Corpus.mem_features_unique_iff hs d).mp (ExtTreeMap.mem_keys.mp hd)).1

/-- A record with matches has a similarity behind zero. -/
theorem matched_pos_iff
    (hdigests : ∀ q d, corpus.Holds q d → ∃ message, Sha256.hexDigest message = d)
    {r : ScoreRecord} (hr : r ∈ scoreTable unknown corpus.unique thresholds) :
    0 < r.matched ↔ Decimal.orderKey 0.0 < Decimal.orderKey r.similarity := by
  have htotal := total_le_of_mem_scoreTable hdigests hr
  have hle : r.matched ≤ r.total := by
    obtain ⟨_, s, _, rfl⟩ := (mem_scoreTable_iff r).mp hr
    exact matched_le_total unknown thresholds s
  rw [similarity_of_mem_scoreTable hr]
  refine ⟨fun hpos => ScoreRecord.orderKey_share_pos hpos hle htotal, fun hkey => ?_⟩
  refine Nat.pos_of_ne_zero fun hzero => ?_
  rw [hzero, ScoreRecord.share_zero] at hkey
  exact Int.lt_irrefl _ hkey

/-- The total of a record is the size of the set that the table has for its project. -/
theorem total_of_mem_scoreTable {t : UniqueTable} (ht : t.Keyed) {r : ScoreRecord}
    (hr : r ∈ scoreTable unknown t thresholds) :
    r.total = (t.setOf r.project).features.size := by
  obtain ⟨q, s, hs, rfl⟩ := (mem_scoreTable_iff r).mp hr
  have hset : t.setOf s.project = s := by
    rw [ht q s hs]
    exact UniqueTable.setOf_of_getElem? hs
  show s.features.size = (t.setOf s.project).features.size
  rw [hset]

end Scores

/-! ## The report on a source -/

/-- A ranking for the digests of a text makes the report on the text. -/
theorem Report.ofText_of_rankProjects {c : Config} {t : UniqueTable} {text : String}
    {records : List ScoreRecord}
    (h : rankProjects (Fingerprint.ofText c text).digests t c.thresholds = .ok records)
    (name : String) :
    Report.ofText c t name text =
      .ok ⟨name, (Fingerprint.ofText c text).listing.instructionCount,
        (Fingerprint.ofText c text).digests.size, records⟩ := by
  simp only [Report.ofText, h, Except.map]

/-- A text has a report against every table with a project; its records are the ranking. -/
theorem Report.exists_ofText (c : Config) {t : UniqueTable} {p : String} (hp : p ∈ t.projects)
    (name text : String) :
    ∃ report, Report.ofText c t name text = .ok report ∧
      rankProjects (Fingerprint.ofText c text).digests t c.thresholds = .ok report.records := by
  obtain ⟨records, hrecords⟩ := exists_rankProjects hp
  exact ⟨_, Report.ofText_of_rankProjects hrecords name, hrecords⟩

/-- A source is recognised in the corpus it belongs to. The report on it has one record per project
    of the corpus. Other projects match nothing. If no other project has one of its digests, its
    own project is the best match. If its project has no other source, all unique digests of the
    project match. -/
theorem classify_own_source (c : Config) (generatedAt name : String) (sources : List Source) :
    ∃ build : CorpusBuild, buildCorpus c generatedAt (sources.map .ok) = .ok build ∧
      ∀ s ∈ sources, ∃ report : Report,
        Report.ofText c build.unique name s.contents = .ok report ∧
        (report.records.map ScoreRecord.project).Nodup ∧
        (∀ p, p ∈ report.records.map ScoreRecord.project ↔ ∃ t ∈ sources, t.project = p) ∧
        (∀ r ∈ report.records, r.total = (build.unique.setOf r.project).features.size) ∧
        (∀ r ∈ report.records, r.project ≠ s.project → r.matched = 0 ∧ r.similarity = 0.0) ∧
        ((∃ d ∈ s.digests c, ∀ t ∈ sources, t.project ≠ s.project → d ∉ t.digests c) →
          ∃ best, report.best? = some best ∧ best.project = s.project ∧ 0 < best.matched) ∧
        ((∀ t ∈ sources, t.project = s.project → t = s) →
          ∀ r ∈ report.records, r.project = s.project → r.matched = r.total) := by
  refine ⟨_, buildCorpus_ok c generatedAt sources, fun s hs => ?_⟩
  let corpus := (sources.foldl (BuildState.add c) (BuildState.start generatedAt)).corpus
  have hknown : ∀ p, p ∈ corpus ↔ ∃ t ∈ sources, t.project = p :=
    BuildState.mem_corpus_start c generatedAt sources
  have hholds : ∀ p d, corpus.Holds p d ↔ ∃ t ∈ sources, t.project = p ∧ d ∈ t.digests c :=
    BuildState.holds_corpus_start c generatedAt sources
  have hown : ∀ d ∈ s.digests c, corpus.Holds s.project d := by
    intro d hd
    exact (hholds _ _).mpr ⟨s, hs, rfl, hd⟩
  have hdigests : ∀ p d, corpus.Holds p d → ∃ message, Sha256.hexDigest message = d := by
    intro p d hd
    obtain ⟨t, _, _, htd⟩ := (hholds p d).mp hd
    obtain ⟨f, _, rfl⟩ := Source.mem_digests_iff.mp htd
    exact ⟨f.encoding.toUTF8, rfl⟩
  have hp : s.project ∈ corpus.unique.projects :=
    Corpus.mem_projects_unique.mpr ((hknown _).mpr ⟨s, hs, rfl⟩)
  obtain ⟨report, hreport, hrank⟩ := Report.exists_ofText c hp name s.contents
  have hperm := perm_of_rankProjects hrank
  have hprojects : (report.records.map ScoreRecord.project).Perm corpus.unique.projects.keys := by
    rw [← map_project_scoreTable corpus.keyed_unique]
    exact hperm.map ScoreRecord.project
  have hothers : ∀ r ∈ report.records, r.project ≠ s.project → r.matched = 0 := by
    intro r hr
    exact matched_eq_zero_of_holds hown (hperm.mem_iff.mp hr)
  refine ⟨report, hreport, ?_, ?_, ?_, ?_, ?_, ?_⟩
  · rw [hprojects.nodup_iff]
    exact ExtTreeMap.nodup_keys
  · intro p
    rw [hprojects.mem_iff, ExtTreeMap.mem_keys, Corpus.mem_projects_unique, hknown]
  · intro r hr
    exact total_of_mem_scoreTable corpus.keyed_unique (hperm.mem_iff.mp hr)
  · intro r hr hne
    refine ⟨hothers r hr hne, ?_⟩
    rw [similarity_of_mem_scoreTable (hperm.mem_iff.mp hr), hothers r hr hne]
    exact ScoreRecord.share_zero r.total
  · rintro ⟨d, hd, halone⟩
    have honly : ∀ q, q ≠ s.project → ¬ corpus.Holds q d := by
      intro q hq hqd
      obtain ⟨t, ht, rfl, htd⟩ := (hholds q d).mp hqd
      exact halone t ht hq htd
    obtain ⟨r, hr, _, hmatched⟩ := exists_record_of_alone hd (hown d hd) honly
    obtain ⟨best, hbest, hfirst⟩ := exists_head_rankProjects hrank (hperm.mem_iff.mpr hr)
    have hmem : best ∈ report.records := List.mem_of_mem_head? hbest
    have hpos : 0 < best.matched := by
      rw [matched_pos_iff hdigests (hperm.mem_iff.mp hmem)]
      exact Int.lt_of_lt_of_le ((matched_pos_iff hdigests hr).mp hmatched) hfirst
    refine ⟨best, hbest, ?_, hpos⟩
    exact Decidable.byContradiction fun hne => by
      have := hothers best hmem hne
      omega
  · intro honly r hr hrp
    refine matched_eq_total_of_holds ?_ (hperm.mem_iff.mp hr) hrp
    intro d hd
    obtain ⟨t, ht, htp, htd⟩ := (hholds _ _).mp hd
    rw [honly t ht htp] at htd
    exact htd

/-- A corpus of two projects with one instruction in common: a listing of the first is recognised,
    and the second matches nothing, although the listing has a digest of it. -/
theorem classify_two_projects :
    let s : Source := ⟨"alpha", "1", "a.asm", ".text\nnop\nmov r0, r1\n"⟩
    let t : Source := ⟨"beta", "1", "b.asm", ".text\nnop\nend:\nnop\n"⟩
    ∃ (build : CorpusBuild) (report : Report) (best other : ScoreRecord) (d : Digest),
      d ∈ s.digests .standard ∧ d ∈ t.digests .standard ∧
      buildCorpus .standard "now" [.ok s, .ok t] = .ok build ∧
      Report.ofText .standard build.unique "a.asm" s.contents = .ok report ∧
      report.best? = some best ∧ best.project = "alpha" ∧ 0 < best.matched ∧
      best.matched = best.total ∧
      other ∈ report.records ∧ other.project = "beta" ∧ other.matched = 0 ∧
      other.similarity = 0.0 := by
  intro s t
  have hs : s.features .standard = [⟨"nop", ⟨0, 0, 0⟩⟩, ⟨"mov", ⟨1, 0, 0⟩⟩] := by decide +kernel
  have ht : t.features .standard = [⟨"nop", ⟨0, 0, 0⟩⟩, ⟨"nop", ⟨0, 1, 0⟩⟩] := by decide +kernel
  -- no feature of the second listing has the digest of `mov`
  have hinj : Set.InjOn Feature.digest {f | f ∈ Feature.samples} :=
    Feature.injOn_digest (Feature.separates_samples fun _ hf => hf)
  have halone : (⟨"mov", ⟨1, 0, 0⟩⟩ : Feature).digest ∉ t.digests .standard := by
    rw [Source.mem_digests_iff, ht]
    rintro ⟨f, hf, heq⟩
    have hsample : ∀ f ∈ [(⟨"nop", ⟨0, 0, 0⟩⟩ : Feature), ⟨"nop", ⟨0, 1, 0⟩⟩],
        f ∈ Feature.samples ∧ f ≠ ⟨"mov", ⟨1, 0, 0⟩⟩ := by decide
    exact (hsample f hf).2 (hinj (hsample f hf).1 (by decide) heq)
  obtain ⟨build, hbuild, hreports⟩ := classify_own_source .standard "now" "a.asm" [s, t]
  obtain ⟨report, hreport, _, hprojects, _, hothers, hbest, hall⟩ :=
    hreports s List.mem_cons_self
  obtain ⟨best, hhead, hproject, hpos⟩ := hbest ⟨_,
    Source.mem_digests_iff.mpr ⟨⟨"mov", ⟨1, 0, 0⟩⟩, by rw [hs]; decide, rfl⟩, by
      intro u hu hne
      obtain rfl : u = t := by
        rcases List.mem_pair.mp hu with rfl | rfl
        · exact absurd rfl hne
        · rfl
      exact halone⟩
  have honly : ∀ u ∈ [s, t], u.project = s.project → u = s := by
    intro u hu heq
    rcases List.mem_pair.mp hu with rfl | rfl
    · rfl
    · exact absurd heq (by decide)
  obtain ⟨other, hother, hbeta⟩ :=
    List.mem_map.mp ((hprojects "beta").mpr ⟨t, List.mem_pair.mpr (Or.inr rfl), rfl⟩)
  obtain ⟨hmatched, hsimilarity⟩ := hothers other hother (by rw [hbeta]; decide)
  refine ⟨build, report, best, other, (⟨"nop", ⟨0, 0, 0⟩⟩ : Feature).digest, ?_, ?_, hbuild, hreport,
    hhead, hproject, hpos, hall honly best (List.mem_of_mem_head? hhead) hproject, hother, hbeta,
    hmatched, hsimilarity⟩
  · exact Source.mem_digests_iff.mpr ⟨_, by rw [hs]; exact List.mem_cons_self, rfl⟩
  · exact Source.mem_digests_iff.mpr ⟨_, by rw [ht]; exact List.mem_cons_self, rfl⟩

end FirmwareMatch
