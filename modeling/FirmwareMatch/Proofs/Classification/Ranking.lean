import FirmwareMatch.Classification.Score
import FirmwareMatch.Proofs.Corpus.Uniqueness
import FirmwareMatch.Proofs.Decimal.Resolution
import FirmwareMatch.Proofs.SortedMap

/-
  Scores and their order.

  The matches of a project are counted along the smaller of two sets; both ways count the digests
  that lie in both. The ranking sorts by the places of similarities among the doubles, with the name
  as tie-break; this comparison is transitive and total, so the first record stands before all
  others.

  Proved:
  * `countMatches_eq_countP`: the number of matches does not depend on the set that is gone
    through.
  * `share_zero`, `orderKey_share_pos`: the share is zero without matches, and behind zero with
    some.
  * `map_project_scoreTable`: a table has one record per project.
  * `ranksBefore_trans`, `ranksBefore_total`: the comparison of records is a total preorder.
  * `pairwise_rankProjects`: in a ranking every record may stand before those that follow it.
-/

namespace FirmwareMatch

open Std SortedMap

/-! ## Matches -/

/-- The number of matches is the number of known digests that the unknown has, whichever set is
    gone through. -/
theorem countMatches_eq_countP (unknown : ExtTreeSet Digest) (known : DigestMap) :
    countMatches unknown known = known.keys.countP fun d => unknown.contains d := by
  unfold countMatches
  split
  · have hperm : (unknown.toList.filter fun d => known.contains d).Perm
        (known.keys.filter fun d => unknown.contains d) := by
      rw [List.perm_ext_iff_of_nodup (List.Pairwise.filter _ (nodup_toList unknown))
        (List.Pairwise.filter _ ExtTreeMap.nodup_keys)]
      intro d
      simp only [List.mem_filter, ExtTreeSet.mem_toList, ExtTreeMap.mem_keys,
        ExtTreeMap.contains_iff_mem, ExtTreeSet.contains_iff_mem]
      exact And.comm
    rw [List.countP_eq_length_filter, List.countP_eq_length_filter, hperm.length_eq]
  · rfl

theorem countMatches_eq_zero_iff (unknown : ExtTreeSet Digest) (known : DigestMap) :
    countMatches unknown known = 0 ↔ ∀ d ∈ known, d ∉ unknown := by
  simp [countMatches_eq_countP]

theorem countMatches_pos_iff (unknown : ExtTreeSet Digest) (known : DigestMap) :
    0 < countMatches unknown known ↔ ∃ d ∈ known, d ∈ unknown := by
  simp [countMatches_eq_countP]

/-- All known digests match exactly if the unknown has them all. -/
theorem countMatches_eq_size_iff (unknown : ExtTreeSet Digest) (known : DigestMap) :
    countMatches unknown known = known.size ↔ ∀ d ∈ known, d ∈ unknown := by
  rw [countMatches_eq_countP, ← ExtTreeMap.length_keys, List.countP_eq_length]
  simp

namespace ScoreRecord

theorem share_zero (total : Nat) : share 0 total = 0.0 := by
  unfold share
  split
  · rfl
  · rename_i h
    simp only [beq_iff_eq] at h
    exact Decimal.quotient_zero (by omega)

/-- The share of a score is a quotient of counts, also if there is nothing to match. -/
theorem share_eq_quotient {matched total : Nat} (h : matched ≤ total) :
    share matched total = Decimal.quotient matched (max total 1) := by
  rcases Nat.eq_zero_or_pos total with hzero | hpos
  · obtain rfl : matched = 0 := by omega
    rw [share_zero, Decimal.quotient_zero (by omega)]
  · rw [Nat.max_eq_left hpos]
    simp [share, Nat.ne_of_gt hpos]

/-- A share of something stands behind zero. -/
theorem orderKey_share_pos {matched total : Nat} (hpos : 0 < matched) (hle : matched ≤ total)
    (htotal : total ≤ 2 ^ 256) : Decimal.orderKey 0.0 < Decimal.orderKey (share matched total) := by
  rw [share_eq_quotient hle]
  exact Decimal.orderKey_quotient_pos hpos (by omega) (by omega)

/-! ## The order of records -/

/-- A record stands before another one if its similarity is larger or, for equal similarities, its
    name does not come later. -/
theorem ranksBefore_iff (a b : ScoreRecord) :
    ranksBefore a b ↔ Decimal.orderKey b.similarity < Decimal.orderKey a.similarity ∨
      a.similarity = b.similarity ∧ a.project ≤ b.project := by
  rw [← Decimal.orderKey_inj]
  unfold ranksBefore
  by_cases heq : Decimal.orderKey a.similarity = Decimal.orderKey b.similarity
  · simp [heq]
  · simp [heq]

theorem orderKey_le_of_ranksBefore {a b : ScoreRecord} (h : ranksBefore a b) :
    Decimal.orderKey b.similarity ≤ Decimal.orderKey a.similarity := by
  rcases (ranksBefore_iff a b).mp h with hlt | ⟨heq, _⟩
  · exact Int.le_of_lt hlt
  · rw [heq]

theorem ranksBefore_trans {a b c : ScoreRecord} (hab : ranksBefore a b)
    (hbc : ranksBefore b c) : ranksBefore a c := by
  have hkeys := Int.le_trans (orderKey_le_of_ranksBefore hbc) (orderKey_le_of_ranksBefore hab)
  rw [ranksBefore_iff] at hab hbc ⊢
  rcases Int.lt_or_eq_of_le hkeys with hlt | heq
  · exact Or.inl hlt
  · rcases hab with hlt | ⟨hab, hname⟩ <;> rcases hbc with hlt' | ⟨hbc, hname'⟩
    · omega
    · rw [hbc] at hlt
      omega
    · rw [← hab] at hlt'
      omega
    · exact Or.inr ⟨hab.trans hbc, String.le_trans hname hname'⟩

theorem ranksBefore_total (a b : ScoreRecord) : ranksBefore a b || ranksBefore b a := by
  rw [Bool.or_eq_true, ranksBefore_iff, ranksBefore_iff]
  rcases Int.lt_trichotomy (Decimal.orderKey a.similarity) (Decimal.orderKey b.similarity) with
    hlt | heq | hgt
  · exact Or.inr (Or.inl hlt)
  · have heq := Decimal.orderKey_inj.mp heq
    cases String.le_total a.project b.project with
    | inl h => exact Or.inl (Or.inr ⟨heq, h⟩)
    | inr h => exact Or.inr (Or.inr ⟨heq.symm, h⟩)
  · exact Or.inl (Or.inl hgt)

end ScoreRecord

variable {unknown : ExtTreeSet Digest} {t : UniqueTable} {thresholds : Thresholds}
  {records : List ScoreRecord}

/-! ## The scores of a table -/

/-- No more digests match than there are. -/
theorem matched_le_total (unknown : ExtTreeSet Digest) (thresholds : Thresholds)
    (s : UniqueSet) :
    (scoreProject unknown thresholds s).matched ≤ (scoreProject unknown thresholds s).total := by
  show countMatches unknown s.features ≤ s.features.size
  rw [countMatches_eq_countP, ← ExtTreeMap.length_keys]
  exact List.countP_le_length

theorem mem_scoreTable_iff (r : ScoreRecord) :
    r ∈ scoreTable unknown t thresholds ↔
      ∃ (p : String) (s : UniqueSet), t.projects[p]? = some s ∧
        scoreProject unknown thresholds s = r := by
  unfold scoreTable
  rw [values_eq_map_snd]
  simp only [List.map_map, List.mem_map, Prod.exists, ExtTreeMap.mem_toList_iff_getElem?_eq_some,
    Function.comp_apply]

/-- One record per project, in the order of the table. -/
theorem map_project_scoreTable (h : t.Keyed) :
    (scoreTable unknown t thresholds).map ScoreRecord.project = t.projects.keys := by
  unfold scoreTable
  rw [values_eq_map_snd, ← ExtTreeMap.map_fst_toList_eq_keys, List.map_map, List.map_map]
  apply List.map_congr_left
  rintro ⟨p, s⟩ hps
  exact h p s (ExtTreeMap.mem_toList_iff_getElem?_eq_some.mp hps)

/-! ## The ranking -/

/-- In a ranking every record may stand before those that follow it. -/
theorem pairwise_rankProjects (h : rankProjects unknown t thresholds = .ok records) :
    records.Pairwise fun a b => ScoreRecord.ranksBefore a b := by
  obtain ⟨_, rfl⟩ := rankProjects_eq_ok_iff.mp h
  apply List.pairwise_mergeSort
  · intro a b c
    exact ScoreRecord.ranksBefore_trans
  · exact ScoreRecord.ranksBefore_total

/-- The first record of a ranking has the largest similarity. -/
theorem exists_head_rankProjects (h : rankProjects unknown t thresholds = .ok records)
    {r : ScoreRecord} (hr : r ∈ records) :
    ∃ b, records.head? = some b ∧
      Decimal.orderKey r.similarity ≤ Decimal.orderKey b.similarity := by
  have hsorted := pairwise_rankProjects h
  cases records with
  | nil => simp at hr
  | cons b rest =>
    refine ⟨b, rfl, ?_⟩
    rw [List.pairwise_cons] at hsorted
    cases List.mem_cons.mp hr with
    | inl hb => exact hb ▸ Int.le_refl _
    | inr hrest => exact ScoreRecord.orderKey_le_of_ranksBefore (hsorted.1 r hrest)

/-- A table with a project has a ranking. -/
theorem exists_rankProjects {name : String} (hname : name ∈ t.projects) :
    ∃ records, rankProjects unknown t thresholds = .ok records :=
  ⟨_, rankProjects_eq_ok_iff.mpr ⟨isEmpty_eq_false_of_mem hname, rfl⟩⟩

end FirmwareMatch
