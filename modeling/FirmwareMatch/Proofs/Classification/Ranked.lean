import FirmwareMatch.Proofs.Classification.Ranking
import FirmwareMatch.Proofs.Sorting

/-
  What a ranking is.

  The score of a project is defined by the digests that lie in both sets, its place by the
  similarity and the name. Records that agree in both keep the order of the table, since the sort is
  stable; tiers cannot rise down the ranking, since similarities do not. Shares are rounded to
  similarities. This keeps their order, and it makes two of them one only if the product of the
  totals is `2 ^ 52` or more; so the records stand as their shares do where rounding does not hide
  the difference.

  Proved:
  * `scoreProject_eq`: a project is scored by its definition, whichever set is gone through.
  * `IsScore.orderKey_le_of_quotient_le`: a larger share does not stand before a smaller one.
  * `IsScore.quotient_of_ranksBefore`: what the order of two records says about their shares.
  * `level_tier_le`: a larger share has no lower tier, for any thresholds.
  * `rankProjects_isRanking`: a table without projects is a fault, and every other one has a
    ranking.
  * `IsRanking.sorted_of_small`: small projects are ranked by their shares.
-/

namespace FirmwareMatch

open Std SortedMap

/-! ## Scores by definition -/

/-- The digests that lie in both sets. -/
def sharedDigests (unknown : ExtTreeSet Digest) (known : DigestMap) : Finset Digest :=
  unknown.toList.toFinset ∩ known.keys.toFinset

theorem mem_sharedDigests_iff {unknown : ExtTreeSet Digest} {known : DigestMap} {d : Digest} :
    d ∈ sharedDigests unknown known ↔ d ∈ unknown ∧ d ∈ known := by
  simp [sharedDigests]

theorem countMatches_eq_card (unknown : ExtTreeSet Digest) (known : DigestMap) :
    countMatches unknown known = (sharedDigests unknown known).card := by
  have hset : sharedDigests unknown known =
      (known.keys.filter fun d => unknown.contains d).toFinset := by
    ext d
    simp [mem_sharedDigests_iff, and_comm]
  rw [countMatches_eq_countP, hset, List.toFinset_card_of_nodup
    (List.Pairwise.filter _ ExtTreeMap.nodup_keys), List.countP_eq_length_filter]

/-- The score that a project has by definition. -/
def definedScore (unknown : ExtTreeSet Digest) (thresholds : Thresholds) (s : UniqueSet) :
    ScoreRecord where
  project := s.project
  similarity := ScoreRecord.share (sharedDigests unknown s.features).card s.features.size
  matched := (sharedDigests unknown s.features).card
  total := s.features.size
  tier := thresholds.tier
    (ScoreRecord.share (sharedDigests unknown s.features).card s.features.size)

theorem scoreProject_eq (unknown : ExtTreeSet Digest) (thresholds : Thresholds) (s : UniqueSet) :
    scoreProject unknown thresholds s = definedScore unknown thresholds s := by
  unfold scoreProject definedScore
  rw [countMatches_eq_card]

namespace ScoreRecord

/-! ## Shares -/

/-- The share as a fraction; zero if there is nothing to match. -/
def quotient (r : ScoreRecord) : ℚ :=
  r.matched / r.total

theorem quotient_eq {r : ScoreRecord} (h : r.matched ≤ r.total) :
    r.quotient = (r.matched : ℚ) / (max r.total 1 : Nat) := by
  unfold quotient
  rcases Nat.eq_zero_or_pos r.total with hzero | hpos
  · have hmatched : r.matched = 0 := by omega
    rw [hzero, hmatched]
    simp
  · rw [Nat.max_eq_left hpos]

theorem quotient_le_iff {a b : ScoreRecord} (ha : a.matched ≤ a.total) (hb : b.matched ≤ b.total) :
    b.quotient ≤ a.quotient ↔ b.matched * max a.total 1 ≤ a.matched * max b.total 1 := by
  have hpos : ∀ n : Nat, (0 : ℚ) < (max n 1 : Nat) := fun n => by
    exact_mod_cast Nat.lt_of_lt_of_le Nat.one_pos (Nat.le_max_right n 1)
  rw [quotient_eq ha, quotient_eq hb, div_le_div_iff₀ (hpos _) (hpos _)]
  exact_mod_cast Iff.rfl

/-- For counts that are doubles themselves, the share is their quotient as doubles. -/
theorem share_eq_div {matched total : Nat} (hle : matched ≤ total) (hpos : 0 < total)
    (h : total < 2 ^ 53) : share matched total = Float.ofNat matched / Float.ofNat total := by
  rw [share_eq_quotient hle, Nat.max_eq_left hpos, Decimal.quotient_eq_div hpos hle h]

/-! ## Scores -/

/-- What makes a record a score: the similarity is the share of the matches, and the tier is that
    of the similarity. -/
structure IsScore (thresholds : Thresholds) (r : ScoreRecord) : Prop where
  matched_le : r.matched ≤ r.total
  similarity : r.similarity = share r.matched r.total
  tier : r.tier = thresholds.tier r.similarity

namespace IsScore

variable {thresholds : Thresholds} {a b : ScoreRecord}

theorem similarity_eq_quotient (h : a.IsScore thresholds) :
    a.similarity = Decimal.quotient a.matched (max a.total 1) := by
  rw [h.similarity, share_eq_quotient h.matched_le]

variable (ha : a.IsScore thresholds) (hb : b.IsScore thresholds)

include ha hb

/-- A larger share does not stand before a smaller one. -/
theorem orderKey_le_of_quotient_le (h : b.quotient ≤ a.quotient) :
    Decimal.orderKey b.similarity ≤ Decimal.orderKey a.similarity := by
  have hla := ha.matched_le
  have hlb := hb.matched_le
  rw [ha.similarity_eq_quotient, hb.similarity_eq_quotient]
  exact Decimal.orderKey_quotient_mono (by omega) (by omega) (by omega) (by omega)
    ((quotient_le_iff hla hlb).mp h)

/-- A bound that a similarity reaches is reached by the similarities that stand behind it. -/
theorem le_similarity (h : Decimal.orderKey b.similarity ≤ Decimal.orderKey a.similarity)
    {x : Float} (hx : x ≤ b.similarity) : x ≤ a.similarity := by
  rcases le_total b.quotient a.quotient with hle | hge
  · have hla := ha.matched_le
    have hlb := hb.matched_le
    rw [hb.similarity_eq_quotient] at hx
    rw [ha.similarity_eq_quotient]
    exact Decimal.le_quotient_of_le (by omega) (by omega) (by omega) (by omega)
      ((quotient_le_iff hla hlb).mp hle) hx
  · -- the shares stand the other way round, so they have been made one
    have heq := Int.le_antisymm (hb.orderKey_le_of_quotient_le ha hge) h
    exact Decimal.orderKey_inj.mp heq ▸ hx

/-- Different shares are different similarities, unless their totals are large. -/
theorem quotient_eq_of_similarity_eq (h : a.similarity = b.similarity)
    (hsmall : max a.total 1 * max b.total 1 < 2 ^ 52) : a.quotient = b.quotient := by
  have hla := ha.matched_le
  have hlb := hb.matched_le
  rw [ha.similarity_eq_quotient, hb.similarity_eq_quotient] at h
  have hcross := Decimal.mul_eq_mul_of_quotient_eq (by omega) (by omega) (by omega) (by omega)
    hsmall h
  apply eq_of_le_of_ge
  · exact (quotient_le_iff hlb hla).mpr (Nat.le_of_eq hcross)
  · exact (quotient_le_iff hla hlb).mpr (Nat.le_of_eq hcross.symm)

/-- A record stands before another one if its share is larger or, for equal shares, its name does
    not come later; or rounding has made their shares one. -/
theorem quotient_of_ranksBefore (h : ranksBefore a b) :
    b.quotient < a.quotient ∨ b.quotient = a.quotient ∧ a.project ≤ b.project ∨
      a.similarity = b.similarity ∧ 2 ^ 52 ≤ max a.total 1 * max b.total 1 := by
  rcases (ranksBefore_iff a b).mp h with hlt | ⟨heq, hname⟩
  · refine Or.inl (lt_of_not_ge fun hge => ?_)
    have := hb.orderKey_le_of_quotient_le ha hge
    omega
  · cases Nat.lt_or_ge (max a.total 1 * max b.total 1) (2 ^ 52) with
    | inl hsmall =>
      exact Or.inr (Or.inl ⟨(ha.quotient_eq_of_similarity_eq hb heq hsmall).symm, hname⟩)
    | inr hlarge => exact Or.inr (Or.inr ⟨heq, hlarge⟩)

/-- Equal shares are equal similarities. -/
theorem similarity_eq_of_quotient_eq (h : a.quotient = b.quotient) :
    a.similarity = b.similarity :=
  Decimal.orderKey_inj.mp (Int.le_antisymm (hb.orderKey_le_of_quotient_le ha h.le)
    (ha.orderKey_le_of_quotient_le hb h.ge))

end IsScore

theorem IsScore.similarity_refl {thresholds : Thresholds} {r : ScoreRecord}
    (h : r.IsScore thresholds) : r.similarity ≤ r.similarity := by
  have hle := h.matched_le
  rw [h.similarity_eq_quotient]
  exact Decimal.quotient_refl (by omega) (by omega)

end ScoreRecord

/-! ## Tiers -/

/-- Tiers as numbers, the higher tier the larger one. -/
def Tier.level : Tier → Nat
  | .high => 2
  | .medium => 1
  | .low => 0

/-- A similarity that reaches every bound another one reaches has no lower tier, also if the
    thresholds are out of order or no numbers. -/
theorem Thresholds.level_tier_le (t : Thresholds) {s s' : Float} (h : ∀ x, x ≤ s → x ≤ s') :
    (t.tier s).level ≤ (t.tier s').level := by
  unfold Thresholds.tier
  by_cases hhigh : t.high ≤ s
  · rw [if_pos hhigh, if_pos (h _ hhigh)]
  · rw [if_neg hhigh]
    by_cases hmedium : t.medium ≤ s
    · rw [if_pos hmedium, if_pos (h _ hmedium)]
      split
      · exact Nat.le_succ 1
      · exact Nat.le_refl 1
    · rw [if_neg hmedium]
      exact Nat.zero_le _

/-! ## Rankings -/

/-- A ranking of a table by definition. -/
structure IsRanking (unknown : ExtTreeSet Digest) (t : UniqueTable) (thresholds : Thresholds)
    (records : List ScoreRecord) : Prop where
  /-- Every entry of the table has one record, its score. -/
  scores : records.Perm (t.projects.values.map (definedScore unknown thresholds))
  /-- No more digests match than there are. -/
  matched_le : ∀ r ∈ records, r.matched ≤ r.total
  /-- The similarity is the quotient of the counts, and zero if there is nothing to match. -/
  similarity : ∀ r ∈ records, (r.total = 0 → r.similarity = 0.0) ∧
    (0 < r.total → r.similarity = Decimal.quotient r.matched r.total) ∧
    (0 < r.total → r.total < 2 ^ 53 →
      r.similarity = Float.ofNat r.matched / Float.ofNat r.total)
  /-- Similarities fall; names rise among equal similarities. -/
  sorted : records.Pairwise fun a b =>
    b.similarity ≤ a.similarity ∧ (a.similarity = b.similarity → a.project ≤ b.project)
  /-- Shares fall; names rise among equal shares. Where rounding has made two shares one similarity,
      the totals have a product of `2 ^ 52` or more. -/
  sorted_exact : records.Pairwise fun a b =>
    b.quotient < a.quotient ∨ b.quotient = a.quotient ∧ a.project ≤ b.project ∨
      a.similarity = b.similarity ∧ 2 ^ 52 ≤ max a.total 1 * max b.total 1
  /-- Records of one similarity and one name stand as in the table. -/
  stable : ∀ (x : Float) (name : String),
    records.filter (fun r => r.similarity = x ∧ r.project = name) =
      (t.projects.values.map (definedScore unknown thresholds)).filter
        fun r => r.similarity = x ∧ r.project = name
  /-- Records of one share and one name stand as in the table. -/
  stable_exact : ∀ (q : ℚ) (name : String),
    records.filter (fun r => r.quotient = q ∧ r.project = name) =
      (t.projects.values.map (definedScore unknown thresholds)).filter
        fun r => r.quotient = q ∧ r.project = name
  /-- Tiers do not rise. -/
  tiers : records.Pairwise fun a b => b.tier.level ≤ a.tier.level

variable {unknown : ExtTreeSet Digest} {t : UniqueTable} {thresholds : Thresholds}
  {records : List ScoreRecord}

theorem scoreTable_eq :
    scoreTable unknown t thresholds = t.projects.values.map (definedScore unknown thresholds) := by
  unfold scoreTable
  exact List.map_congr_left fun s _ => scoreProject_eq unknown thresholds s

theorem isScore_of_mem_rankProjects (h : rankProjects unknown t thresholds = .ok records)
    {r : ScoreRecord} (hr : r ∈ records) : r.IsScore thresholds := by
  obtain ⟨_, s, _, rfl⟩ := (mem_scoreTable_iff r).mp ((perm_of_rankProjects h).mem_iff.mp hr)
  exact ⟨matched_le_total unknown thresholds s, rfl, rfl⟩

/-- Records that tie keep the order of the table. -/
theorem filter_rankProjects (h : rankProjects unknown t thresholds = .ok records)
    {p : ScoreRecord → Bool}
    (htie : ∀ a ∈ records, ∀ b ∈ records, p a → p b →
      a.similarity = b.similarity ∧ a.project = b.project) :
    records.filter p = (t.projects.values.map (definedScore unknown thresholds)).filter p := by
  have hperm := perm_of_rankProjects h
  rw [← scoreTable_eq]
  obtain ⟨_, rfl⟩ := rankProjects_eq_ok_iff.mp h
  refine filter_mergeSort _ (fun a b c => ScoreRecord.ranksBefore_trans)
    ScoreRecord.ranksBefore_total ?_
  intro a ha b hb hpa hpb
  obtain ⟨hsimilarity, hname⟩ :=
    htie a (hperm.mem_iff.mpr ha) b (hperm.mem_iff.mpr hb) hpa hpb
  exact (ScoreRecord.ranksBefore_iff a b).mpr (Or.inr ⟨hsimilarity, by rw [hname]⟩)

theorem isRanking_of_rankProjects (h : rankProjects unknown t thresholds = .ok records) :
    IsRanking unknown t thresholds records := by
  have hscores : ∀ r ∈ records, r.IsScore thresholds := fun r => isScore_of_mem_rankProjects h
  have hpairs := pairwise_rankProjects h
  refine ⟨scoreTable_eq ▸ perm_of_rankProjects h, fun r hr => (hscores r hr).matched_le,
    ?_, ?_, ?_, ?_, ?_, ?_⟩
  · intro r hr
    have hmatched := (hscores r hr).matched_le
    rw [(hscores r hr).similarity]
    refine ⟨?_, ?_, ScoreRecord.share_eq_div hmatched⟩
    · intro hzero
      rw [hzero]
      rfl
    · intro hpos
      rw [ScoreRecord.share_eq_quotient hmatched, Nat.max_eq_left hpos]
  · refine hpairs.imp_of_mem fun {a b} ha hb hab => ⟨?_, fun heq => ?_⟩
    · exact (hscores a ha).le_similarity (hscores b hb)
        (ScoreRecord.orderKey_le_of_ranksBefore hab) (hscores b hb).similarity_refl
    · rcases (ScoreRecord.ranksBefore_iff a b).mp hab with hlt | ⟨_, hname⟩
      · rw [heq] at hlt
        omega
      · exact hname
  · exact hpairs.imp_of_mem fun {a b} ha hb hab =>
      (hscores a ha).quotient_of_ranksBefore (hscores b hb) hab
  · intro x name
    refine filter_rankProjects h fun a _ b _ hpa hpb => ?_
    have hpa := of_decide_eq_true hpa
    have hpb := of_decide_eq_true hpb
    exact ⟨hpa.1.trans hpb.1.symm, hpa.2.trans hpb.2.symm⟩
  · intro q name
    refine filter_rankProjects h fun a ha b hb hpa hpb => ?_
    have hpa := of_decide_eq_true hpa
    have hpb := of_decide_eq_true hpb
    exact ⟨(hscores a ha).similarity_eq_of_quotient_eq (hscores b hb) (hpa.1.trans hpb.1.symm),
      hpa.2.trans hpb.2.symm⟩
  · refine hpairs.imp_of_mem fun {a b} ha hb hab => ?_
    rw [(hscores a ha).tier, (hscores b hb).tier]
    exact thresholds.level_tier_le fun x hx =>
      (hscores a ha).le_similarity (hscores b hb) (ScoreRecord.orderKey_le_of_ranksBefore hab) hx

/-- A table without projects is a fault; every other one has a ranking, for any unknown digests
    and any thresholds. -/
theorem rankProjects_isRanking (unknown : ExtTreeSet Digest) (t : UniqueTable)
    (thresholds : Thresholds) :
    (t.projects.isEmpty = true ∧
        rankProjects unknown t thresholds = .error (.tableEmpty t.originText)) ∨
      (t.projects.isEmpty = false ∧
        ∃ records, rankProjects unknown t thresholds = .ok records ∧
          IsRanking unknown t thresholds records) := by
  cases hempty : t.projects.isEmpty with
  | true =>
    refine Or.inl ⟨rfl, ?_⟩
    unfold rankProjects
    rw [if_pos hempty]
  | false =>
    have hranked : rankProjects unknown t thresholds =
        .ok ((scoreTable unknown t thresholds).mergeSort ScoreRecord.ranksBefore) :=
      rankProjects_eq_ok_iff.mpr ⟨hempty, rfl⟩
    exact Or.inr ⟨rfl, _, hranked, isRanking_of_rankProjects hranked⟩

/-- Projects with fewer than `2 ^ 26` unique digests are ranked by their shares. -/
theorem IsRanking.sorted_of_small (h : IsRanking unknown t thresholds records)
    (hsmall : ∀ r ∈ records, r.total < 2 ^ 26) :
    records.Pairwise fun a b =>
      b.quotient < a.quotient ∨ b.quotient = a.quotient ∧ a.project ≤ b.project := by
  refine h.sorted_exact.imp_of_mem fun {a b} ha hb hab => ?_
  rcases hab with hlt | heq | ⟨_, hlarge⟩
  · exact Or.inl hlt
  · exact Or.inr heq
  · have htotal := hsmall a ha
    have htotal' := hsmall b hb
    have hproduct : max a.total 1 * max b.total 1 < 2 ^ 26 * 2 ^ 26 :=
      Nat.mul_lt_mul'' (by omega) (by omega)
    omega

end FirmwareMatch
