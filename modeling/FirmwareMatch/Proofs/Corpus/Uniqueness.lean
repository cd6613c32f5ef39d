import FirmwareMatch.Corpus.Unique
import FirmwareMatch.Proofs.SortedMap

/-
  The table of unique features as a set formula.

  The table is computed in two passes: one counts for each digest how many projects hold it, the
  other keeps the digests that are counted once. Here the counter is related to the projects that
  hold a digest, and the kept digests to those that no other project holds.

  Proved:
  * `getD_holders`: the counter of a digest is the number of projects that hold it.
  * `holders_eq_one_iff`: for a digest of a project the counter is one exactly if no other project
    holds the digest.
  * `unique_setFormula`: the table has the projects of the corpus, each with the digests that it
    holds alone; the sets are disjoint and cover the digests that have one holder.
-/

namespace FirmwareMatch

open Std SortedMap

namespace UniqueTable

/-- Every set of the table stands under the name of its project. -/
def Keyed (t : UniqueTable) : Prop :=
  ∀ (p : String) (s : UniqueSet), t.projects[p]? = some s → s.project = p

theorem setOf_of_getElem? {t : UniqueTable} {name : String} {s : UniqueSet}
    (h : t.projects[name]? = some s) : t.setOf name = s := by
  rw [setOf, ExtTreeMap.getD_eq_getD_getElem?, h, Option.getD_some]

/-- The sets of a table are those of its projects, in order. -/
theorem values_eq_map_setOf (t : UniqueTable) :
    t.projects.values = t.projects.keys.map t.setOf := by
  rw [values_eq_map_snd, ← ExtTreeMap.map_fst_toList_eq_keys, List.map_map]
  apply List.map_congr_left
  rintro ⟨k, s⟩ hs
  exact (setOf_of_getElem? (ExtTreeMap.mem_toList_iff_getElem?_eq_some.mp hs)).symm

end UniqueTable

namespace Corpus

/-- The project has the digest. -/
def Holds (corpus : Corpus) (project : String) (d : Digest) : Prop :=
  d ∈ corpus.digestsOf project

theorem holds_iff (corpus : Corpus) (project : String) (d : Digest) :
    corpus.Holds project d ↔
      ∃ digests : DigestMap, corpus[project]? = some digests ∧ d ∈ digests := by
  unfold Holds digestsOf
  rw [ExtTreeMap.getD_eq_getD_getElem?]
  cases corpus[project]? <;> simp

theorem holds_of_getElem? {corpus : Corpus} {project : String} {digests : DigestMap}
    (h : corpus[project]? = some digests) (d : Digest) : corpus.Holds project d ↔ d ∈ digests := by
  simp [holds_iff, h]

theorem mem_of_holds {corpus : Corpus} {project : String} {d : Digest}
    (h : corpus.Holds project d) : project ∈ corpus := by
  obtain ⟨digests, hp, _⟩ := (holds_iff corpus project d).mp h
  exact ExtTreeMap.mem_iff_isSome_getElem?.mpr (by simp [hp])

/-! ## Counting the holders -/

/-- One project adds one to the counters of its digests and nothing to the others. -/
theorem getD_countHolder (counts : ExtTreeMap Digest Nat) (digests : DigestMap) (d : Digest) :
    (countHolder counts digests).getD d 0 =
      counts.getD d 0 + if digests.contains d then 1 else 0 := by
  unfold countHolder
  rw [getD_foldl_count, ExtTreeMap.nodup_keys.count]
  simp

theorem getD_foldl_countHolder (ms : List DigestMap) (counts : ExtTreeMap Digest Nat)
    (d : Digest) :
    (ms.foldl countHolder counts).getD d 0 =
      counts.getD d 0 + ms.countP fun digests => digests.contains d := by
  induction ms generalizing counts with
  | nil => simp
  | cons m ms ih =>
    rw [List.foldl_cons, ih, getD_countHolder, List.countP_cons]
    omega

/-- The counter of a digest is the number of projects that hold it. -/
theorem getD_holders (corpus : Corpus) (d : Digest) :
    corpus.holders.getD d 0 =
      corpus.keys.countP fun project => (corpus.digestsOf project).contains d := by
  unfold holders
  rw [getD_foldl_countHolder, values_eq_map_keys corpus ∅, List.countP_map]
  simp [Function.comp_def, digestsOf]

/-- Of distinct members, `a` is the only one that satisfies `p` exactly if one member does. -/
theorem countP_eq_one_iff {α : Type} [DecidableEq α] {p : α → Bool} {xs : List α} {a : α}
    (hxs : xs.Nodup) (ha : a ∈ xs) (hpa : p a) : xs.countP p = 1 ↔ ∀ b ∈ xs, p b → b = a := by
  have hmem : a ∈ xs.filter p := List.mem_filter.mpr ⟨ha, hpa⟩
  rw [List.countP_eq_length_filter]
  constructor
  · intro h b hb hpb
    obtain ⟨e, he⟩ := List.length_eq_one_iff.mp h
    have hb' : b ∈ xs.filter p := List.mem_filter.mpr ⟨hb, hpb⟩
    rw [he, List.mem_singleton] at hb' hmem
    rw [hb', hmem]
  · intro h
    have hall : (xs.filter p).count a = (xs.filter p).length := by
      rw [List.count_eq_length]
      intro b hb
      obtain ⟨hb, hpb⟩ := List.mem_filter.mp hb
      exact (h b hb hpb).symm
    rw [← hall, List.Nodup.count (List.Pairwise.filter p hxs), if_pos hmem]

/-- For a digest of `p` the counter is one exactly if no other project holds the digest. -/
theorem holders_eq_one_iff {corpus : Corpus} {p : String} {d : Digest} (h : corpus.Holds p d) :
    corpus.holders[d]? = some 1 ↔ ∀ q, q ≠ p → ¬ corpus.Holds q d := by
  have hcount : corpus.holders[d]? = some 1 ↔ corpus.holders.getD d 0 = 1 := by
    rw [ExtTreeMap.getD_eq_getD_getElem?]
    cases corpus.holders[d]? <;> simp
  have hp : (corpus.digestsOf p).contains d := ExtTreeMap.contains_iff_mem.mpr h
  rw [hcount, getD_holders, countP_eq_one_iff (p := fun q => (corpus.digestsOf q).contains d)
    ExtTreeMap.nodup_keys (ExtTreeMap.mem_keys.mpr (mem_of_holds h)) hp]
  simp only [ExtTreeMap.contains_iff_mem, ExtTreeMap.mem_keys]
  constructor
  · intro hall q hq hqd
    exact hq (hall q (mem_of_holds hqd) hqd)
  · intro hall q _ hqd
    exact Decidable.byContradiction fun hq => hall q hq hqd

/-! ## The table -/

theorem getElem?_unique (corpus : Corpus) (p : String) :
    corpus.unique.projects[p]? =
      corpus[p]?.map fun digests => ⟨p, digests.size, aloneIn corpus.holders digests⟩ := by
  simp [unique]

theorem keyed_unique (corpus : Corpus) : corpus.unique.Keyed := by
  intro q s hs
  rw [Corpus.getElem?_unique, Option.map_eq_some_iff] at hs
  obtain ⟨digests, _, rfl⟩ := hs
  rfl

/-- The digests that the table keeps for a project are those that it holds alone, with their
opcodes. -/
theorem getElem?_aloneIn {corpus : Corpus} {p : String} {digests : DigestMap}
    (h : corpus[p]? = some digests) (d : Digest) (opcode : String) :
    (aloneIn corpus.holders digests)[d]? = some opcode ↔
      digests[d]? = some opcode ∧ ∀ q, q ≠ p → ¬ corpus.Holds q d := by
  unfold aloneIn
  rw [ExtTreeMap.getElem?_filter', Option.filter_eq_some_iff, beq_iff_eq]
  refine and_congr_right fun hd => holders_eq_one_iff ?_
  rw [holds_of_getElem? h]
  exact ExtTreeMap.mem_iff_isSome_getElem?.mpr (by simp [hd])

/-- A digest is in the set of a project exactly if the project is its only holder. -/
theorem mem_features_unique_iff {corpus : Corpus} {p : String} {s : UniqueSet}
    (h : corpus.unique.projects[p]? = some s) (d : Digest) :
    d ∈ s.features ↔ corpus.Holds p d ∧ ∀ q, q ≠ p → ¬ corpus.Holds q d := by
  rw [getElem?_unique, Option.map_eq_some_iff] at h
  obtain ⟨digests, hp, rfl⟩ := h
  rw [holds_of_getElem? hp, ExtTreeMap.mem_iff_isSome_getElem?,
    ExtTreeMap.mem_iff_isSome_getElem?]
  simp only [Option.isSome_iff_exists, getElem?_aloneIn hp]
  constructor
  · rintro ⟨opcode, hd, hq⟩
    exact ⟨⟨opcode, hd⟩, hq⟩
  · rintro ⟨⟨opcode, hd⟩, hq⟩
    exact ⟨opcode, hd, hq⟩

/-- No digest is in the sets of two projects. -/
theorem disjoint_features_unique {corpus : Corpus} {p q : String} {s t : UniqueSet} (hpq : p ≠ q)
    (hs : corpus.unique.projects[p]? = some s) (ht : corpus.unique.projects[q]? = some t)
    (d : Digest) (hd : d ∈ s.features) : d ∉ t.features := by
  intro hd'
  have hp := (mem_features_unique_iff hs d).mp hd
  have hq := (mem_features_unique_iff ht d).mp hd'
  exact hp.2 q hpq.symm hq.1

/-- A digest is somewhere in the table exactly if it has one holder. -/
theorem exists_mem_features_unique_iff (corpus : Corpus) (d : Digest) :
    (∃ (p : String) (s : UniqueSet), corpus.unique.projects[p]? = some s ∧ d ∈ s.features) ↔
      ∃ p, corpus.Holds p d ∧ ∀ q, corpus.Holds q d → q = p := by
  constructor
  · rintro ⟨p, s, hs, hd⟩
    obtain ⟨hp, hothers⟩ := (mem_features_unique_iff hs d).mp hd
    exact ⟨p, hp, fun q hq => Decidable.byContradiction fun hne => hothers q hne hq⟩
  · rintro ⟨p, hp, honly⟩
    obtain ⟨digests, hdigests, _⟩ := (holds_iff corpus p d).mp hp
    have hs : corpus.unique.projects[p]? =
        some ⟨p, digests.size, aloneIn corpus.holders digests⟩ := by
      rw [getElem?_unique, hdigests]
      rfl
    exact ⟨p, _, hs, (mem_features_unique_iff hs d).mpr
      ⟨hp, fun q hne hq => hne (honly q hq)⟩⟩

/-- The table of unique features is the set formula: it has the projects of the corpus, each with
    the size of its digest set and with the digests, under their opcodes, that no other project
    holds. So the sets are disjoint, and together they have the digests with one holder. -/
theorem unique_setFormula (corpus : Corpus) :
    (∀ p, p ∈ corpus.unique.projects ↔ p ∈ corpus) ∧
    (∀ (p : String) (digests : DigestMap), corpus[p]? = some digests →
      ∃ s : UniqueSet, corpus.unique.projects[p]? = some s ∧ s.project = p ∧
        s.rawCount = digests.size ∧
        ∀ d opcode, s.features[d]? = some opcode ↔
          digests[d]? = some opcode ∧
            ∀ (q : String) (others : DigestMap), q ≠ p → corpus[q]? = some others → d ∉ others) ∧
    (∀ (p q : String) (s t : UniqueSet), p ≠ q → corpus.unique.projects[p]? = some s →
      corpus.unique.projects[q]? = some t → ∀ d, d ∈ s.features → d ∉ t.features) ∧
    (∀ d, (∃ (p : String) (s : UniqueSet), corpus.unique.projects[p]? = some s ∧ d ∈ s.features) ↔
      ∃ p : String, (∃ digests : DigestMap, corpus[p]? = some digests ∧ d ∈ digests) ∧
        ∀ (q : String) (others : DigestMap), corpus[q]? = some others → d ∈ others → q = p) := by
  refine ⟨fun p => mem_projects_unique, ?_, fun p q s t => disjoint_features_unique, ?_⟩
  · intro p digests hp
    refine ⟨_, by rw [getElem?_unique, hp]; rfl, rfl, rfl, fun d opcode => ?_⟩
    rw [getElem?_aloneIn hp]
    refine and_congr_right fun _ => forall_congr' fun q => ?_
    rw [holds_iff]
    constructor
    · intro h others hq ho hd
      exact h hq ⟨others, ho, hd⟩
    · rintro h hq ⟨others, ho, hd⟩
      exact h others hq ho hd
  · intro d
    rw [exists_mem_features_unique_iff]
    refine exists_congr fun p => and_congr (holds_iff corpus p d) (forall_congr' fun q => ?_)
    rw [holds_iff]
    constructor
    · intro h others ho hd
      exact h ⟨others, ho, hd⟩
    · rintro h ⟨others, ho, hd⟩
      exact h others ho hd

/-- Of two projects that share a digest, the first keeps the other one. -/
theorem unique_setFormula_shared :
    let alpha : DigestMap := (∅ : DigestMap).insert "0a" "mov" |>.insert "0b" "nop"
    let beta : DigestMap := (∅ : DigestMap).insert "0b" "nop"
    let corpus : Corpus := (∅ : Corpus).insert "alpha" alpha |>.insert "beta" beta
    ∃ s, corpus.unique.projects["alpha"]? = some s ∧ s.rawCount = 2 ∧
      s.features["0a"]? = some "mov" ∧ "0b" ∉ s.features := by
  intro alpha beta corpus
  have hlookup : ∀ q : String, corpus[q]? =
      if "beta" = q then some beta else if "alpha" = q then some alpha else none := by
    intro q
    simp only [corpus, ExtTreeMap.getElem?_insert, LawfulEqCmp.compare_eq_iff_eq,
      ExtTreeMap.getElem?_empty]
  have halpha : corpus["alpha"]? = some alpha := by rw [hlookup]; rfl
  obtain ⟨s, hs, _, hraw, hfeatures⟩ := (unique_setFormula corpus).2.1 "alpha" alpha halpha
  refine ⟨s, hs, by rw [hraw]; decide +kernel, ?_, ?_⟩
  · refine (hfeatures "0a" "mov").mpr ⟨by decide +kernel, fun q others hq ho => ?_⟩
    rw [hlookup, if_neg (Ne.symm hq)] at ho
    split at ho
    · rw [← Option.some.inj ho]
      decide +kernel
    · simp at ho
  · intro hmem
    obtain ⟨opcode, hopcode⟩ :=
      Option.isSome_iff_exists.mp (ExtTreeMap.mem_iff_isSome_getElem?.mp hmem)
    refine ((hfeatures "0b" opcode).mp hopcode).2 "beta" beta (by decide) ?_ ?_
    · rw [hlookup]
      rfl
    · decide +kernel

end Corpus

end FirmwareMatch
