import FirmwareMatch.Proofs.Corpus.Summary
import FirmwareMatch.Proofs.Feature.Displacement
import FirmwareMatch.Proofs.Feature.Encoding

/-
  The places of the features of a listing are counted without a gap.

  A feature carries the index of its block in its section and the position of its instruction in the
  block. Blocks of a section are numbered through the whole listing, also where other sections stand
  between them, and no block is empty. So from one instruction of a section to the next the place
  goes on by one position, or to the start of the next block. Places therefore ascend, and features
  of one section are distinct, whatever their mnemonics and branches are.

  Not claimed: that features of different sections are distinct. Both sections start at `(0, 0)`.

  Proved:
  * `CountedUp.nodup`: places that are counted are distinct.
  * `countedUp_indices`: the places of the code of a section are counted.
  * `map_indices_inSection`: the features of a section carry these places.
  * `Fingerprint.features_counted`: the fingerprint of every text.
-/

namespace FirmwareMatch

open Std

/-! ## Places -/

/-- Places that are counted from the first one on: behind each stands the next one of its block or
    the start of the next block. A place is the index of a block and a position in it. -/
structure CountedUp {α : Type} [Zero α] [One α] [Add α] (places : List (α × α)) : Prop where
  first : ∀ p ∈ places.head?, p = (0, 0)
  next : places.IsChain fun p q => q = (p.1, p.2 + 1) ∨ q = (p.1 + 1, 0)

/-- Places that are counted stay so under a map that keeps zero and the next number. -/
theorem CountedUp.map {α β : Type} [Zero α] [One α] [Add α] [Zero β] [One β] [Add β]
    {f : α → β} (hzero : f 0 = 0) (hnext : ∀ n, f (n + 1) = f n + 1) {places : List (α × α)}
    (h : CountedUp places) : CountedUp (places.map fun p => (f p.1, f p.2)) where
  first p hp := by
    rw [List.head?_map] at hp
    obtain ⟨q, hq, rfl⟩ := Option.map_eq_some_iff.mp hp
    rw [h.first q hq, hzero]
  next := by
    rw [List.isChain_map]
    refine h.next.imp ?_
    rintro ⟨b, o⟩ ⟨b', o'⟩ hnext'
    simp only [Prod.mk.injEq] at hnext' ⊢
    rcases hnext' with ⟨rfl, rfl⟩ | ⟨rfl, rfl⟩
    · exact Or.inl ⟨rfl, hnext o⟩
    · exact Or.inr ⟨hnext b, hzero⟩

/-- Places that are counted ascend, so they are distinct. -/
theorem CountedUp.nodup {places : List (Int × Int)} (h : CountedUp places) : places.Nodup := by
  have hascend : places.IsChain fun p q => toLex p < toLex q := by
    refine h.next.imp ?_
    rintro ⟨b, o⟩ ⟨b', o'⟩ hnext
    rw [Prod.Lex.toLex_lt_toLex]
    simp only [Prod.mk.injEq] at hnext ⊢
    omega
  have : Trans (fun p q : Int × Int => toLex p < toLex q) (fun p q => toLex p < toLex q)
    (fun p q => toLex p < toLex q) := ⟨fun h h' => h.trans h'⟩
  exact hascend.pairwise.imp fun h heq => (heq ▸ h).false

/-- A place that is counted is not beyond the number of places before it. -/
theorem CountedUp.add_le {places : List (Nat × Nat)} (h : CountedUp places) {k : Nat}
    {p : Nat × Nat} (hp : places[k]? = some p) : p.1 + p.2 ≤ k := by
  induction k generalizing p with
  | zero =>
    rw [← List.head?_eq_getElem?] at hp
    obtain rfl := h.first p hp
    exact Nat.le_refl 0
  | succ k ih =>
    obtain ⟨hlt, rfl⟩ := List.getElem?_eq_some_iff.mp hp
    have hbefore := ih (List.getElem?_eq_getElem (Nat.lt_of_succ_lt hlt))
    rcases List.isChain_iff_getElem.mp h.next k hlt with hnext | hnext
    · rw [hnext]
      dsimp only
      omega
    · rw [hnext]
      dsimp only
      omega

/-! ## The code of a section -/

/-- The index of the block of an instruction and its position there. -/
def Occurrence.indices (o : Occurrence) : Nat × Nat :=
  (o.block.index, o.instruction.position)

theorem Indexed.of_concat {bs : List Block} {b : Block} (h : Indexed (bs ++ [b])) :
    Indexed bs ∧ b.index = blocksOf bs b.sectionName := by
  constructor
  · intro k c hc
    have hk := (List.getElem?_eq_some_iff.mp hc).1
    have hindex := h k c (by rw [List.getElem?_append_left hk, hc])
    rwa [List.take_append_of_le_length (Nat.le_of_lt hk)] at hindex
  · have hindex := h bs.length b (by simp)
    rwa [List.take_left] at hindex

/-- The index that the next block takes behind places. -/
def nextIndex (places : List (Nat × Nat)) : Nat :=
  (places.getLast?.map fun p => p.1 + 1).getD 0

/-- Behind counted places the next block is counted from its start. -/
theorem CountedUp.append {places : List (Nat × Nat)} (h : CountedUp places) (n : Nat) :
    CountedUp (places ++ (List.range n).map fun o => (nextIndex places, o)) where
  first := by
    cases places with
    | nil =>
      intro p hp
      cases n with
      | zero => simp at hp
      | succ n =>
        rw [List.range_succ_eq_map] at hp
        simpa [nextIndex, eq_comm] using hp
    | cons q qs => exact h.first
  next := by
    rw [List.isChain_append]
    refine ⟨h.next, ?_, ?_⟩
    · rw [List.isChain_iff_getElem]
      intro k hk
      left
      simp
    · intro p hp q hq
      right
      cases n with
      | zero => simp at hq
      | succ n =>
        rw [List.range_succ_eq_map] at hq
        have hlast : places.getLast? = some p := hp
        simpa [nextIndex, hlast, eq_comm] using hq

theorem nextIndex_append (places : List (Nat × Nat)) (k : Nat) {n : Nat} (hn : n ≠ 0) :
    nextIndex (places ++ (List.range n).map fun o => (k, o)) = k + 1 := by
  obtain ⟨m, rfl⟩ := Nat.exists_eq_succ_of_ne_zero hn
  rw [List.range_succ, List.map_append, ← List.append_assoc]
  simp [nextIndex]

theorem map_indices_sectionCode_concat (bs : List Block) {b : Block} (hb : b.Numbered)
    (name : String) :
    (sectionCode (bs ++ [b]) name).map Occurrence.indices =
      (sectionCode bs name).map Occurrence.indices ++
        if b.sectionName == name then
          (List.range b.instructions.length).map fun o => (b.index, o)
        else [] := by
  rw [sectionCode_concat, List.map_append, ← hb.map_position]
  congr 1
  split
  · rw [List.map_map, List.map_map]
    rfl
  · rfl

/-- The places of the code of a section are counted, and the next block goes on behind them. -/
theorem countedUp_indices {blocks : List Block}
    (h : ∀ b ∈ blocks, b.Numbered ∧ b.instructions ≠ []) (hindexed : Indexed blocks)
    (name : String) :
    CountedUp ((sectionCode blocks name).map Occurrence.indices) ∧
      nextIndex ((sectionCode blocks name).map Occurrence.indices) = blocksOf blocks name := by
  induction blocks using List.reverseRecOn with
  | nil => exact ⟨⟨by simp [sectionCode, occurrences], by simp [sectionCode, occurrences]⟩, rfl⟩
  | append_singleton bs b ih =>
    obtain ⟨hbs, hindex⟩ := hindexed.of_concat
    obtain ⟨hnumbered, hne⟩ := h b (List.mem_append_right bs List.mem_cons_self)
    obtain ⟨hcounted, hnext⟩ := ih (fun c hc => h c (List.mem_append_left [b] hc)) hbs
    rw [map_indices_sectionCode_concat bs hnumbered, blocksOf, List.countP_append,
      List.countP_singleton]
    by_cases hname : b.sectionName = name
    · subst hname
      rw [if_pos (beq_self_eq_true _), if_pos (beq_self_eq_true _),
        nextIndex_append _ _ (List.length_pos_iff.mpr hne).ne', hindex]
      have happended := hcounted.append b.instructions.length
      rw [hnext] at happended
      exact ⟨happended, rfl⟩
    · rw [if_neg (mt eq_of_beq hname), if_neg (mt eq_of_beq hname), List.append_nil]
      exact ⟨hcounted, hnext⟩

/-! ## Fingerprints -/

/-- The index of the block of a feature and the position there. -/
def Feature.indices (f : Feature) : Int64 × Int64 :=
  (f.vector.block, f.vector.opcode)

namespace Fingerprint

/-- The features of the instructions of a section. -/
def inSection (f : Fingerprint) (name : String) : List Feature :=
  (((occurrences f.listing.blocks).zip f.features).filter fun x =>
    x.1.block.sectionName == name).map fun x => x.2.feature

/-- The feature of an occurrence in a listing. -/
def featureAt (c : Config) (l : Listing) (o : Occurrence) : Feature :=
  featureOf c.branchPolicy (.ofPlaced (placeBlocks l.blocks)) (o.place l.blocks) o.instruction

theorem features_eq_map (c : Config) (text : String) :
    (ofText c text).features = (occurrences (ofText c text).listing.blocks).map fun o =>
      (featureAt c (ofText c text).listing o).digested := by
  unfold ofText
  dsimp only
  rw [extractFeatures_eq, List.map_map]
  rfl

theorem inSection_eq (c : Config) (text : String) (name : String) :
    (ofText c text).inSection name =
      (sectionCode (ofText c text).listing.blocks name).map
        (featureAt c (ofText c text).listing) := by
  unfold inSection sectionCode
  rw [features_eq_map, ← List.map_prod_left_eq_zip, List.filter_map, List.map_map]
  rfl

/-- The features of a section carry the places of its code. -/
theorem map_indices_inSection (c : Config) (text : String) (name : String) :
    ((ofText c text).inSection name).map Feature.indices =
      ((sectionCode (ofText c text).listing.blocks name).map Occurrence.indices).map fun p =>
        (Int64.ofNat p.1, Int64.ofNat p.2) := by
  rw [inSection_eq, List.map_map, List.map_map]
  rfl

theorem countedUp_inSection (c : Config) (text : String) (name : String) :
    CountedUp ((sectionCode (ofText c text).listing.blocks name).map Occurrence.indices) := by
  have hwf := Listing.wellFormed_parse c.codeSections text
  exact (countedUp_indices (fun b hb => ⟨(hwf.blocks b hb).1.position, (hwf.blocks b hb).2⟩)
    hwf.indexed name).1

/-- The places of the features of a section are those of its code as numbers, if 64 bits with a sign
    can hold the number of characters. -/
theorem map_toInt_inSection (c : Config) {text : String} (htext : text.length < 2 ^ 63)
    (name : String) :
    ((ofText c text).inSection name).map (fun f => (f.vector.block.toInt, f.vector.opcode.toInt)) =
      ((sectionCode (ofText c text).listing.blocks name).map Occurrence.indices).map fun p =>
        ((p.1 : Int), (p.2 : Int)) := by
  have hlength : (sectionCode (ofText c text).listing.blocks name).length ≤ text.length := by
    have hsection := length_sectionCode_le (ofText c text).listing.blocks name
    have hwf := Listing.wellFormed_parse c.codeSections text
    have hcount := Listing.instructionCount_parse_le c.codeSections text
    rw [hwf.instructionCount] at hcount
    exact Nat.le_trans hsection hcount
  rw [inSection_eq, List.map_map, List.map_map]
  apply List.map_congr_left
  intro o ho
  have hindices := List.mem_map_of_mem (f := Occurrence.indices) ho
  obtain ⟨k, hk⟩ := List.getElem?_of_mem hindices
  have hle := (countedUp_inSection c text name).add_le hk
  have hlt := (List.getElem?_eq_some_iff.mp hk).1
  rw [List.length_map] at hlt
  have hblock : o.block.index < 2 ^ 63 := by
    change o.block.index + o.instruction.position ≤ k at hle
    omega
  have hposition : o.instruction.position < 2 ^ 63 := by
    change o.block.index + o.instruction.position ≤ k at hle
    omega
  exact Prod.ext (Int64.toInt_ofNat_of_lt hblock) (Int64.toInt_ofNat_of_lt hposition)

/-- There are as many distinct digests as features, if no two features share a digest. -/
theorem size_digests {f : Fingerprint} (h : (f.features.map DigestedFeature.digest).Nodup) :
    f.digests.size = f.features.length := by
  have hperm : f.digests.toList.Perm (f.features.map DigestedFeature.digest) := by
    rw [List.perm_ext_iff_of_nodup (SortedMap.nodup_toList _) h]
    intro d
    rw [ExtTreeSet.mem_toList, mem_digests, List.mem_map]
  rw [← ExtTreeSet.length_toList, hperm.length_eq, List.length_map]

/-- For every text and every configuration: there is one feature for each instruction, with its
    mnemonic, and in each section the places of the features are counted from `(0, 0)` without a gap.
    So the features of a listing of one section are distinct, and so are their digests if SHA-256
    gives their encodings different ones. Numbers of 64 bits are enough for texts of fewer than
    `2 ^ 63` characters. -/
theorem features_counted (c : Config) (text : String) :
    let f := ofText c text
    f.features.length = f.listing.instructionCount ∧
    f.features.map (fun d => d.feature.mnemonic) =
      f.listing.instructions.map Instruction.mnemonic ∧
    (∀ name, CountedUp ((f.inSection name).map Feature.indices)) ∧
    (text.length < 2 ^ 63 →
      (∀ name, CountedUp ((f.inSection name).map fun g =>
        (g.vector.block.toInt, g.vector.opcode.toInt))) ∧
      ∀ name, (∀ b ∈ f.listing.blocks, b.sectionName = name) →
        (f.features.map DigestedFeature.feature).Nodup ∧
        (Sha256.Separates {e | ∃ d ∈ f.features, d.feature.encoding = e} →
          f.digests.size = f.listing.instructionCount)) := by
  intro f
  have hlength := length_features c text
  refine ⟨hlength, map_mnemonic_features c text, fun name => ?_, fun htext => ?_⟩
  · rw [map_indices_inSection]
    exact (countedUp_inSection c text name).map rfl fun n => Int64.ofNat_add n 1
  · have hcounted : ∀ name, CountedUp ((f.inSection name).map fun g =>
        (g.vector.block.toInt, g.vector.opcode.toInt)) := by
      intro name
      rw [map_toInt_inSection c htext]
      exact (countedUp_inSection c text name).map rfl fun n => by simp
    refine ⟨hcounted, fun name hname => ?_⟩
    have hall : f.inSection name = f.features.map DigestedFeature.feature := by
      have hcode : sectionCode f.listing.blocks name = occurrences f.listing.blocks := by
        refine List.filter_eq_self.mpr fun o ho => beq_iff_eq.mpr (hname _ ?_)
        exact List.mem_of_getElem? (mem_occurrences.mp ho).1
      rw [inSection_eq, hcode, features_eq_map, List.map_map]
      rfl
    have hnodup : (f.features.map DigestedFeature.feature).Nodup :=
      hall ▸ List.Nodup.of_map _ (hcounted name).nodup
    refine ⟨hnodup, fun hseparates => ?_⟩
    have himage : {e | ∃ d ∈ f.features, d.feature.encoding = e} =
        Feature.encoding '' {g | g ∈ f.features.map DigestedFeature.feature} := by
      ext e
      simp
    have hdigests : f.features.map DigestedFeature.digest =
        (f.features.map DigestedFeature.feature).map Feature.digest := by
      rw [features_eq_map, List.map_map, List.map_map, List.map_map]
      rfl
    rw [himage] at hseparates
    rw [← hlength]
    refine size_digests ?_
    rw [hdigests]
    exact Feature.nodup_map_digest hnodup hseparates

/-- Three instructions in two blocks of one section, two of them with the same mnemonic: their
    features have three digests. -/
theorem features_counted_blocks :
    let f := ofText .standard ".text\nnop\nmov r0, r1\nnext:\nnop\n"
    f.features.map DigestedFeature.feature = Feature.samples ∧
    Sha256.Separates {e | ∃ d ∈ f.features, d.feature.encoding = e} ∧ f.digests.size = 3 := by
  intro f
  have hfeatures : f.features.map DigestedFeature.feature = Feature.samples := by decide +kernel
  have hseparates : Sha256.Separates {e | ∃ d ∈ f.features, d.feature.encoding = e} := by
    have hsamples : Sha256.Separates (Feature.encoding '' {g | g ∈ Feature.samples}) :=
      Feature.separates_samples fun _ h => h
    refine hsamples.mono ?_
    rintro _ ⟨d, hd, rfl⟩
    have hsample : d.feature ∈ Feature.samples := by
      rw [← hfeatures]
      exact List.mem_map_of_mem hd
    exact Set.mem_image_of_mem Feature.encoding hsample
  have hcount : f.listing.instructionCount = 3 := by decide +kernel
  have hone : ∀ b ∈ f.listing.blocks, b.sectionName = ".text" := by decide +kernel
  have hsize := ((features_counted .standard ".text\nnop\nmov r0, r1\nnext:\nnop\n").2.2.2
    (by decide +kernel)).2 ".text" hone
  exact ⟨hfeatures, hseparates, (hsize.2 hseparates).trans hcount⟩

end Fingerprint

end FirmwareMatch
