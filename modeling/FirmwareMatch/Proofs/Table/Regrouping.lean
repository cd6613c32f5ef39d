import FirmwareMatch.Proofs.Table.Document
import Mathlib.Logic.Relation

/-
  Rows and documents that say the same in another order.

  A table is built by insertions and, for the number of all digests, by a running maximum. Both end at
  what the rows or the entries say together, unless one digest of a project stands there with two
  opcodes: then the last one counts, and the order matters. So tables are compared by their contents:
  the features that are named anywhere, and the numbers that some entry of a project reaches.

  Proved:
  * `ofRows_congr`: the table of rows depends on the set of the rows only.
  * `getElem?_projects_ofEntries_contents`: a project in the table of any entries, by contents.
  * `ofEntries_congr`: the table of entries depends on their contents only.
  * `SameContents.of_regroups`: permuting and splitting entries keeps the contents.
  * `ofRows_ofEntries_regrouped`: both kinds of tables, regrouped.
-/

namespace FirmwareMatch

open Std SortedMap

namespace UniqueTable

/-! ## Tables that are built -/

/-- Building step by step does not tell where a table comes from. -/
theorem origin_foldl_changeSet {γ : Type} (nameOf : γ → String) (step : γ → UniqueSet → UniqueSet)
    (xs : List γ) (t : UniqueTable) :
    (xs.foldl (fun t x => t.changeSet (nameOf x) (step x)) t).origin = t.origin := by
  induction xs generalizing t with
  | nil => rfl
  | cons x xs ih => exact ih _

/-- Tables are equal if they come from one place and have the same projects. -/
theorem ext_of_getElem?_projects {t t' : UniqueTable} (horigin : t.origin = t'.origin)
    (hprojects : ∀ name : String, t.projects[name]? = t'.projects[name]?) : t = t' := by
  obtain ⟨origin, projects⟩ := t
  obtain ⟨origin', projects'⟩ := t'
  have hmaps : projects = projects' := ExtTreeMap.ext_getElem? fun {name} => hprojects name
  dsimp only at horigin
  rw [horigin, hmaps]

/-! ## Rows -/

/-- No digest of a project stands with two opcodes. -/
def Unambiguous (rs : List FeatureRow) : Prop :=
  ∀ r ∈ rs, ∀ r' ∈ rs, r.project = r'.project → r.hash = r'.hash → r.opcode = r'.opcode

theorem mem_rowsNamed {name : String} {rs : List FeatureRow} {r : FeatureRow} :
    r ∈ rowsNamed name rs ↔ r ∈ rs ∧ r.project = name := by
  rw [rowsNamed, List.mem_filter, beq_iff_eq]

/-- Rows of one project among unambiguous ones have the same digests if they are the same. -/
theorem digestsOfRows_congr {rs own own' : List FeatureRow} {name : String} (h : Unambiguous rs)
    (hown : ∀ r, r ∈ own ↔ r ∈ rs ∧ r.project = name)
    (hown' : ∀ r, r ∈ own' ↔ r ∈ rs ∧ r.project = name) :
    digestsOfRows own = digestsOfRows own' := by
  refine foldl_insert_congr (fun r => (hown r).trans (hown' r).symm) ?_ ∅
  intro r hr r' hr' hhash
  obtain ⟨hr, hname⟩ := (hown r).mp hr
  obtain ⟨hr', hname'⟩ := (hown r').mp hr'
  exact h r hr r' hr' (hname.trans hname'.symm) hhash

/-- The table of rows depends on the set of the rows only. -/
theorem ofRows_congr {rs rs' : List FeatureRow} (h : Unambiguous rs)
    (hmem : ∀ r, r ∈ rs ↔ r ∈ rs') : ofRows rs = ofRows rs' := by
  have horigin : ∀ rs, (ofRows rs).origin = none := fun rs =>
    origin_foldl_changeSet FeatureRow.project _ rs empty
  refine ext_of_getElem?_projects ((horigin rs).trans (horigin rs').symm) fun name => ?_
  have hempty : (rowsNamed name rs).isEmpty = (rowsNamed name rs').isEmpty := by
    rw [Bool.eq_iff_iff, List.isEmpty_iff, List.isEmpty_iff, List.eq_nil_iff_forall_not_mem,
      List.eq_nil_iff_forall_not_mem]
    simp only [mem_rowsNamed, hmem]
  have hdigests : digestsOfRows (rowsNamed name rs) = digestsOfRows (rowsNamed name rs') :=
    digestsOfRows_congr h (fun r => mem_rowsNamed) fun r => by rw [mem_rowsNamed, hmem]
  rw [getElem?_projects_ofRows, getElem?_projects_ofRows, hempty, hdigests]

/-! ## Documents -/

/-- The features of an entry as rows. -/
def rowsOfEntry (e : ProjectEntry) : List FeatureRow :=
  e.features.map fun (opcode, hash) => ⟨e.name, opcode, hash⟩

/-- The features of a document as rows. -/
def rowsOfEntries (es : List ProjectEntry) : List FeatureRow :=
  es.flatMap rowsOfEntry

theorem mem_rowsOfEntries {es : List ProjectEntry} {r : FeatureRow} :
    r ∈ rowsOfEntries es ↔ ∃ e ∈ es, e.name = r.project ∧ (r.opcode, r.hash) ∈ e.features := by
  simp only [rowsOfEntries, rowsOfEntry, List.mem_flatMap, List.mem_map, Prod.exists]
  constructor
  · rintro ⟨e, he, opcode, hash, hf, rfl⟩
    exact ⟨e, he, rfl, hf⟩
  · rintro ⟨e, he, hname, hf⟩
    exact ⟨e, he, _, _, hf, by rw [hname]⟩

/-- The entries of a project. -/
def entriesNamed (name : String) (es : List ProjectEntry) : List ProjectEntry :=
  es.filter fun e => e.name == name

theorem mem_entriesNamed {name : String} {es : List ProjectEntry} {e : ProjectEntry} :
    e ∈ entriesNamed name es ↔ e ∈ es ∧ e.name = name := by
  rw [entriesNamed, List.mem_filter, beq_iff_eq]

/-- The rows of the entries of a project are the rows that name it. -/
theorem mem_rowsOfEntries_entriesNamed {name : String} {es : List ProjectEntry} {r : FeatureRow} :
    r ∈ rowsOfEntries (entriesNamed name es) ↔ r ∈ rowsOfEntries es ∧ r.project = name := by
  simp only [mem_rowsOfEntries, mem_entriesNamed]
  constructor
  · rintro ⟨e, ⟨he, rfl⟩, hname, hf⟩
    exact ⟨⟨e, he, hname, hf⟩, hname.symm⟩
  · rintro ⟨⟨e, he, hname, hf⟩, rfl⟩
    exact ⟨e, ⟨he, hname⟩, hname, hf⟩

/-- The largest number of all digests in a list of entries. -/
def largestCount (es : List ProjectEntry) : Nat :=
  es.foldl (fun n e => max n e.rawFeatureCount) 0

theorem le_largestCount_iff {es : List ProjectEntry} {n : Nat} :
    n ≤ largestCount es ↔ n = 0 ∨ ∃ e ∈ es, n ≤ e.rawFeatureCount := by
  have hstep : ∀ (k : Nat) (e : ProjectEntry),
      n ≤ max k e.rawFeatureCount ↔ n ≤ k ∨ n ≤ e.rawFeatureCount := fun k e => le_max_iff
  rw [largestCount, foldl_iff_exists (P := fun k => n ≤ k) hstep, Nat.le_zero]

/-- Merging entries into a set takes the larger number and adds the features. -/
theorem foldl_mergeEntry (es : List ProjectEntry) (s : UniqueSet) :
    es.foldl (fun s e => mergeEntry e s) s =
      ⟨s.project, es.foldl (fun n e => max n e.rawFeatureCount) s.rawCount,
        (rowsOfEntries es).foldl (fun m r => m.insert r.hash r.opcode) s.features⟩ := by
  induction es generalizing s with
  | nil => rfl
  | cons e es ih =>
    have hrows : rowsOfEntries (e :: es) = rowsOfEntry e ++ rowsOfEntries es := List.flatMap_cons
    rw [List.foldl_cons, ih, hrows, List.foldl_append, rowsOfEntry, List.foldl_map]
    rfl

/-- A project is known if an entry names it, and has the largest number and the features of its
    entries. -/
theorem getElem?_projects_ofEntries_contents (es : List ProjectEntry) (name : String) :
    (ofEntries es).projects[name]? =
      if (entriesNamed name es).isEmpty then none
      else some ⟨name, largestCount (entriesNamed name es),
        digestsOfRows (rowsOfEntries (entriesNamed name es))⟩ := by
  rw [getElem?_projects_ofEntries, foldl_mergeEntry]
  rfl

/-- Two documents name the same features of each project, and reach the same numbers of all digests.
    A project without features is known by the number zero, which its entries reach. -/
structure SameContents (es es' : List ProjectEntry) : Prop where
  features : ∀ (name : String) (f : String × Digest),
    (∃ e ∈ es, e.name = name ∧ f ∈ e.features) ↔ ∃ e ∈ es', e.name = name ∧ f ∈ e.features
  counts : ∀ (name : String) (n : Nat),
    (∃ e ∈ es, e.name = name ∧ n ≤ e.rawFeatureCount) ↔
      ∃ e ∈ es', e.name = name ∧ n ≤ e.rawFeatureCount

namespace SameContents

variable {es es' es'' : List ProjectEntry}

theorem refl (es : List ProjectEntry) : SameContents es es :=
  ⟨fun _ _ => Iff.rfl, fun _ _ => Iff.rfl⟩

theorem symm (h : SameContents es es') : SameContents es' es :=
  ⟨fun name f => (h.features name f).symm, fun name n => (h.counts name n).symm⟩

theorem trans (h : SameContents es es') (h' : SameContents es' es'') : SameContents es es'' :=
  ⟨fun name f => (h.features name f).trans (h'.features name f),
    fun name n => (h.counts name n).trans (h'.counts name n)⟩

theorem mem_rowsOfEntries_iff (h : SameContents es es') (r : FeatureRow) :
    r ∈ rowsOfEntries es ↔ r ∈ rowsOfEntries es' := by
  rw [mem_rowsOfEntries, mem_rowsOfEntries]
  exact h.features r.project (r.opcode, r.hash)

/-- Some entry of a project reaches a number in both documents or in neither. -/
theorem exists_entriesNamed_iff (h : SameContents es es') (name : String) (n : Nat) :
    (∃ e ∈ entriesNamed name es, n ≤ e.rawFeatureCount) ↔
      ∃ e ∈ entriesNamed name es', n ≤ e.rawFeatureCount := by
  simp only [mem_entriesNamed, and_assoc]
  exact h.counts name n

end SameContents

/-- The table of entries depends on their contents only. -/
theorem ofEntries_congr {es es' : List ProjectEntry} (h : Unambiguous (rowsOfEntries es))
    (hsame : SameContents es es') : ofEntries es = ofEntries es' := by
  have horigin : ∀ es, (ofEntries es).origin = none := fun es =>
    origin_foldl_changeSet ProjectEntry.name mergeEntry es empty
  refine ext_of_getElem?_projects ((horigin es).trans (horigin es').symm) fun name => ?_
  have hempty : (entriesNamed name es).isEmpty = (entriesNamed name es').isEmpty := by
    have hzero := hsame.exists_entriesNamed_iff name 0
    simp only [Nat.zero_le, and_true] at hzero
    rw [Bool.eq_iff_iff, List.isEmpty_iff, List.isEmpty_iff, List.eq_nil_iff_forall_not_mem,
      List.eq_nil_iff_forall_not_mem, ← not_exists, ← not_exists, hzero]
  have hcount : largestCount (entriesNamed name es) = largestCount (entriesNamed name es') := by
    refine eq_of_forall_le_iff fun n => ?_
    rw [le_largestCount_iff, le_largestCount_iff, hsame.exists_entriesNamed_iff]
  have hdigests : digestsOfRows (rowsOfEntries (entriesNamed name es)) =
      digestsOfRows (rowsOfEntries (entriesNamed name es')) :=
    digestsOfRows_congr h (fun r => mem_rowsOfEntries_entriesNamed) fun r => by
      rw [mem_rowsOfEntries_entriesNamed, hsame.mem_rowsOfEntries_iff]
  rw [getElem?_projects_ofEntries_contents, getElem?_projects_ofEntries_contents, hempty, hcount,
    hdigests]

/-! ## Regrouping -/

/-- Entries that say together what one entry says: they name its project, hold its features among
    them, and one of them has its number of all digests and none a larger one. -/
structure IsSplit (e : ProjectEntry) (parts : List ProjectEntry) : Prop where
  name : ∀ p ∈ parts, p.name = e.name
  features : ∀ f, f ∈ e.features ↔ ∃ p ∈ parts, f ∈ p.features
  count : ∃ p ∈ parts, p.rawFeatureCount = e.rawFeatureCount
  count_le : ∀ p ∈ parts, p.rawFeatureCount ≤ e.rawFeatureCount

/-- A document in which the entries, or the features of one entry, have another order, or one entry
    is split. -/
inductive Regroups : List ProjectEntry → List ProjectEntry → Prop
  | entries {es es' : List ProjectEntry} (h : es.Perm es') : Regroups es es'
  | features {before after : List ProjectEntry} {e : ProjectEntry} {fs : List (String × Digest)}
      (h : e.features.Perm fs) :
      Regroups (before ++ e :: after) (before ++ { e with features := fs } :: after)
  | split {before after : List ProjectEntry} {e : ProjectEntry} {parts : List ProjectEntry}
      (h : IsSplit e parts) : Regroups (before ++ e :: after) (before ++ parts ++ after)

/-- What holds of an entry exactly if it holds of one of its parts holds of some entry of a document
    with the one or the others. -/
theorem exists_mem_split_iff {P : ProjectEntry → Prop} {e : ProjectEntry}
    {parts : List ProjectEntry} (h : P e ↔ ∃ p ∈ parts, P p) (before after : List ProjectEntry) :
    (∃ x ∈ before ++ e :: after, P x) ↔ ∃ x ∈ before ++ parts ++ after, P x := by
  simp only [List.mem_append, List.mem_cons, or_and_right, exists_or, exists_eq_left, h, or_assoc]

/-- Splitting an entry keeps the contents. -/
theorem SameContents.of_isSplit {e : ProjectEntry} {parts : List ProjectEntry}
    (h : IsSplit e parts) (before after : List ProjectEntry) :
    SameContents (before ++ e :: after) (before ++ parts ++ after) := by
  refine ⟨fun name f => exists_mem_split_iff ?_ before after,
    fun name n => exists_mem_split_iff ?_ before after⟩
  · rw [h.features]
    constructor
    · rintro ⟨hname, p, hp, hf⟩
      exact ⟨p, hp, (h.name p hp).trans hname, hf⟩
    · rintro ⟨p, hp, hname, hf⟩
      exact ⟨(h.name p hp).symm.trans hname, p, hp, hf⟩
  · constructor
    · rintro ⟨hname, hn⟩
      obtain ⟨p, hp, hcount⟩ := h.count
      exact ⟨p, hp, (h.name p hp).trans hname, hcount ▸ hn⟩
    · rintro ⟨p, hp, hname, hn⟩
      exact ⟨(h.name p hp).symm.trans hname, hn.trans (h.count_le p hp)⟩

/-- Regrouping keeps the contents. -/
theorem SameContents.of_regroups {es es' : List ProjectEntry} (h : Regroups es es') :
    SameContents es es' := by
  cases h with
  | entries h =>
    exact ⟨fun name f => by simp only [h.mem_iff], fun name n => by simp only [h.mem_iff]⟩
  | @features before after e fs h =>
    have hsplit : IsSplit e [{ e with features := fs }] := by
      refine ⟨?_, fun f => ?_, ⟨_, List.mem_singleton_self _, rfl⟩, ?_⟩
      · rintro p hp
        rw [List.mem_singleton.mp hp]
      · rw [h.mem_iff]
        simp only [List.mem_singleton, exists_eq_left]
      · rintro p hp
        rw [List.mem_singleton.mp hp]
    have hsame := SameContents.of_isSplit hsplit before after
    rwa [List.append_assoc, List.singleton_append] at hsame
  | split h => exact SameContents.of_isSplit h _ _

/-- So does regrouping again and again, backwards too: merging is splitting backwards. -/
theorem SameContents.of_eqvGen {es es' : List ProjectEntry}
    (h : Relation.EqvGen Regroups es es') : SameContents es es' := by
  induction h with
  | rel _ _ h => exact of_regroups h
  | refl es => exact refl es
  | symm _ _ _ ih => exact ih.symm
  | trans _ _ _ _ _ ih ih' => exact ih.trans ih'

/-- A table depends only on the set of what it is built from, if no digest of a project stands there
    with two opcodes. Rows may be permuted and repeated. The entries of a document and the features
    of an entry may be permuted, an entry may be split into several that say the same together, and
    several may be merged into one. -/
theorem ofRows_ofEntries_regrouped :
    (∀ rs rs' : List FeatureRow, Unambiguous rs → (∀ r, r ∈ rs ↔ r ∈ rs') →
      ofRows rs = ofRows rs') ∧
    (∀ es es' : List ProjectEntry, Unambiguous (rowsOfEntries es) →
      Relation.EqvGen Regroups es es' → ofEntries es = ofEntries es') :=
  ⟨fun _ _ h hmem => ofRows_congr h hmem,
    fun _ _ h hregroups => ofEntries_congr h (.of_eqvGen hregroups)⟩

/-- Rows in another order and one of them repeated; a document with one entry split into two that
    share a feature, behind a project without features that now stands first. -/
theorem ofRows_ofEntries_regrouped_split :
    let mov : FeatureRow := ⟨"alpha", "mov", "d1"⟩
    let bl : FeatureRow := ⟨"alpha", "bl", "d2"⟩
    let beta : ProjectEntry := ⟨"beta", 3, []⟩
    let whole : ProjectEntry := ⟨"alpha", 5, [("mov", "d1"), ("bl", "d2")]⟩
    let parts : List ProjectEntry :=
      [⟨"alpha", 0, [("bl", "d2")]⟩, ⟨"alpha", 5, [("bl", "d2"), ("mov", "d1")]⟩]
    ofRows [mov, bl] = ofRows [bl, mov, bl] ∧
    ofEntries [whole, beta] = ofEntries (beta :: parts) ∧
    (ofEntries (beta :: parts)).projects["alpha"]?.map UniqueSet.rawCount = some 5 := by
  intro mov bl beta whole parts
  have hrows : Unambiguous [mov, bl] := by
    unfold Unambiguous
    decide
  have hmem : ∀ r, r ∈ [mov, bl] ↔ r ∈ [bl, mov, bl] := by
    intro r
    simp only [List.mem_cons, List.not_mem_nil, or_false]
    tauto
  have hentries : Unambiguous (rowsOfEntries [whole, beta]) := by
    unfold Unambiguous
    decide
  have hsplit : IsSplit whole parts := by
    refine ⟨by decide, fun f => ?_, by decide, by decide⟩
    simp only [whole, parts, List.mem_cons, List.not_mem_nil, or_false, exists_eq_or_imp,
      exists_eq_left]
    tauto
  have hswap : Regroups [whole, beta] [beta, whole] := .entries (List.Perm.swap beta whole [])
  have hparts : Regroups ([beta] ++ whole :: []) ([beta] ++ parts ++ []) := .split hsplit
  have hsame : ofEntries [whole, beta] = ofEntries (beta :: parts) :=
    ofRows_ofEntries_regrouped.2 _ _ hentries (.trans _ _ _ (.rel _ _ hswap) (.rel _ _ hparts))
  exact ⟨ofRows_ofEntries_regrouped.1 _ _ hrows hmem, hsame, by decide +kernel⟩

end UniqueTable

end FirmwareMatch
