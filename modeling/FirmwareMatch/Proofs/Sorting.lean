import Mathlib.Data.List.Sort

/-
  Stable sorting by a total preorder.

  What stands before a member in a sorted list, and came after it in the unsorted one, is what the
  member may not stand before. So sorting a list and dropping members can be done in either order.
  If no two members tie, the sorted list does not depend on the order of the unsorted one.

  Proved:
  * `mergeSort_filter`: the sort of a part of a list is that part of the sorted list.
  * `filter_mergeSort`: members that tie keep their order.
  * `mergeSort_eq_of_perm`: rearranged lists without ties have one sort.
-/

namespace FirmwareMatch

variable {α : Type} {le : α → α → Bool} {p : α → Bool}

/-- Two ways to cut a list in front of the members that satisfy `q` are the same. -/
theorem append_cut_unique {q : α → Bool} {us vs fs gs : List α} (h : us ++ vs = fs ++ gs)
    (hus : ∀ a ∈ us, q a = false) (hvs : ∀ a ∈ vs, q a) (hfs : ∀ a ∈ fs, q a = false)
    (hgs : ∀ a ∈ gs, q a) : us = fs ∧ vs = gs := by
  have hcut : ∀ {as bs : List α}, (∀ a ∈ as, q a = false) → (∀ b ∈ bs, q b) →
      (as ++ bs).filter (fun a => !q a) = as ∧ (as ++ bs).filter q = bs := by
    intro as bs has hbs
    rw [List.filter_append, List.filter_append, List.filter_eq_self.mpr (by simpa using has),
      List.filter_eq_nil_iff.mpr (by simpa using hbs), List.filter_eq_self.mpr hbs,
      List.filter_eq_nil_iff.mpr (by simpa using has)]
    simp
  obtain ⟨hfront, hback⟩ := hcut hus hvs
  rw [h, (hcut hfs hgs).1] at hfront
  rw [h, (hcut hfs hgs).2] at hback
  exact ⟨hfront.symm, hback.symm⟩

/-- The sort of a part of a list is that part of the sorted list. -/
theorem mergeSort_filter (xs : List α) (htrans : ∀ a b c, le a b → le b c → le a c)
    (htotal : ∀ a b, le a b || le b a) :
    (xs.filter p).mergeSort le = (xs.mergeSort le).filter p := by
  induction xs with
  | nil => simp
  | cons x xs ih =>
    obtain ⟨us, vs, hsort, htail, hus⟩ := List.mergeSort_cons htrans htotal x xs
    by_cases hx : p x
    · obtain ⟨fs, gs, hsort', htail', hfs⟩ := List.mergeSort_cons htrans htotal x (xs.filter p)
      have hsorted := List.pairwise_mergeSort htrans htotal (x :: xs)
      have hsorted' := List.pairwise_mergeSort htrans htotal (x :: xs.filter p)
      rw [hsort, List.pairwise_append, List.pairwise_cons] at hsorted
      rw [hsort', List.pairwise_append, List.pairwise_cons] at hsorted'
      have hsame : fs ++ gs = us.filter p ++ vs.filter p := by
        rw [← htail', ih, htail, List.filter_append]
      -- both sides are cut in front of what `x` may stand before
      obtain ⟨rfl, rfl⟩ := append_cut_unique hsame (q := le x) (by simpa using hfs)
        hsorted'.2.1.1 (fun b hb => by simpa using hus b (List.mem_filter.mp hb).1)
        fun b hb => hsorted.2.1.1 b (List.mem_filter.mp hb).1
      rw [List.filter_cons_of_pos hx, hsort', hsort, List.filter_append, List.filter_cons_of_pos hx]
    · rw [List.filter_cons_of_neg hx, ih, hsort, htail, List.filter_append, List.filter_append,
        List.filter_cons_of_neg hx]

/-- Members that tie keep their order in a sorted list. -/
theorem filter_mergeSort (xs : List α) (htrans : ∀ a b c, le a b → le b c → le a c)
    (htotal : ∀ a b, le a b || le b a) (htie : ∀ a ∈ xs, ∀ b ∈ xs, p a → p b → le a b) :
    (xs.mergeSort le).filter p = xs.filter p := by
  rw [← mergeSort_filter xs htrans htotal]
  apply List.mergeSort_of_pairwise
  rw [List.pairwise_iff_forall_sublist]
  intro a b hab
  have ha := List.mem_filter.mp (hab.subset List.mem_cons_self)
  have hb := List.mem_filter.mp (hab.subset (List.mem_cons_of_mem _ List.mem_cons_self))
  exact htie a ha.1 b hb.1 ha.2 hb.2

/-- Rearranged lists have one sort if no two members tie. -/
theorem mergeSort_eq_of_perm {xs ys : List α} (h : xs.Perm ys)
    (htrans : ∀ a b c, le a b → le b c → le a c) (htotal : ∀ a b, le a b || le b a)
    (hantisymm : ∀ a ∈ xs, ∀ b ∈ xs, le a b → le b a → a = b) :
    xs.mergeSort le = ys.mergeSort le := by
  refine List.Perm.eq_of_pairwise (fun a b ha hb => ?_) (List.pairwise_mergeSort htrans htotal xs)
    (List.pairwise_mergeSort htrans htotal ys)
    ((List.mergeSort_perm xs le).trans (h.trans (List.mergeSort_perm ys le).symm))
  exact hantisymm a (List.mem_mergeSort.mp ha) b (h.mem_iff.mpr (List.mem_mergeSort.mp hb))

end FirmwareMatch
