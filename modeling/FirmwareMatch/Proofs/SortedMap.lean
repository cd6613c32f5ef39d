import Std.Data.ExtTreeMap
import Std.Data.ExtTreeSet

/-
  Sorted maps and sets as lists: what the library does not say about `values`, and folds that
  count or collect.

  Main statements: the values stand in the order of the keys, a fold that counts every member of a
  list ends at the number of occurrences, a fold that inserts has what it had and the list, the
  last insertion under a key counts, the order does not count where the insertions agree, and a fold
  that inserts the entries of a map gives the map.
-/

namespace FirmwareMatch.SortedMap

open Std

variable {α β : Type} {cmp : α → α → Ordering} [TransCmp cmp]

theorem values_eq_map_snd (m : ExtTreeMap α β cmp) : m.values = m.toList.map Prod.snd := by
  have hfold : m.values = m.foldr (fun _ v l => v :: l) [] := by
    obtain ⟨⟨q⟩⟩ := m
    induction q using Quotient.inductionOn with
    | h t => rfl
  rw [hfold, ExtTreeMap.foldr_eq_foldr_toList]
  induction m.toList with
  | nil => rfl
  | cons p ps ih => simp [ih]

theorem isEmpty_eq_false_of_mem {m : ExtTreeMap α β cmp} {k : α} (h : k ∈ m) :
    m.isEmpty = false := by
  rw [Bool.eq_false_iff, ne_eq, ExtTreeMap.isEmpty_iff]
  rintro rfl
  exact ExtTreeMap.not_mem_empty h

theorem foldl_insert_eq_insertMany (ps : List (α × β)) (m : ExtTreeMap α β cmp) :
    ps.foldl (fun m p => m.insert p.1 p.2) m = m.insertMany ps := by
  induction ps generalizing m with
  | nil => rw [List.foldl_nil, ExtTreeMap.insertMany_nil]
  | cons p ps ih => rw [List.foldl_cons, ih, ExtTreeMap.insertMany_cons]

variable [LawfulEqCmp cmp]

/-- Inserting the entries of a map one after another gives the map. -/
theorem foldl_insert_toList [BEq α] [LawfulBEq α] (m : ExtTreeMap α β cmp) :
    m.toList.foldl (fun m p => m.insert p.1 p.2) ∅ = m := by
  rw [foldl_insert_eq_insertMany]
  apply ExtTreeMap.ext_getElem?
  intro k
  cases hk : m[k]? with
  | none =>
    have hkeys : (m.toList.map Prod.fst).contains k = false := by
      rw [ExtTreeMap.map_fst_toList_eq_keys, Bool.eq_false_iff, ne_eq, List.contains_iff_mem,
        ExtTreeMap.mem_keys, ExtTreeMap.mem_iff_isSome_getElem?, hk]
      exact Bool.false_ne_true
    rw [ExtTreeMap.getElem?_insertMany_list_of_contains_eq_false hkeys]
    exact ExtTreeMap.getElem?_empty
  | some v =>
    exact ExtTreeMap.getElem?_insertMany_list_of_mem ReflCmp.compare_self
      ExtTreeMap.distinct_keys_toList (ExtTreeMap.mem_toList_iff_getElem?_eq_some.mpr hk)

/-- The values are those of the keys, in order. The fallback is never used. -/
theorem values_eq_map_keys (m : ExtTreeMap α β cmp) (fallback : β) :
    m.values = m.keys.map fun k => m.getD k fallback := by
  rw [values_eq_map_snd, ← ExtTreeMap.map_fst_toList_eq_keys, List.map_map]
  apply List.map_congr_left
  rintro ⟨k, v⟩ hkv
  have hv : m[k]? = some v := ExtTreeMap.mem_toList_iff_getElem?_eq_some.mp hkv
  simp [ExtTreeMap.getD_eq_getD_getElem?, hv]

/-- An insertion that keeps what is there: the old entry counts first. -/
theorem getElem?_insertIfNew_or [DecidableEq α] (m : ExtTreeMap α β cmp) (k a : α) (v : β) :
    (m.insertIfNew k v)[a]? = m[a]?.or (if k = a then some v else none) := by
  rw [ExtTreeMap.getElem?_insertIfNew]
  simp only [LawfulEqCmp.compare_eq_iff_eq]
  by_cases h : k = a
  · subst h
    cases hk : m[k]? with
    | none => simp [ExtTreeMap.mem_iff_isSome_getElem?, hk]
    | some w => simp [ExtTreeMap.mem_iff_isSome_getElem?, hk]
  · simp [h]

/-- Counting every member of a list adds the number of its occurrences. -/
theorem getD_foldl_count [BEq α] [LawfulBEq α] (xs : List α) (m : ExtTreeMap α Nat cmp) (a : α) :
    (xs.foldl (fun m x => m.insert x (m.getD x 0 + 1)) m).getD a 0 = m.getD a 0 + xs.count a := by
  induction xs generalizing m with
  | nil => simp
  | cons x xs ih =>
    rw [List.foldl_cons, ih, ExtTreeMap.getD_insert, List.count_cons]
    by_cases h : x = a
    · subst h
      simp
      omega
    · have hc : cmp x a ≠ .eq := fun hc => h (LawfulEqCmp.eq_of_compare hc)
      simp [h, hc]

theorem nodup_toList (s : ExtTreeSet α cmp) : s.toList.Nodup :=
  s.distinct_toList.imp fun hne h => hne (LawfulEqCmp.compare_eq_iff_eq.mpr h)

/-! ## Folds that collect -/

/-- If a step brings about `P` from what it reads and never takes it away, then `P` holds after a
    fold exactly if it held before or a member of the list brought it about. -/
theorem foldl_iff_exists {γ σ : Type} {step : σ → γ → σ} {P : σ → Prop} {Q : γ → Prop}
    (h : ∀ s x, P (step s x) ↔ P s ∨ Q x) (xs : List γ) (s : σ) :
    P (xs.foldl step s) ↔ P s ∨ ∃ x ∈ xs, Q x := by
  induction xs generalizing s with
  | nil => simp
  | cons x xs ih =>
    rw [List.foldl_cons, ih, h, or_assoc]
    simp only [List.mem_cons, exists_eq_or_imp]

/-- What a fold of insertions leaves in a set: its members and those of the list. -/
theorem mem_foldl_insert {γ : Type} (f : γ → α) (xs : List γ) (s : ExtTreeSet α cmp) (a : α) :
    a ∈ xs.foldl (fun s x => s.insert (f x)) s ↔ a ∈ s ∨ ∃ x ∈ xs, f x = a := by
  refine foldl_iff_exists (P := fun s => a ∈ s) (fun s x => ?_) xs s
  rw [ExtTreeSet.mem_insert, LawfulEqCmp.compare_eq_iff_eq]
  exact Or.comm

/-- What a fold of insertions leaves in a map: its keys and those of the list. -/
theorem mem_foldl_insert_map {γ : Type} (f : γ → α) (g : γ → β) (xs : List γ)
    (m : ExtTreeMap α β cmp) (a : α) :
    a ∈ xs.foldl (fun m x => m.insert (f x) (g x)) m ↔ a ∈ m ∨ ∃ x ∈ xs, f x = a := by
  refine foldl_iff_exists (P := fun m => a ∈ m) (fun m x => ?_) xs m
  rw [ExtTreeMap.mem_insert, LawfulEqCmp.compare_eq_iff_eq]
  exact Or.comm

/-- An entry that a fold of insertions leaves was there before or comes from the list. -/
theorem getElem?_foldl_insert_map {γ : Type} {f : γ → α} {g : γ → β} {xs : List γ}
    {m : ExtTreeMap α β cmp} {a : α} {v : β}
    (h : (xs.foldl (fun m x => m.insert (f x) (g x)) m)[a]? = some v) :
    m[a]? = some v ∨ ∃ x ∈ xs, f x = a ∧ g x = v := by
  induction xs generalizing m with
  | nil => exact Or.inl h
  | cons x xs ih =>
    rcases ih h with hm | ⟨y, hy, hfy⟩
    · rw [ExtTreeMap.getElem?_insert] at hm
      split at hm
      · rename_i hx
        exact Or.inr ⟨x, List.mem_cons_self, LawfulEqCmp.compare_eq_iff_eq.mp hx,
          Option.some.inj hm⟩
      · exact Or.inl hm
    · exact Or.inr ⟨y, List.mem_cons_of_mem _ hy, hfy⟩

/-- Of several insertions under one key the last counts. -/
theorem getElem?_foldl_insert_getLast? [BEq α] [LawfulBEq α] {γ : Type} (f : γ → α) (g : γ → β)
    (xs : List γ) (m : ExtTreeMap α β cmp) (a : α) :
    (xs.foldl (fun m x => m.insert (f x) (g x)) m)[a]? =
      ((xs.filter fun x => f x == a).getLast?.map g).or m[a]? := by
  induction xs generalizing m with
  | nil => simp
  | cons x xs ih =>
    rw [List.foldl_cons, ih, ExtTreeMap.getElem?_insert]
    by_cases h : f x = a
    · rw [if_pos (LawfulEqCmp.compare_eq_iff_eq.mpr h), List.filter_cons,
        if_pos (beq_iff_eq.mpr h), List.getLast?_cons]
      cases (xs.filter fun x => f x == a).getLast? <;> rfl
    · rw [if_neg (mt LawfulEqCmp.compare_eq_iff_eq.mp h), List.filter_cons,
        if_neg (mt eq_of_beq h)]

/-- Where `g` is constant, the last member of a list has the value of every other one, so lists with
    the same members end alike. -/
theorem map_getLast?_congr {γ : Type} {g : γ → β} {xs ys : List γ} (hmem : ∀ x, x ∈ xs ↔ x ∈ ys)
    (hconstant : ∀ x ∈ xs, ∀ y ∈ xs, g x = g y) : xs.getLast?.map g = ys.getLast?.map g := by
  cases hx : xs.getLast? with
  | none =>
    rw [List.getLast?_eq_none_iff.mp hx] at hmem
    have hys : ys = [] :=
      List.eq_nil_iff_forall_not_mem.mpr fun y hy => List.not_mem_nil ((hmem y).mpr hy)
    rw [hys, List.getLast?_nil]
  | some x =>
    have hxs := List.mem_of_getLast? hx
    have hys : ys.getLast? ≠ none :=
      mt List.getLast?_eq_none_iff.mp (List.ne_nil_of_mem ((hmem x).mp hxs))
    obtain ⟨y, hy⟩ := Option.ne_none_iff_exists'.mp hys
    rw [hy, Option.map_some, Option.map_some,
      hconstant x hxs y ((hmem y).mpr (List.mem_of_getLast? hy))]

/-- Insertions that agree under each key give the same map, in whatever order and however often they
    are made. -/
theorem foldl_insert_congr [BEq α] [LawfulBEq α] {γ : Type} {f : γ → α} {g : γ → β}
    {xs ys : List γ} (hmem : ∀ x, x ∈ xs ↔ x ∈ ys)
    (hvalue : ∀ x ∈ xs, ∀ y ∈ xs, f x = f y → g x = g y) (m : ExtTreeMap α β cmp) :
    xs.foldl (fun m x => m.insert (f x) (g x)) m = ys.foldl (fun m x => m.insert (f x) (g x)) m := by
  apply ExtTreeMap.ext_getElem?
  intro a
  rw [getElem?_foldl_insert_getLast?, getElem?_foldl_insert_getLast?]
  congr 1
  refine map_getLast?_congr (fun x => by simp only [List.mem_filter, hmem]) fun x hx y hy => ?_
  rw [List.mem_filter, beq_iff_eq] at hx hy
  exact hvalue x hx.1 y hy.1 (hx.2.trans hy.2.symm)

end FirmwareMatch.SortedMap
