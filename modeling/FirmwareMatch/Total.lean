/-
  Sums over lists.

  Main statements: the sum over an appended list is the sum of both sums, a length is the sum of the
  lengths of the parts, and the order of a list does not matter.
-/

namespace FirmwareMatch

variable {α : Type}

/-- The sum of `count x` over the members `x` of a list. -/
def total (count : α → Nat) : List α → Nat
  | [] => 0
  | x :: xs => count x + total count xs

@[simp] theorem total_nil (count : α → Nat) : total count [] = 0 := rfl

@[simp] theorem total_cons (count : α → Nat) (x : α) (xs : List α) :
    total count (x :: xs) = count x + total count xs := rfl

theorem total_append (count : α → Nat) (xs ys : List α) :
    total count (xs ++ ys) = total count xs + total count ys := by
  induction xs with
  | nil => simp
  | cons x xs ih => simp [ih, Nat.add_assoc]

theorem total_map {β : Type} (count : β → Nat) (f : α → β) (xs : List α) :
    total count (xs.map f) = total (fun x => count (f x)) xs := by
  induction xs with
  | nil => rfl
  | cons x xs ih => simp [ih]

theorem length_flatMap {β : Type} (f : α → List β) (xs : List α) :
    (xs.flatMap f).length = total (fun x => (f x).length) xs := by
  induction xs with
  | nil => rfl
  | cons x xs ih => rw [List.flatMap_cons, List.length_append, ih, total_cons]

theorem le_total_of_mem (count : α → Nat) {x : α} {xs : List α} (h : x ∈ xs) :
    count x ≤ total count xs := by
  induction h with
  | head ys => simp
  | tail y _ ih => rw [total_cons]; omega

theorem total_filter_le (count : α → Nat) (p : α → Bool) (xs : List α) :
    total count (xs.filter p) ≤ total count xs := by
  induction xs with
  | nil => exact Nat.le_refl 0
  | cons x xs ih => cases hx : p x <;> simp [hx] <;> omega

theorem total_perm (count : α → Nat) {xs ys : List α} (h : xs.Perm ys) :
    total count xs = total count ys := by
  induction h with
  | nil => rfl
  | cons x _ ih => simp [ih]
  | swap x y xs => simp only [total_cons]; omega
  | trans _ _ ih₁ ih₂ => exact ih₁.trans ih₂

end FirmwareMatch
