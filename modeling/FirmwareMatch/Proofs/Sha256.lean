import FirmwareMatch.Sha256
import Mathlib.Data.Fin.VecNotation
import Mathlib.Data.Fintype.BigOperators
import Mathlib.Data.List.Nodup
import Mathlib.Data.Set.Function

/-
  What is assumed of SHA-256, and what needs no assumption.

  A digest is the text of eight words, so there are no more than `2 ^ 256` of them. Nothing is
  known about which texts share one: that some texts do not is the assumption `Separates`.

  Proved:
  * `separates_of_nodup`: texts whose digests differ are separated.
  * `length_digests_le`: there are at most `2 ^ 256` digests.
-/

namespace FirmwareMatch.Sha256

/-- Whether SHA-256 gives the texts of a set different digests. -/
def Separates (texts : Set String) : Prop :=
  Set.InjOn (fun text : String => hexDigest text.toUTF8) texts

theorem separates_of_nodup {texts : List String}
    (h : (texts.map fun text => hexDigest text.toUTF8).Nodup) :
    Separates {text | text ∈ texts} :=
  fun _ hx _ hy => List.inj_on_of_nodup_map h hx hy

theorem Separates.mono {texts texts' : Set String} (h : Separates texts) (hsub : texts' ⊆ texts) :
    Separates texts' :=
  Set.InjOn.mono hsub h

/-! ## The number of digests -/

/-- The state of eight words. -/
def State.ofWords (w : Fin 8 → Fin (2 ^ 32)) : State :=
  ⟨.ofFin (w 0), .ofFin (w 1), .ofFin (w 2), .ofFin (w 3),
    .ofFin (w 4), .ofFin (w 5), .ofFin (w 6), .ofFin (w 7)⟩

theorem State.exists_ofWords (s : State) : ∃ w, State.ofWords w = s :=
  ⟨![s.a.toFin, s.b.toFin, s.c.toFin, s.d.toFin, s.e.toFin, s.f.toFin, s.g.toFin, s.h.toFin], rfl⟩

/-- Different values of a function are no more than its arguments. -/
theorem length_values_le {α β : Type} [Fintype α] [DecidableEq β] (f : α → β) {values : List β}
    (hnodup : values.Nodup) (h : ∀ b ∈ values, ∃ a, f a = b) :
    values.length ≤ Fintype.card α := by
  have hsub : values.toFinset ⊆ Finset.univ.image f := by
    intro b hb
    obtain ⟨a, ha⟩ := h b (List.mem_toFinset.mp hb)
    exact Finset.mem_image.mpr ⟨a, Finset.mem_univ a, ha⟩
  calc values.length = values.toFinset.card := (List.toFinset_card_of_nodup hnodup).symm
    _ ≤ (Finset.univ.image f).card := Finset.card_le_card hsub
    _ ≤ Fintype.card α := Finset.card_image_le

/-- Different digests are no more than `2 ^ 256`. -/
theorem length_digests_le {digests : List String} (hnodup : digests.Nodup)
    (h : ∀ d ∈ digests, ∃ message, hexDigest message = d) : digests.length ≤ 2 ^ 256 := by
  have hwords : ∀ d ∈ digests, ∃ w, String.ofList (State.ofWords w).hex = d := by
    intro d hd
    obtain ⟨message, rfl⟩ := h d hd
    obtain ⟨w, hw⟩ := State.exists_ofWords (hash message)
    exact ⟨w, congrArg (fun s => String.ofList s.hex) hw⟩
  calc digests.length ≤ Fintype.card (Fin 8 → Fin (2 ^ 32)) := length_values_le _ hnodup hwords
    _ = 2 ^ 256 := by rw [Fintype.card_fun, Fintype.card_fin, Fintype.card_fin, ← Nat.pow_mul]

end FirmwareMatch.Sha256
