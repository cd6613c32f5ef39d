import Mathlib
import FirmwareMatch.Decimal.Rounding

/-
  Rounding a quotient to a double.

  Doubles are rounded by shifting a mantissa to the right while a round bit and a sticky bit keep
  what falls off. If they start as the integer quotient of `x` and `d` with its remainder, they
  stay the quotient of `x` and `2 ^ k * d` with its remainder after `k` shifts; so the mantissa
  that is rounded at the end is the quotient rounded once, the middle going to the even neighbour.

  Proved:
  * `roundDiv_mono`, `roundDiv_mul`: rounding keeps the order of fractions, so it does not depend
    on how a fraction is written.
  * `Represents.shiftRight`, `Represents.roundedMantissa`: the two bits stand for the remainder.
  * `roundWithAccuracy_quotient`: the rounded quotient as a mantissa and an exponent.
-/

namespace FirmwareMatch.Decimal

open Float.Model Float.Model.UnpackedFloat

/-! ## Rounded quotients -/

/-- A fraction in the middle of two numbers is rounded to an even one. -/
theorem even_roundDiv_of_middle {x d q : Nat} (hd : 0 < d) (h : 2 * x = (2 * q + 1) * d) :
    roundDiv x d % 2 = 0 := by
  apply roundDiv_even
  have hx : x = d * q + d / 2 := by
    rw [Nat.add_mul, Nat.mul_assoc, Nat.mul_comm q d] at h
    omega
  have hmod : x % d = d / 2 := by
    rw [hx, Nat.mul_add_mod, Nat.mod_eq_of_lt (by omega)]
  have heven : d % 2 = 0 := by
    have hmod2 := congrArg (· % 2) h
    simp only [Nat.add_mul, Nat.mul_assoc, Nat.one_mul] at hmod2
    omega
  omega

/-- Rounding keeps the order of fractions. -/
theorem roundDiv_mono {x d y e : Nat} (hd : 0 < d) (he : 0 < e) (h : x * e ≤ y * d) :
    roundDiv x d ≤ roundDiv y e := by
  obtain ⟨-, hx⟩ := roundDiv_near x d hd
  obtain ⟨hy, -⟩ := roundDiv_near y e he
  by_contra hlt
  obtain ⟨r, hr⟩ : ∃ r, roundDiv x d = r + 1 := ⟨roundDiv x d - 1, by omega⟩
  have hle : roundDiv y e ≤ r := by omega
  have hxlow : (2 * r + 1) * d ≤ 2 * x := by
    rw [hr, Nat.mul_add, Nat.add_mul] at hx
    rw [Nat.add_mul]
    omega
  have hyhigh : 2 * y ≤ (2 * r + 1) * e := by
    refine Nat.le_trans hy (Nat.mul_le_mul_right e ?_)
    omega
  -- the first fraction is not below the middle and the second not above it, so both are there
  have hchain : (2 * r + 1) * d * e ≤ 2 * x * e ∧ 2 * x * e ≤ 2 * y * d ∧
      2 * y * d ≤ (2 * r + 1) * d * e := by
    refine ⟨Nat.mul_le_mul_right e hxlow, ?_, ?_⟩
    · rw [Nat.mul_assoc, Nat.mul_assoc]
      exact Nat.mul_le_mul_left 2 h
    · rw [Nat.mul_right_comm (2 * r + 1) d e]
      exact Nat.mul_le_mul_right d hyhigh
  have hxmid : 2 * x = (2 * r + 1) * d := Nat.eq_of_mul_eq_mul_right he (by omega)
  have hymid : 2 * y = (2 * r + 1) * e := by
    apply Nat.eq_of_mul_eq_mul_right hd
    rw [Nat.mul_right_comm (2 * r + 1) e d]
    omega
  have hxeven := even_roundDiv_of_middle hd hxmid
  have hyeven := even_roundDiv_of_middle he hymid
  have hyeq : r ≤ roundDiv y e := by
    have hcancel : (2 * r + 1) * e ≤ (2 * roundDiv y e + 1) * e := by omega
    have := Nat.le_of_mul_le_mul_right hcancel he
    omega
  omega

/-- A fraction is rounded alike however it is written. -/
theorem roundDiv_mul {x d c : Nat} (hd : 0 < d) (hc : 0 < c) :
    roundDiv (x * c) (d * c) = roundDiv x d := by
  have hdc : 0 < d * c := Nat.mul_pos hd hc
  have heq : x * c * d = x * (d * c) := by rw [Nat.mul_assoc, Nat.mul_comm c d]
  exact Nat.le_antisymm (roundDiv_mono hdc hd (Nat.le_of_eq heq))
    (roundDiv_mono hd hdc (Nat.le_of_eq heq.symm))

/-- A fraction of at most `n` is rounded to at most `n`. -/
theorem roundDiv_le {x d n : Nat} (hd : 0 < d) (h : x ≤ n * d) : roundDiv x d ≤ n := by
  have hmono := roundDiv_mono (e := 1) hd Nat.one_pos (show x * 1 ≤ n * d by omega)
  have hone : roundDiv n 1 = n := by simp [roundDiv, Nat.mod_one]
  rwa [hone] at hmono

/-- A fraction of at least `n` is rounded to at least `n`. -/
theorem le_roundDiv {x d n : Nat} (hd : 0 < d) (h : n * d ≤ x) : n ≤ roundDiv x d := by
  have hmono := roundDiv_mono (e := d) Nat.one_pos hd (show n * d ≤ x * 1 by omega)
  have hone : roundDiv n 1 = n := by simp [roundDiv, Nat.mod_one]
  rwa [hone] at hmono

/-! ## The two bits behind a mantissa -/

/-- The mantissa is the integer quotient of `x` and `d`; the bits tell whether the remainder
    reaches half of `d`, and whether it is neither nothing nor this half. -/
structure Represents (em : ExtendedMantissa) (x d : Nat) : Prop where
  mantissa : em.mantissa = x / d
  roundBit : em.roundBit = true ↔ d ≤ 2 * (x % d)
  stickyBit : em.stickyBit = true ↔ x % d ≠ 0 ∧ 2 * (x % d) ≠ d

theorem represents_quotient (x : Nat) {d : Nat} (hd : 0 < d) :
    Represents (ExtendedMantissa.ofMantissaAndAccuracy (x / d) (accuracyOfFraction (x % d) d))
      x d := by
  unfold accuracyOfFraction
  split
  · rename_i h
    refine ⟨rfl, ?_, ?_⟩ <;> simp [ExtendedMantissa.ofMantissaAndAccuracy, h, Nat.ne_of_gt hd]
  · rename_i h
    rcases hcmp : compare (2 * (x % d)) d with _ | _ | _
    · rw [Nat.compare_eq_lt] at hcmp
      refine ⟨rfl, ?_, ?_⟩ <;> simp [ExtendedMantissa.ofMantissaAndAccuracy, h] <;> omega
    · rw [Nat.compare_eq_eq] at hcmp
      refine ⟨rfl, ?_, ?_⟩ <;> simp [ExtendedMantissa.ofMantissaAndAccuracy, h] <;> omega
    · rw [Nat.compare_eq_gt] at hcmp
      refine ⟨rfl, ?_, ?_⟩ <;> simp [ExtendedMantissa.ofMantissaAndAccuracy, h] <;> omega

/-- One shift doubles the denominator. -/
theorem Represents.shiftRightOne {em : ExtendedMantissa} {x d : Nat} (hd : 0 < d)
    (h : Represents em x d) : Represents em.shiftRightOne x (d * 2) := by
  have hmod : x % (d * 2) = x % d + d * (x / d % 2) := Nat.mod_mul
  have hlt : x % d < d := Nat.mod_lt x hd
  have hbit : x / d % 2 = 0 ∨ x / d % 2 = 1 := Nat.mod_two_eq_zero_or_one _
  have hround := h.roundBit
  have hsticky := h.stickyBit
  refine ⟨?_, ?_, ?_⟩
  · show em.mantissa / 2 = x / (d * 2)
    rw [h.mantissa, Nat.div_div_eq_div_mul]
  · show (em.mantissa % 2 != 0) = true ↔ d * 2 ≤ 2 * (x % (d * 2))
    rw [h.mantissa, hmod, bne_iff_ne]
    rcases hbit with hbit | hbit <;> rw [hbit] <;> omega
  · show (em.roundBit || em.stickyBit) = true ↔ x % (d * 2) ≠ 0 ∧ 2 * (x % (d * 2)) ≠ d * 2
    rw [Bool.or_eq_true, hround, hsticky, hmod]
    rcases hbit with hbit | hbit <;> rw [hbit] <;> omega

theorem Represents.shiftRight {em : ExtendedMantissa} {x d : Nat} (hd : 0 < d)
    (h : Represents em x d) (k : Nat) : Represents (em >>> k) x (d * 2 ^ k) := by
  show Represents (k.repeat ExtendedMantissa.shiftRightOne em) x (d * 2 ^ k)
  induction k with
  | zero => simpa [Nat.repeat] using h
  | succ k ih =>
    rw [Nat.pow_succ, ← Nat.mul_assoc]
    exact ih.shiftRightOne (Nat.mul_pos hd (Nat.two_pow_pos k))

/-- The bits are all that rounding needs. -/
theorem Represents.roundedMantissa {em : ExtendedMantissa} {x d : Nat} (hd : 0 < d)
    (h : Represents em x d) : em.roundedMantissa = roundDiv x d := by
  obtain ⟨m, round, sticky⟩ := em
  obtain ⟨hm, hround, hsticky⟩ := h
  dsimp only at hm hround hsticky
  have hlt : x % d < d := Nat.mod_lt x hd
  unfold roundDiv
  dsimp only
  rw [← hm]
  cases round <;> cases sticky <;>
    simp only [ExtendedMantissa.roundedMantissa, ExtendedMantissa.accuracy,
      Accuracy.roundToNearestEven, Bool.false_eq_true, false_iff, true_iff] at hround hsticky ⊢
  · rw [if_pos (by omega)]
  · rw [if_pos (by omega)]
  · rw [if_neg (by omega), if_neg (by omega)]
    split
    · rename_i heven
      have := eq_of_beq heven
      omega
    · rename_i hodd
      have : m % 2 ≠ 0 := fun he => hodd (by simp [he])
      omega
  · rw [if_neg (by omega), if_pos (by omega)]

/-! ## Doubles -/

/-- A rounded mantissa of up to 53 bits with its exponent; if rounding up carried into one more
    bit, the mantissa is halved. -/
def settle (r : Nat) (e : Int) : UnpackedFloat :=
  if h : 0 < r / 2 ^ (r.log2 - 52) then
    .finite .positive (r / 2 ^ (r.log2 - 52)) (e + (r.log2 - 52 : Nat)) h
  else .zero .positive

theorem shift_toNat {m : Nat} {e : Int} (he : -1074 ≤ e) :
    (Format.binary64.targetExponent (totalExponent m e) - e).toNat = m.log2 - 52 := by
  simp only [Format.targetExponent, totalExponent, Format.mantissaBits, Format.minExponent]
  omega

/-- A mantissa that is exact loses only the bit that rounding carried into. -/
theorem settle_eq {r : Nat} {e : Int} (he : -1074 ≤ e) :
    (let (em, e') := shiftToTargetExponent Format.binary64 r e .exact
     if h : em.mantissa = 0 then UnpackedFloat.zero .positive
     else .finite .positive em.mantissa e' (Nat.pos_of_ne_zero h)) = settle r e := by
  have hexact : ((ExtendedMantissa.ofMantissaAndAccuracy r .exact) >>> (r.log2 - 52)).mantissa =
      r / 2 ^ (r.log2 - 52) := by
    have h := ((represents_quotient r Nat.one_pos).shiftRight Nat.one_pos (r.log2 - 52)).mantissa
    simpa [accuracyOfFraction, Nat.mod_one] using h
  unfold shiftToTargetExponent shiftToExponent settle
  simp only [shift_toNat he, hexact]
  by_cases h : r / 2 ^ (r.log2 - 52) = 0
  · rw [dif_pos h, dif_neg (by omega)]
  · rw [dif_neg h, dif_pos (by omega)]

/-- A quotient is rounded once, at the place where 53 bits are left. -/
theorem roundWithAccuracy_quotient (x : Nat) {d : Nat} {e : Int} (hd : 0 < d) (he : -1074 ≤ e) :
    roundWithAccuracy Format.binary64 .positive (x / d) e (accuracyOfFraction (x % d) d) =
      settle (roundDiv x (d * 2 ^ ((x / d).log2 - 52))) (e + ((x / d).log2 - 52 : Nat)) := by
  have hround := ((represents_quotient x hd).shiftRight hd ((x / d).log2 - 52)).roundedMantissa
    (Nat.mul_pos hd (Nat.two_pow_pos _))
  have hfirst : shiftToTargetExponent Format.binary64 (x / d) e (accuracyOfFraction (x % d) d) =
      (ExtendedMantissa.ofMantissaAndAccuracy (x / d) (accuracyOfFraction (x % d) d) >>>
        ((x / d).log2 - 52), e + ((x / d).log2 - 52 : Nat)) := by
    unfold shiftToTargetExponent shiftToExponent
    simp only [shift_toNat he]
  rw [← settle_eq (by omega), ← hround]
  unfold roundWithAccuracy
  rw [hfirst]

end FirmwareMatch.Decimal
