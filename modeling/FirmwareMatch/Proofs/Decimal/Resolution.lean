import FirmwareMatch.Decimal.Order
import FirmwareMatch.Proofs.Decimal.Quotient

/-
  Shares in the total order of doubles.

  The bits of a rounded share are its exponent above the smallest one, with its mantissa behind it;
  so shares stand in the total order as they are ordered as fractions, and two of them may stand at
  one place. A share of at most one is rounded behind 52 binary places or more, so it moves by at
  most `2 ^ (-53)`. Two fractions that differ are at least one over the product of their
  denominators apart. If this product is below `2 ^ 52`, different shares are therefore different
  doubles.

  Proved:
  * `toBits_settle`: the bits of a rounded share.
  * `orderKey_quotient_mono`: a larger share does not stand before a smaller one.
  * `value_settle`, `Placed.near`: how far a rounded share is from the share.
  * `mul_eq_mul_of_quotient_eq`: shares that are one double are the same.
  * `orderKey_quotient_pos`: shares of something do not vanish.
-/

namespace FirmwareMatch.Decimal

open Float.Model Float.Model.UnpackedFloat

/-! ## Bits -/

theorem toNat_packComponents (b : BitVec 11) (m : BitVec 52) :
    (packComponents Format.binary64 .positive b m).toNat = b.toNat * 2 ^ 52 + m.toNat := by
  show (0#1 ++ b ++ m).toNat = _
  rw [BitVec.toNat_append, BitVec.toNat_append,
    ← Nat.shiftLeft_add_eq_or_of_lt (BitVec.isLt m), Nat.shiftLeft_eq]
  simp

theorem toNat_pack_normal {m : Nat} {e : Int} (hpos : 0 < m) (hm : 2 ^ 52 ≤ m) (h : m < 2 ^ 53)
    (hlow : -1074 ≤ e) (hhigh : e ≤ 971) :
    (pack Format.binary64 (.finite .positive m e hpos)).toNat =
      (e + 1074).toNat * 2 ^ 52 + m := by
  rw [pack_normal hpos hm h hhigh, toNat_packComponents, BitVec.toNat_ofNat, BitVec.toNat_ofNat,
    Nat.mod_eq_of_lt (show (e + 1075).toNat < 2 ^ 11 by omega)]
  omega

/-- The bits of a rounded share: a carry or a mantissa that is not full needs no case of its own. -/
theorem toBits_settle {r : Nat} {e : Int} (h : Settled r e) :
    (Float.ofModel (.pack (settle r e))).toBits.toNat = (e + 1074).toNat * 2 ^ 52 + r := by
  have hlow := h.low
  have hhigh := h.high
  have hfull := h.full
  show (pack Format.binary64 (settle r e)).toNat = _
  rcases h.cases with rfl | ⟨hpos, hlt⟩ | rfl
  · obtain rfl : e = -1074 := by omega
    rfl
  · rw [settle_of_lt hpos hlt]
    cases Nat.lt_or_ge r (2 ^ 52) with
    | inl hsub =>
      obtain rfl : e = -1074 := by omega
      rw [pack_subnormal hpos hsub, toNat_packComponents, BitVec.toNat_ofNat, BitVec.toNat_ofNat,
        Nat.mod_eq_of_lt hsub]
      rfl
    | inr hnormal => exact toNat_pack_normal hpos hnormal hlt hlow (by omega)
  · rw [settle_carry, toNat_pack_normal _ (Nat.le_refl _) (by decide) (by omega) (by omega)]
    omega

theorem orderKey_settle {r : Nat} {e : Int} (h : Settled r e) :
    orderKey (.ofModel (.pack (settle r e))) = ((e + 1074).toNat * 2 ^ 52 + r : Nat) := by
  have hbound := h.bound
  have hhigh := h.high
  unfold orderKey
  rw [toBits_settle h]
  exact if_pos (by omega)

/-- Rounded shares are ordered by their exponents first. -/
theorem orderKey_settle_mono {r r' : Nat} {e e' : Int} (h : Settled r e) (h' : Settled r' e')
    (hle : e < e' ∨ e = e' ∧ r ≤ r') :
    orderKey (.ofModel (.pack (settle r e))) ≤ orderKey (.ofModel (.pack (settle r' e'))) := by
  have hbound := h.bound
  have hlow := h.low
  have hfull' := h'.full
  rw [orderKey_settle h, orderKey_settle h']
  omega

/-! ## Distances -/

/-- The number that a double stands for; zero if it stands for none. -/
def value : UnpackedFloat → ℚ
  | .finite .positive m e _ => m * 2 ^ e
  | .finite .negative m e _ => -(m * 2 ^ e)
  | _ => 0

/-- A carry does not change the number. -/
theorem value_settle {r : Nat} {e : Int} (h : Settled r e) : value (settle r e) = r * 2 ^ e := by
  rcases h.cases with rfl | ⟨hpos, hlt⟩ | rfl
  · rw [settle_zero]
    simp [value]
  · rw [settle_of_lt hpos hlt]
    rfl
  · rw [settle_carry]
    show ((2 ^ 52 : Nat) : ℚ) * 2 ^ (e + 1) = ((2 ^ 53 : Nat) : ℚ) * 2 ^ e
    rw [zpow_add_one₀ two_ne_zero]
    push_cast
    ring

/-- A share of at most one is rounded behind 52 places or more. -/
theorem Placed.le_places {m t j : Nat} (h : Placed m t j) (ht : 0 < t) (hle : m ≤ t) : 52 ≤ j := by
  rcases h.full with hj | hfull
  · omega
  · have hpow : 2 ^ 52 * t ≤ 2 ^ j * t :=
      calc 2 ^ 52 * t ≤ m * 2 ^ j := hfull
        _ ≤ t * 2 ^ j := Nat.mul_le_mul_right _ hle
        _ = 2 ^ j * t := Nat.mul_comm _ _
    exact (Nat.pow_le_pow_iff_right (by decide)).mp (Nat.le_of_mul_le_mul_right hpow ht)

/-- A rounded share is near the share. -/
theorem Placed.near {m t j : Nat} (h : Placed m t j) (ht : 0 < t) (hle : m ≤ t) :
    |(roundDiv (m * 2 ^ j) t : ℚ) * 2 ^ (-j : ℤ) - m / t| ≤ 1 / 2 ^ 53 := by
  obtain ⟨hlow, hhigh⟩ := roundDiv_near (m * 2 ^ j) t ht
  generalize roundDiv (m * 2 ^ j) t = r at *
  have hpos : (0 : ℚ) < t := by exact_mod_cast ht
  have hlow : 2 * (m * 2 ^ j) ≤ (2 * r + 1) * (t : ℚ) := by exact_mod_cast hlow
  have hhigh : 2 * r * (t : ℚ) ≤ 2 * (m * 2 ^ j) + t := by exact_mod_cast hhigh
  have hunit : (1 : ℚ) / (2 * 2 ^ j) ≤ 1 / 2 ^ 53 := by
    have hplaces : (2 : ℚ) ^ 53 ≤ 2 * 2 ^ j := by
      rw [← pow_succ']
      exact pow_le_pow_right₀ one_le_two (Nat.succ_le_succ (h.le_places ht hle))
    exact one_div_le_one_div_of_le (by positivity) hplaces
  refine le_trans ?_ hunit
  have hshare : (r : ℚ) * 2 ^ (-j : ℤ) - m / t = (r * t - m * 2 ^ j) / (2 ^ j * t) := by
    rw [zpow_neg, zpow_natCast]
    field_simp
  have hhalf : |(r * t - m * 2 ^ j : ℚ)| ≤ t / 2 := by
    rw [abs_le]
    constructor <;> linarith
  rw [hshare, abs_div, abs_of_pos (by positivity : (0 : ℚ) < 2 ^ j * t)]
  calc |(r * t - m * 2 ^ j : ℚ)| / (2 ^ j * t) ≤ t / 2 / (2 ^ j * t) := by gcongr
    _ = 1 / (2 * 2 ^ j) := by field_simp

/-- Different fractions are at least one over the product of their denominators apart. -/
theorem one_div_le_abs_sub {m t m' t' : Nat} (ht : 0 < t) (ht' : 0 < t')
    (hne : m * t' ≠ m' * t) : (1 : ℚ) / (t * t' : Nat) ≤ |(m : ℚ) / t - m' / t'| := by
  have hpos : (0 : ℚ) < t := by exact_mod_cast ht
  have hpos' : (0 : ℚ) < t' := by exact_mod_cast ht'
  have hint : (1 : ℚ) ≤ |(m * t' - m' * t : ℚ)| := by
    have hsub : ((m * t' : Nat) : Int) - (m' * t : Nat) ≠ 0 := by omega
    exact_mod_cast Int.one_le_abs hsub
  have hsub : (m : ℚ) / t - m' / t' = (m * t' - m' * t) / (t * t' : Nat) := by
    push_cast
    field_simp
  rw [hsub, abs_div, Nat.abs_cast]
  gcongr

/-! ## Shares as doubles -/

section Quotients

variable {m t m' t' : Nat} (ht : 0 < t) (ht' : 0 < t') (hm : m ≤ t) (hm' : m' ≤ t')

include ht ht' hm hm'

/-- A larger share does not stand before a smaller one. -/
theorem orderKey_quotient_mono (hle : m * t' ≤ m' * t) :
    orderKey (quotient m t) ≤ orderKey (quotient m' t') := by
  obtain ⟨j, hj, hdiv⟩ := div_unrounded ht hm
  obtain ⟨j', hj', hdiv'⟩ := div_unrounded ht' hm'
  unfold quotient
  rw [hdiv, hdiv']
  exact orderKey_settle_mono (hj.settled ht) (hj'.settled ht') (hj.settle_le ht ht' hj' hle)

/-- Shares that are one double are the same, if their denominators are small enough. -/
theorem mul_eq_mul_of_quotient_eq (hsmall : t * t' < 2 ^ 52) (heq : quotient m t = quotient m' t') :
    m * t' = m' * t := by
  obtain ⟨j, hj, hdiv⟩ := div_unrounded ht hm
  obtain ⟨j', hj', hdiv'⟩ := div_unrounded ht' hm'
  by_contra hne
  -- one double stands for one number, which is near both shares
  have hvalue : value (settle (roundDiv (m * 2 ^ j) t) (-j)) =
      value (settle (roundDiv (m' * 2 ^ j') t') (-j')) := by
    unfold quotient at heq
    rw [hdiv, hdiv'] at heq
    have hunpack := congrArg (fun x : Float => value x.toModel.unpack) heq
    change value (unpack Format.binary64 (pack Format.binary64 _)) =
      value (unpack Format.binary64 (pack Format.binary64 _)) at hunpack
    rwa [unpack_pack_settle (hj.settled ht), unpack_pack_settle (hj'.settled ht')] at hunpack
  rw [value_settle (hj.settled ht), value_settle (hj'.settled ht')] at hvalue
  have hnear := hj.near ht hm
  have hnear' := hj'.near ht' hm'
  rw [hvalue, abs_sub_comm] at hnear
  have hapart : (1 : ℚ) / 2 ^ 52 < 1 / (t * t' : Nat) := by
    apply one_div_lt_one_div_of_lt
    · exact_mod_cast Nat.mul_pos ht ht'
    · exact_mod_cast hsmall
  have htriangle := abs_sub_le ((m : ℚ) / t)
    (roundDiv (m' * 2 ^ j') t' * 2 ^ (-j' : ℤ)) (m' / t')
  have hgap := one_div_le_abs_sub ht ht' hne
  have hunits : (1 : ℚ) / 2 ^ 53 + 1 / 2 ^ 53 = 1 / 2 ^ 52 := by norm_num
  linarith

end Quotients

/-- A share of something stands behind zero, unless its denominator is beyond all bounds. -/
theorem orderKey_quotient_pos {m t : Nat} (hm : 0 < m) (hle : m ≤ t) (ht : t ≤ 2 ^ 256) :
    orderKey 0.0 < orderKey (quotient m t) := by
  have hleast : orderKey 0.0 < orderKey (quotient 1 (2 ^ 256)) := by decide +kernel
  refine Int.lt_of_lt_of_le hleast ?_
  exact orderKey_quotient_mono (by decide) (by omega) (by decide) hle
    (by rw [Nat.one_mul]; exact Nat.le_trans ht (Nat.le_mul_of_pos_left _ hm))

end FirmwareMatch.Decimal
