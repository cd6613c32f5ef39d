import FirmwareMatch.Decimal.Quotient
import FirmwareMatch.Proofs.Decimal.Rounding

/-
  Doubles that stand for shares.

  A share is the quotient of two counts, the smaller one above. It is rounded at the place where
  53 bits are left, and this place only moves up when the share grows; so a larger share never
  becomes a smaller double.

  Proved:
  * `unpack_pack_settle`: packing keeps a rounded share.
  * `div_unrounded`: the place at which a share is rounded.
  * `quotient_refl`, `le_quotient_of_le`: a share reaches itself, and a bound that a share reaches
    is reached by every larger share.
  * `quotient_eq_div`: for counts below `2 ^ 53` the quotient is the division of doubles.
-/

namespace FirmwareMatch.Decimal

open Float.Model Float.Model.UnpackedFloat

/-! ## Rounded mantissas -/

/-- What rounding a share leaves: up to 53 bits or one more after a carry, fewer than 53 only at
    the smallest exponent, and no exponent that is too large to be packed. -/
structure Settled (r : Nat) (e : Int) : Prop where
  bound : r ≤ 2 ^ 53
  low : -1074 ≤ e
  full : e = -1074 ∨ 2 ^ 52 ≤ r
  high : e ≤ 970

theorem settle_zero (e : Int) : settle 0 e = .zero .positive := by
  rfl

theorem settle_of_lt {r : Nat} {e : Int} (hpos : 0 < r) (h : r < 2 ^ 53) :
    settle r e = .finite .positive r e hpos := by
  have hlog : r.log2 - 52 = 0 := by
    have := (Nat.log2_lt (by omega : r ≠ 0)).mpr h
    omega
  simp [settle, hlog, hpos]

/-- A carry is the first mantissa of the next exponent. -/
theorem settle_carry (e : Int) :
    settle (2 ^ 53) e = .finite .positive (2 ^ 52) (e + 1) (by decide) := by
  have hlog : (2 ^ 53 : Nat).log2 - 52 = 1 := by rw [Nat.log2_two_pow]
  unfold settle
  simp only [hlog]
  rfl

theorem Settled.cases {r : Nat} {e : Int} (h : Settled r e) :
    r = 0 ∨ (0 < r ∧ r < 2 ^ 53) ∨ r = 2 ^ 53 := by
  have := h.bound
  omega

/-! ## Packing -/

theorem unpackSign_packComponents (b : BitVec 11) (m : BitVec 52) :
    unpackSign (packComponents Format.binary64 .positive b m) = 0#1 := by
  show (0#1 ++ b ++ m).extractLsb' 63 1 = 0#1
  rw [BitVec.extractLsb'_append_eq_of_le (by decide),
    BitVec.extractLsb'_append_eq_of_le (by decide)]
  rfl

theorem pack_subnormal {m : Nat} (hpos : 0 < m) (h : m < 2 ^ 52) :
    pack Format.binary64 (.finite .positive m (-1074) hpos) =
      packComponents Format.binary64 .positive 0#11 (BitVec.ofNat 52 m) := by
  have hlog : m.log2 < 52 := (Nat.log2_lt (by omega)).mpr h
  unfold UnpackedFloat.pack
  dsimp only
  rw [if_neg (by decide), if_neg (by show ¬ m.log2 + 1 = 1 + 52; omega)]

theorem pack_normal {m : Nat} {e : Int} (hpos : 0 < m) (hm : 2 ^ 52 ≤ m) (h : m < 2 ^ 53)
    (hhigh : e ≤ 971) :
    pack Format.binary64 (.finite .positive m e hpos) =
      packComponents Format.binary64 .positive (BitVec.ofNat 11 (e + 1075).toNat)
        (BitVec.ofNat 52 m) := by
  have hlog : m.log2 = 52 := (Nat.log2_eq_iff (by omega)).mpr ⟨hm, h⟩
  have hexponent : (e + 1023 + 52).toNat = (e + 1075).toNat := by omega
  unfold UnpackedFloat.pack
  dsimp only
  rw [if_neg (by show ¬ 2048 ≤ (e + 1023 + 52).toNat + 1; omega), if_pos (by rw [hlog]; rfl)]
  show packComponents Format.binary64 .positive (BitVec.ofNat 11 (e + 1023 + 52).toNat) _ = _
  rw [hexponent]

theorem unpack_pack_subnormal {m : Nat} (hpos : 0 < m) (h : m < 2 ^ 52) :
    unpack Format.binary64 (pack Format.binary64 (.finite .positive m (-1074) hpos)) =
      .finite .positive m (-1074) hpos := by
  have hval : (BitVec.ofNat 52 m).toNat = m := by
    rw [BitVec.toNat_ofNat, Nat.mod_eq_of_lt h]
  have hzero : BitVec.ofNat 52 m ≠ 0#52 := by
    intro heq
    have := congrArg BitVec.toNat heq
    rw [hval] at this
    simp at this
    omega
  rw [pack_subnormal hpos h]
  unfold UnpackedFloat.unpack
  simp only [unpackExponent_packComponents, unpackMantissa_packComponents,
    unpackSign_packComponents, hzero, hval, dif_neg, not_false_eq_true]
  rfl

theorem unpack_pack_normal {m : Nat} {e : Int} (hpos : 0 < m) (hm : 2 ^ 52 ≤ m)
    (h : m < 2 ^ 53) (hlow : -1074 ≤ e) (hhigh : e ≤ 971) :
    unpack Format.binary64 (pack Format.binary64 (.finite .positive m e hpos)) =
      .finite .positive m e hpos := by
  have hbits : (BitVec.ofNat 11 (e + 1075).toNat).toNat = (e + 1075).toNat := by
    rw [BitVec.toNat_ofNat, Nat.mod_eq_of_lt (by omega)]
  have hones : BitVec.ofNat 11 (e + 1075).toNat ≠ -1#11 := by
    intro heq
    have := congrArg BitVec.toNat heq
    rw [hbits] at this
    simp at this
    omega
  have hzero : BitVec.ofNat 11 (e + 1075).toNat ≠ 0#11 := by
    intro heq
    have := congrArg BitVec.toNat heq
    rw [hbits] at this
    simp at this
    omega
  -- the bit that packing leaves out stands in front again
  have hmantissa : (1#1 ++ BitVec.ofNat 52 m).toNat = m := by
    rw [BitVec.toNat_append, ← Nat.shiftLeft_add_eq_or_of_lt (BitVec.isLt _),
      BitVec.toNat_ofNat, Nat.shiftLeft_eq]
    simp
    omega
  rw [pack_normal hpos hm h hhigh]
  unfold UnpackedFloat.unpack
  simp only [unpackExponent_packComponents, unpackMantissa_packComponents,
    unpackSign_packComponents, hones, hzero, hbits, if_false]
  congr 1
  show ((e + 1075).toNat : Int) - (1023 + 52) = e
  omega

/-- Packing keeps what rounding has left. -/
theorem unpack_pack_settle {r : Nat} {e : Int} (h : Settled r e) :
    unpack Format.binary64 (pack Format.binary64 (settle r e)) = settle r e := by
  have hlow := h.low
  have hhigh := h.high
  rcases h.cases with rfl | ⟨hpos, hlt⟩ | rfl
  · rw [settle_zero]
    rfl
  · rw [settle_of_lt hpos hlt]
    cases Nat.lt_or_ge r (2 ^ 52) with
    | inl hsub =>
      obtain rfl : e = -1074 := by
        have := h.full
        omega
      exact unpack_pack_subnormal hpos hsub
    | inr hnormal => exact unpack_pack_normal hpos hnormal hlt hlow (by omega)
  · rw [settle_carry]
    exact unpack_pack_normal _ (Nat.le_refl _) (by decide) (by omega) (by omega)

/-! ## The order of shares -/

theorem le_finite_iff {m m' : Nat} {e e' : Int} (h : 0 < m) (h' : 0 < m') :
    UnpackedFloat.le (.finite .positive m e h) (.finite .positive m' e' h') = true ↔
      e < e' ∨ e = e' ∧ m ≤ m' := by
  show ((compare e e').then (compare m m')).isLE = true ↔ _
  rw [Ordering.isLE_then_iff_or, Int.compare_eq_lt, Int.compare_eq_eq, Nat.isLE_compare]

/-- A bound that a positive number reaches is reached by every larger one. -/
theorem le_finite_trans {x : UnpackedFloat} {m m' : Nat} {e e' : Int} (h : 0 < m) (h' : 0 < m')
    (hle : e < e' ∨ e = e' ∧ m ≤ m')
    (hx : UnpackedFloat.le x (.finite .positive m e h) = true) :
    UnpackedFloat.le x (.finite .positive m' e' h') = true := by
  cases x with
  | notANumber => exact hx
  | infinity s => cases s <;> exact hx
  | zero s => cases s <;> rfl
  | finite s n f hn =>
    cases s with
    | negative => rfl
    | positive =>
      rw [le_finite_iff] at hx ⊢
      omega

/-- What is at most zero is at most every positive number. -/
theorem le_finite_of_le_zero {x : UnpackedFloat} {m : Nat} {e : Int} (h : 0 < m)
    (hx : UnpackedFloat.le x (.zero .positive) = true) :
    UnpackedFloat.le x (.finite .positive m e h) = true := by
  cases x with
  | notANumber => exact hx
  | infinity s => cases s <;> exact hx
  | zero s => cases s <;> rfl
  | finite s n f hn =>
    cases s with
    | negative => rfl
    | positive => exact absurd hx Bool.false_ne_true

/-- Rounded mantissas are ordered by their exponents first. -/
theorem le_settle_of_le {x : UnpackedFloat} {r r' : Nat} {e e' : Int} (h : Settled r e)
    (h' : Settled r' e') (hle : e < e' ∨ e = e' ∧ r ≤ r')
    (hx : UnpackedFloat.le x (settle r e) = true) :
    UnpackedFloat.le x (settle r' e') = true := by
  have hlow := h.low
  have hfull' := h'.full
  rcases h.cases with rfl | ⟨hpos, hlt⟩ | rfl
  · rw [settle_zero] at hx
    rcases h'.cases with rfl | ⟨hpos', hlt'⟩ | rfl
    · exact hx
    · rw [settle_of_lt hpos' hlt']
      exact le_finite_of_le_zero _ hx
    · rw [settle_carry]
      exact le_finite_of_le_zero _ hx
  · rw [settle_of_lt hpos hlt] at hx
    rcases h'.cases with rfl | ⟨hpos', hlt'⟩ | rfl
    · omega
    · rw [settle_of_lt hpos' hlt']
      exact le_finite_trans _ _ hle hx
    · rw [settle_carry]
      exact le_finite_trans _ _ (by omega) hx
  · rw [settle_carry] at hx
    rcases h'.cases with rfl | ⟨hpos', hlt'⟩ | rfl
    · omega
    · rw [settle_of_lt hpos' hlt']
      exact le_finite_trans _ _ (by omega) hx
    · rw [settle_carry]
      exact le_finite_trans _ _ (by omega) hx

/-! ## The place of rounding -/

/-- The number of binary places at which the share of `m` in `t` is rounded: as many as leave 53
    bits, but no more than the smallest exponent allows. -/
structure Placed (m t j : Nat) : Prop where
  bound : j ≤ 1074
  lt : m * 2 ^ j < 2 ^ 53 * t
  full : j = 1074 ∨ 2 ^ 52 * t ≤ m * 2 ^ j

theorem Placed.settled {m t j : Nat} (ht : 0 < t) (h : Placed m t j) :
    Settled (roundDiv (m * 2 ^ j) t) (-j) := by
  have hbound := h.bound
  refine ⟨roundDiv_le ht (Nat.le_of_lt h.lt), by omega, ?_, by omega⟩
  cases h.full with
  | inl hj => exact Or.inl (by omega)
  | inr hge => exact Or.inr (le_roundDiv ht hge)

/-- A larger share is rounded at as many places or fewer. -/
theorem Placed.le {m t j m' t' j' : Nat} (ht : 0 < t) (h : Placed m t j)
    (h' : Placed m' t' j') (hle : m * t' ≤ m' * t) : j' ≤ j := by
  by_contra hlt
  have hfull : 2 ^ 52 * t ≤ m * 2 ^ j := by
    have hbound := h'.bound
    exact h.full.resolve_left (by omega)
  have hpow : 2 ^ (j + 1) ≤ 2 ^ j' := Nat.pow_le_pow_right (by decide) (by omega)
  have hcontra : 2 ^ 53 * t * t' < 2 ^ 53 * t * t' :=
    calc 2 ^ 53 * t * t' = 2 ^ 52 * t * (2 * t') := by ring
      _ ≤ m * 2 ^ j * (2 * t') := Nat.mul_le_mul_right _ hfull
      _ = m * t' * 2 ^ (j + 1) := by ring
      _ ≤ m' * t * 2 ^ j' := Nat.mul_le_mul hle hpow
      _ = m' * 2 ^ j' * t := Nat.mul_right_comm _ _ _
      _ < 2 ^ 53 * t' * t := Nat.mul_lt_mul_of_pos_right h'.lt ht
      _ = 2 ^ 53 * t * t' := Nat.mul_right_comm _ _ _
  exact Nat.lt_irrefl _ hcontra

/-- The rounded mantissas of two shares are ordered as the shares are. -/
theorem Placed.settle_le {m t j m' t' j' : Nat} (ht : 0 < t) (ht' : 0 < t') (h : Placed m t j)
    (h' : Placed m' t' j') (hle : m * t' ≤ m' * t) :
    (-j : Int) < -j' ∨ (-j : Int) = -j' ∧
      roundDiv (m * 2 ^ j) t ≤ roundDiv (m' * 2 ^ j') t' := by
  cases Nat.lt_or_eq_of_le (h.le ht h' hle) with
  | inl hlt => exact Or.inl (by omega)
  | inr heq =>
    subst heq
    refine Or.inr ⟨rfl, roundDiv_mono ht ht' ?_⟩
    rw [Nat.mul_right_comm, Nat.mul_right_comm m']
    exact Nat.mul_le_mul_right _ hle

theorem log2_le_log2 {m t : Nat} (hm : 0 < m) (hle : m ≤ t) : m.log2 ≤ t.log2 := by
  have hm2 := (Nat.log2_eq_iff (Nat.ne_of_gt hm)).mp rfl
  rw [Nat.le_log2 (by omega)]
  omega

/-- The shift before a division: enough for 53 bits, unless it is cut short. -/
def divisionShift (m t : Nat) : Nat :=
  min (t.log2 + 53 - m.log2) 1074

/-- The shifted division leaves a quotient of 53 or 54 bits, unless the shift is cut short. -/
theorem divisionShift_bounds {m t : Nat} (hm : 0 < m) (hle : m ≤ t) :
    m * 2 ^ divisionShift m t < 2 ^ 54 * t ∧
      (divisionShift m t = 1074 ∨ 2 ^ 52 * t ≤ m * 2 ^ divisionShift m t) := by
  have hm2 := (Nat.log2_eq_iff (Nat.ne_of_gt hm)).mp rfl
  have ht2 := (Nat.log2_eq_iff (by omega : t ≠ 0)).mp rfl
  have hlog : m.log2 ≤ t.log2 := log2_le_log2 hm hle
  generalize hs : divisionShift m t = s
  unfold divisionShift at hs
  constructor
  · calc m * 2 ^ s < 2 ^ (m.log2 + 1) * 2 ^ s :=
          Nat.mul_lt_mul_of_pos_right hm2.2 (Nat.two_pow_pos s)
      _ = 2 ^ (s + m.log2 + 1) := by ring
      _ ≤ 2 ^ (t.log2 + 53 + 1) := Nat.pow_le_pow_right (by decide) (by omega)
      _ = 2 ^ 54 * 2 ^ t.log2 := by ring
      _ ≤ 2 ^ 54 * t := Nat.mul_le_mul_left _ ht2.1
  · by_cases hcut : s = 1074
    · exact Or.inl hcut
    · refine Or.inr ?_
      calc 2 ^ 52 * t ≤ 2 ^ 52 * 2 ^ (t.log2 + 1) := Nat.mul_le_mul_left _ (Nat.le_of_lt ht2.2)
        _ = 2 ^ (t.log2 + 53) := by ring
        _ = 2 ^ (s + m.log2) := by rw [show t.log2 + 53 = s + m.log2 by omega]
        _ = 2 ^ m.log2 * 2 ^ s := by ring
        _ ≤ m * 2 ^ s := Nat.mul_le_mul_right _ hm2.1

theorem log2_mul_two_pow {n : Nat} (hn : 0 < n) (k : Nat) : (n * 2 ^ k).log2 = n.log2 + k := by
  have hn2 := (Nat.log2_eq_iff (Nat.ne_of_gt hn)).mp rfl
  rw [Nat.log2_eq_iff (Nat.ne_of_gt (Nat.mul_pos hn (Nat.two_pow_pos k)))]
  constructor
  · rw [Nat.pow_add]
    exact Nat.mul_le_mul_right _ hn2.1
  · rw [Nat.add_right_comm, Nat.pow_add]
    exact Nat.mul_lt_mul_of_pos_right hn2.2 (Nat.two_pow_pos k)

/-- The quotient of two doubles that stand for counts, in whatever way their mantissas are
    scaled. -/
theorem div_scaled {m t a b : Nat} (hm : 0 < m) (hle : m ≤ t)
    (hab : (a : Int) ≤ b + divisionShift m t) (hpos : 0 < m * 2 ^ a) (hpos' : 0 < t * 2 ^ b) :
    UnpackedFloat.div Format.binary64 (.finite .positive (m * 2 ^ a) (-a) hpos)
        (.finite .positive (t * 2 ^ b) (-b) hpos') =
      settle (roundDiv (m * 2 ^ divisionShift m t)
          (t * 2 ^ ((m * 2 ^ divisionShift m t / t).log2 - 52)))
        (-divisionShift m t + ((m * 2 ^ divisionShift m t / t).log2 - 52 : Nat)) := by
  have ht : 0 < t := by omega
  have hlog : m.log2 ≤ t.log2 := log2_le_log2 hm hle
  have htarget : min (-(a : Int) - -b) (Format.binary64.targetExponent
      (totalExponent (m * 2 ^ a) (-a) - totalExponent (t * 2 ^ b) (-b))) =
      -divisionShift m t := by
    simp only [Format.targetExponent, totalExponent, Format.mantissaBits, Format.minExponent,
      log2_mul_two_pow hm, log2_mul_two_pow ht]
    unfold divisionShift at hab ⊢
    omega
  have hshift : (m * 2 ^ a) <<< (-(a : Int) - -b - -divisionShift m t).toNat =
      m * 2 ^ divisionShift m t * 2 ^ b := by
    rw [Nat.shiftLeft_eq, Nat.mul_assoc, Nat.mul_assoc, ← Nat.pow_add, ← Nat.pow_add]
    congr 2
    omega
  have hdivision : UnpackedFloat.div Format.binary64 (.finite .positive (m * 2 ^ a) (-a) hpos)
      (.finite .positive (t * 2 ^ b) (-b) hpos') =
      roundWithAccuracy Format.binary64 .positive (m * 2 ^ divisionShift m t * 2 ^ b / (t * 2 ^ b))
        (-divisionShift m t) (accuracyOfFraction (m * 2 ^ divisionShift m t * 2 ^ b %
          (t * 2 ^ b)) (t * 2 ^ b)) := by
    unfold UnpackedFloat.div divCore
    simp only [htarget, hshift]
    rfl
  have hcut : divisionShift m t ≤ 1074 := Nat.min_le_right _ _
  rw [hdivision, roundWithAccuracy_quotient _ hpos' (by omega),
    Nat.mul_div_mul_right _ _ (Nat.two_pow_pos b), Nat.mul_right_comm t,
    roundDiv_mul (Nat.mul_pos ht (Nat.two_pow_pos _)) (Nat.two_pow_pos b)]

theorem unrounded_of_pos {n : Nat} (hn : 0 < n) :
    unrounded n = .finite .positive (n * 2 ^ 0) (-(0 : Nat)) (by omega) := by
  simp [unrounded, Nat.ne_of_gt hn]

theorem unrounded_zero : unrounded 0 = .zero .positive := by
  rfl

/-- A share is rounded once, at its place. -/
theorem div_unrounded {m t : Nat} (ht : 0 < t) (hle : m ≤ t) :
    ∃ j, Placed m t j ∧ UnpackedFloat.div Format.binary64 (unrounded m) (unrounded t) =
      settle (roundDiv (m * 2 ^ j) t) (-j) := by
  rcases Nat.eq_zero_or_pos m with rfl | hm
  · refine ⟨1074, ⟨Nat.le_refl _, by rw [Nat.zero_mul]; omega, Or.inl rfl⟩, ?_⟩
    have hzero : roundDiv 0 t = 0 := Nat.le_zero.mp (roundDiv_le ht (Nat.zero_le _))
    rw [Nat.zero_mul, hzero, settle_zero, unrounded_zero, unrounded_of_pos ht]
    rfl
  obtain ⟨hlt, hfull⟩ := divisionShift_bounds hm hle
  have hcut : 53 ≤ divisionShift m t ∧ divisionShift m t ≤ 1074 := by
    have hlog : m.log2 ≤ t.log2 := log2_le_log2 hm hle
    unfold divisionShift
    omega
  rw [unrounded_of_pos hm, unrounded_of_pos ht, div_scaled hm hle (by omega)]
  generalize divisionShift m t = s at *
  cases Nat.lt_or_ge (m * 2 ^ s) (2 ^ 53 * t) with
  | inl hsmall =>
    -- 53 bits at most: nothing is shifted out again
    have hk : (m * 2 ^ s / t).log2 - 52 = 0 := by
      have hquot : m * 2 ^ s / t < 2 ^ 53 := Nat.div_lt_of_lt_mul (by rwa [Nat.mul_comm t])
      have : (m * 2 ^ s / t).log2 < 53 := by
        by_cases hzero : m * 2 ^ s / t = 0
        · rw [hzero]
          decide
        · exact (Nat.log2_lt hzero).mpr hquot
      omega
    refine ⟨s, ⟨hcut.2, hsmall, hfull⟩, ?_⟩
    rw [hk, Nat.pow_zero, Nat.mul_one]
    congr 1
    omega
  | inr hlarge =>
    have hk : (m * 2 ^ s / t).log2 - 52 = 1 := by
      have hquot : 2 ^ 53 ≤ m * 2 ^ s / t ∧ m * 2 ^ s / t < 2 ^ 54 :=
        ⟨(Nat.le_div_iff_mul_le ht).mpr hlarge, Nat.div_lt_of_lt_mul (by rwa [Nat.mul_comm t])⟩
      have := (Nat.log2_eq_iff (by omega)).mpr hquot
      omega
    obtain ⟨j, rfl⟩ : ∃ j, s = j + 1 := ⟨s - 1, by omega⟩
    rw [Nat.pow_succ, ← Nat.mul_assoc] at hlt hlarge
    refine ⟨j, ⟨by omega, by omega, Or.inr (by omega)⟩, ?_⟩
    rw [hk, Nat.pow_one, Nat.pow_succ, ← Nat.mul_assoc, roundDiv_mul ht (by decide)]
    congr 1
    omega

/-! ## Shares as doubles -/

theorem quotient_zero {t : Nat} (ht : 0 < t) : quotient 0 t = 0.0 := by
  unfold quotient
  rw [unrounded_zero, unrounded_of_pos ht]
  rfl

theorem le_ofModel_pack_iff {x : Float} {r : Nat} {e : Int} (h : Settled r e) :
    x ≤ Float.ofModel (.pack (settle r e)) ↔
      UnpackedFloat.le x.toModel.unpack (settle r e) = true := by
  show decide (UnpackedFloat.le x.toModel.unpack (UnpackedFloat.unpack Format.binary64
    (UnpackedFloat.pack Format.binary64 (settle r e))) = true) = true ↔ _
  rw [decide_eq_true_iff, unpack_pack_settle h]

/-- A share is a number, so it is not beyond itself. -/
theorem quotient_refl {m t : Nat} (ht : 0 < t) (hle : m ≤ t) : quotient m t ≤ quotient m t := by
  obtain ⟨j, hj, hdiv⟩ := div_unrounded ht hle
  have hsettled := hj.settled ht
  unfold quotient
  rw [hdiv, le_ofModel_pack_iff hsettled]
  show UnpackedFloat.le (unpack Format.binary64 (pack Format.binary64 (settle _ _))) _ = true
  rw [unpack_pack_settle hsettled]
  unfold settle
  split
  · rename_i hpos
    exact (le_finite_iff hpos hpos).mpr (Or.inr ⟨rfl, Nat.le_refl _⟩)
  · rfl

/-- A bound that a share reaches is reached by every larger share. -/
theorem le_quotient_of_le {x : Float} {m t m' t' : Nat} (ht : 0 < t) (ht' : 0 < t') (hm : m ≤ t)
    (hm' : m' ≤ t') (hle : m * t' ≤ m' * t) (hx : x ≤ quotient m t) : x ≤ quotient m' t' := by
  obtain ⟨j, hj, hdiv⟩ := div_unrounded ht hm
  obtain ⟨j', hj', hdiv'⟩ := div_unrounded ht' hm'
  unfold quotient at hx ⊢
  rw [hdiv, le_ofModel_pack_iff (hj.settled ht)] at hx
  rw [hdiv', le_ofModel_pack_iff (hj'.settled ht')]
  exact le_settle_of_le (hj.settled ht) (hj'.settled ht') (hj.settle_le ht ht' hj' hle) hx

/-! ## Division of doubles -/

/-- A mantissa of 53 bits that is followed by zeros is rounded to itself. -/
theorem roundWithAccuracy_exact {m k : Nat} {e : Int} (hm : 2 ^ 52 ≤ m) (h : m < 2 ^ 53)
    (he : -1074 ≤ e) :
    roundWithAccuracy Format.binary64 .positive (m * 2 ^ k) e .exact =
      .finite .positive m (e + k) (by omega) := by
  have hpos : 0 < m := by omega
  have hlog : (m * 2 ^ k / 1).log2 - 52 = k := by
    rw [Nat.div_one, log2_mul_two_pow hpos, (Nat.log2_eq_iff (by omega)).mpr ⟨hm, h⟩]
    omega
  have hround := roundWithAccuracy_quotient (m * 2 ^ k) Nat.one_pos he
  rw [hlog, roundDiv_mul Nat.one_pos (Nat.two_pow_pos k)] at hround
  have hone : roundDiv m 1 = m := by simp [roundDiv, Nat.mod_one]
  rw [hone, settle_of_lt hpos h, Nat.div_one, Nat.mod_one] at hround
  exact hround

/-- A count scaled to 53 bits. -/
theorem scaled_bounds {n : Nat} (hn : 0 < n) (h : n < 2 ^ 53) :
    2 ^ 52 ≤ n * 2 ^ (52 - n.log2) ∧ n * 2 ^ (52 - n.log2) < 2 ^ 53 := by
  have hlog : n.log2 < 53 := (Nat.log2_lt (by omega)).mpr h
  refine (Nat.log2_eq_iff (Nat.ne_of_gt (Nat.mul_pos hn (Nat.two_pow_pos _)))).mp ?_
  rw [log2_mul_two_pow hn]
  omega

theorem unpackedOfNat_eq {n : Nat} (hn : 0 < n) (h : n < 2 ^ 53)
    (hpos : 0 < n * 2 ^ (52 - n.log2)) :
    UnpackedFloat.ofNat Format.binary64 n =
      .finite .positive (n * 2 ^ (52 - n.log2)) (-(52 - n.log2 : Nat)) hpos := by
  have hlog : n.log2 < 53 := (Nat.log2_lt (by omega)).mpr h
  have hshift : (0 - Format.binary64.targetExponent (totalExponent n 0)).toNat =
      52 - n.log2 := by
    simp only [Format.targetExponent, totalExponent, Format.mantissaBits, Format.minExponent]
    omega
  have hround := roundWithAccuracy_exact (k := 0) (e := 0 - (52 - n.log2 : Nat))
    (scaled_bounds hn h).1 (scaled_bounds hn h).2 (by omega)
  rw [Nat.pow_zero, Nat.mul_one] at hround
  unfold UnpackedFloat.ofNat UnpackedFloat.ofInt UnpackedFloat.normalize
  rw [Int.compare_eq_gt.mpr (by omega)]
  simp only [UnpackedFloat.round, Int.toNat_natCast, decreaseExponent, hshift, Nat.shiftLeft_eq]
  rw [hround]
  congr 1
  omega

/-- The double of a count below `2 ^ 53` is the count, scaled to 53 bits. -/
theorem unpack_ofNat {n : Nat} (hn : 0 < n) (h : n < 2 ^ 53)
    (hpos : 0 < n * 2 ^ (52 - n.log2)) :
    (Float.ofNat n).toModel.unpack =
      .finite .positive (n * 2 ^ (52 - n.log2)) (-(52 - n.log2 : Nat)) hpos := by
  obtain ⟨hlow, hhigh⟩ := scaled_bounds hn h
  have hpacked := unpack_pack_normal hpos hlow hhigh
    (show -1074 ≤ (-(52 - n.log2 : Nat) : Int) by omega) (by omega)
  have hcount : n.toUInt64.toFloat.toModel.unpack =
      .finite .positive (n * 2 ^ (52 - n.log2)) (-(52 - n.log2 : Nat)) hpos := by
    have hval : n.toUInt64.toNat = n := Nat.mod_eq_of_lt (by omega)
    show UnpackedFloat.unpack Format.binary64 (UnpackedFloat.pack Format.binary64
      (UnpackedFloat.ofNat Format.binary64 n.toUInt64.toNat)) = _
    rw [hval, unpackedOfNat_eq hn h hpos, hpacked]
  have hone : (Float.ofBits 0x3FF0000000000000).toModel.unpack =
      .finite .positive (2 ^ 52) (-52) (by decide) := by rfl
  -- a count becomes a decimal number without places, which is a product with one
  have hproduct : UnpackedFloat.mul Format.binary64 n.toUInt64.toFloat.toModel.unpack
      (Float.ofBits 0x3FF0000000000000).toModel.unpack =
      .finite .positive (n * 2 ^ (52 - n.log2)) (-(52 - n.log2 : Nat)) hpos := by
    have hround := roundWithAccuracy_exact (k := 52) (e := -(52 - n.log2 : Nat) + -52)
      hlow hhigh (by omega)
    rw [hcount, hone]
    refine Eq.trans hround ?_
    congr 1
    omega
  show (Float.ofScientific n false 0).toModel.unpack = _
  unfold Float.ofScientific
  dsimp only
  rw [dif_pos (by omega)]
  show UnpackedFloat.unpack Format.binary64 (UnpackedFloat.pack Format.binary64
    (UnpackedFloat.mul Format.binary64 n.toUInt64.toFloat.toModel.unpack
      (Float.ofBits 0x3FF0000000000000).toModel.unpack)) = _
  rw [hproduct, hpacked]

/-- For counts that are doubles themselves, the share is their quotient as doubles. -/
theorem quotient_eq_div {m t : Nat} (ht : 0 < t) (hle : m ≤ t) (h : t < 2 ^ 53) :
    quotient m t = Float.ofNat m / Float.ofNat t := by
  have hpos' : 0 < t * 2 ^ (52 - t.log2) := Nat.mul_pos ht (Nat.two_pow_pos _)
  show quotient m t = Float.ofModel (.pack (UnpackedFloat.div Format.binary64
    (Float.ofNat m).toModel.unpack (Float.ofNat t).toModel.unpack))
  unfold quotient
  congr 2
  rw [unpack_ofNat ht h hpos']
  rcases Nat.eq_zero_or_pos m with rfl | hm
  · have hzero : (Float.ofNat 0).toModel.unpack = .zero .positive := by rfl
    rw [hzero, unrounded_zero, unrounded_of_pos ht]
    rfl
  · have hpos : 0 < m * 2 ^ (52 - m.log2) := Nat.mul_pos hm (Nat.two_pow_pos _)
    have hshift : ((52 - m.log2 : Nat) : Int) ≤ (52 - t.log2 : Nat) + divisionShift m t := by
      have hlog : m.log2 ≤ t.log2 := log2_le_log2 hm hle
      have hlog' : t.log2 < 53 := (Nat.log2_lt (by omega)).mpr h
      unfold divisionShift
      omega
    rw [unpack_ofNat hm (by omega) hpos, div_scaled hm hle hshift, unrounded_of_pos hm,
      unrounded_of_pos ht, div_scaled hm hle (by omega)]

end FirmwareMatch.Decimal
