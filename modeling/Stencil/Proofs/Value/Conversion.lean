import Stencil.Proofs.Value.Double
import Stencil.Proofs.Value.Nearest

/-! The double of a whole number is the nearest one. Rounding comes down to a quotient that is
rounded to even, whichever shift the conversion starts from: an integer below `2 ^ 53` is converted
and then multiplied by `1`, a longer one is read as a decimal. -/
namespace Stencil
open Float.Model Float.Model.UnpackedFloat

section Shift

variable {n k : ℕ} {em : ExtendedMantissa}

/-- What a shift by `k` bits has left of `n`, and what it tells of the bits dropped. -/
structure Shifted (n k : ℕ) (em : ExtendedMantissa) : Prop where
  mantissa : em.mantissa = n / 2 ^ k
  round : em.roundBit = true ↔ 2 ^ k ≤ 2 * (n % 2 ^ k)
  sticky : em.stickyBit = true ↔ n % 2 ^ k ≠ 0 ∧ 2 * (n % 2 ^ k) ≠ 2 ^ k

theorem shifted_zero (n : ℕ) : Shifted n 0 (.ofMantissaAndAccuracy n .exact) where
  mantissa := (Nat.div_one n).symm
  round := by
    rw [Nat.pow_zero, Nat.mod_one]
    exact iff_of_false Bool.false_ne_true (by omega)
  sticky := by
    rw [Nat.pow_zero, Nat.mod_one]
    exact iff_of_false Bool.false_ne_true (by omega)

/-- The lowest bit left decides the rounding, and the bit that did so before is dropped for good. -/
theorem Shifted.shiftRightOne (h : Shifted n k em) : Shifted n (k + 1) em.shiftRightOne := by
  have hrest : n % 2 ^ (k + 1) = n % 2 ^ k + 2 ^ k * (n / 2 ^ k % 2) := Nat.mod_pow_succ
  have hlt : n % 2 ^ k < 2 ^ k := Nat.mod_lt _ (Nat.pow_pos (by omega))
  have hunit : 2 ^ (k + 1) = 2 * 2 ^ k := Nat.pow_succ'
  have hdropped : (em.roundBit || em.stickyBit) = true ↔ n % 2 ^ k ≠ 0 := by
    rw [Bool.or_eq_true, h.round, h.sticky]
    omega
  have hbit : n / 2 ^ k % 2 = 0 ∨ n / 2 ^ k % 2 = 1 := Nat.mod_two_eq_zero_or_one _
  refine ⟨?_, ?_, ?_⟩
  · show em.mantissa / 2 = n / 2 ^ (k + 1)
    rw [h.mantissa, Nat.div_div_eq_div_mul, Nat.pow_succ]
  · show (em.mantissa % 2 != 0) = true ↔ 2 ^ (k + 1) ≤ 2 * (n % 2 ^ (k + 1))
    rw [bne_iff_ne, h.mantissa, hrest, hunit]
    rcases hbit with hbit | hbit <;> rw [hbit] <;> omega
  · show (em.roundBit || em.stickyBit) = true ↔ _
    rw [hdropped, hrest, hunit]
    rcases hbit with hbit | hbit <;> rw [hbit] <;> omega

theorem Shifted.shiftRight (h : Shifted n 0 em) (k : ℕ) : Shifted n k (em >>> k) := by
  show Shifted n k (k.repeat ExtendedMantissa.shiftRightOne em)
  induction k with
  | zero => exact h
  | succ k ih =>
    rw [Nat.repeat]
    exact ih.shiftRightOne

theorem Shifted.roundedMantissa (h : Shifted n k em) :
    em.roundedMantissa = nearestQuotient n (2 ^ k) := by
  obtain ⟨m, round, sticky⟩ := em
  obtain ⟨rfl, hround, hsticky⟩ : m = n / 2 ^ k ∧ (round = true ↔ 2 ^ k ≤ 2 * (n % 2 ^ k)) ∧
      (sticky = true ↔ n % 2 ^ k ≠ 0 ∧ 2 * (n % 2 ^ k) ≠ 2 ^ k) := ⟨h.1, h.2, h.3⟩
  have hpos : 0 < 2 ^ k := Nat.pow_pos (by omega)
  unfold nearestQuotient
  cases round with
  | false =>
    rw [if_pos (by simpa using hround)]
    cases sticky <;> rfl
  | true =>
    have hhalf : 2 ^ k ≤ 2 * (n % 2 ^ k) := hround.1 rfl
    rw [if_neg (by omega)]
    cases sticky with
    | false =>
      have htie : ¬ (n % 2 ^ k ≠ 0 ∧ 2 * (n % 2 ^ k) ≠ 2 ^ k) := fun h => by cases hsticky.2 h
      rw [if_neg (by omega)]
      rfl
    | true =>
      have hmore : 2 * (n % 2 ^ k) ≠ 2 ^ k := (hsticky.1 rfl).2
      rw [if_pos (by omega)]
      rfl

theorem roundedMantissa_shiftRight (n k : ℕ) :
    (ExtendedMantissa.ofMantissaAndAccuracy n .exact >>> k).roundedMantissa =
      nearestQuotient n (2 ^ k) :=
  ((shifted_zero n).shiftRight k).roundedMantissa

theorem mantissa_shiftRight (n k : ℕ) :
    (ExtendedMantissa.ofMantissaAndAccuracy n .exact >>> k).mantissa = n / 2 ^ k :=
  ((shifted_zero n).shiftRight k).mantissa

end Shift

section Rounding

theorem log2_mul_pow {n : ℕ} (hn : n ≠ 0) (j : ℕ) : (n * 2 ^ j).log2 = n.log2 + j := by
  have hpos : n * 2 ^ j ≠ 0 := (Nat.mul_pos (Nat.pos_of_ne_zero hn) (Nat.pow_pos (by omega))).ne'
  rw [Nat.log2_eq_iff hpos, Nat.pow_add, show n.log2 + j + 1 = n.log2 + 1 + j by omega, Nat.pow_add]
  exact ⟨Nat.mul_le_mul_right _ (Nat.log2_self_le hn),
    Nat.mul_lt_mul_of_pos_right Nat.lt_log2_self (Nat.pow_pos (by omega))⟩

/-- A number of at least 53 bits is cut down to 53, as long as it is no tiny fraction. -/
theorem shiftToTargetExponent_eq {m : ℕ} {e : ℤ} (hlog : 52 ≤ m.log2)
    (he : -1074 ≤ e + (m.log2 - 52 : ℕ)) :
    shiftToTargetExponent .binary64 m e .exact =
      (ExtendedMantissa.ofMantissaAndAccuracy m .exact >>> (m.log2 - 52),
        e + (m.log2 - 52 : ℕ)) := by
  have hbits : Format.binary64.mantissaBits = 53 := rfl
  have hmin : Format.binary64.minExponent = -1074 := rfl
  have hshift : (Format.binary64.targetExponent (totalExponent m e) - e).toNat = m.log2 - 52 := by
    unfold Format.targetExponent totalExponent
    rw [hbits, hmin]
    omega
  unfold shiftToTargetExponent shiftToExponent
  dsimp only
  rw [hshift]

theorem holds_of_bits (s : Sign) {m k n : ℕ} {e : ℤ} (hlow : 2 ^ 52 ≤ m) (hhigh : m < 2 ^ 53)
    (he : e = k - 52) (hk : k ≤ 64) (hn : m * 2 ^ k = n * 2 ^ 52) :
    Holds (if h : m = 0 then .zero s else .finite s m e (Nat.pos_of_ne_zero h)) (s.apply n) := by
  rw [dif_neg (by omega)]
  exact .finite s _ hlow hhigh he hk hn

/-- A mantissa of 53 bits stays, and the power of two above them is halved. -/
theorem holds_carry (s : Sign) {q k n : ℕ} {e : ℤ} (hlow : 2 ^ 52 ≤ q) (hhigh : q ≤ 2 ^ 53)
    (he : e = k - 52) (hk : k < 64) (hn : q * 2 ^ k = n * 2 ^ 52) :
    Holds (if h : (shiftToTargetExponent .binary64 q e .exact).1.mantissa = 0 then .zero s
      else .finite s (shiftToTargetExponent .binary64 q e .exact).1.mantissa
        (shiftToTargetExponent .binary64 q e .exact).2 (Nat.pos_of_ne_zero h)) (s.apply n) := by
  rcases hhigh.lt_or_eq with hlt | rfl
  · have hlog : q.log2 = 52 := (Nat.log2_eq_iff (by omega)).2 ⟨hlow, hlt⟩
    have hshift := shiftToTargetExponent_eq (m := q) (e := e) (by omega) (by omega)
    rw [hlog] at hshift
    have hmantissa : (shiftToTargetExponent .binary64 q e .exact).1.mantissa = q := by
      rw [hshift, mantissa_shiftRight, Nat.pow_zero, Nat.div_one]
    have hexponent : (shiftToTargetExponent .binary64 q e .exact).2 = k - 52 := by
      rw [hshift]
      omega
    refine holds_of_bits s ?_ ?_ hexponent hk.le ?_ <;> rw [hmantissa]
    · exact hlow
    · exact hlt
    · exact hn
  · have hlog : (2 ^ 53).log2 = 53 := Nat.log2_two_pow
    have hshift := shiftToTargetExponent_eq (m := 2 ^ 53) (e := e) (by omega) (by omega)
    rw [hlog] at hshift
    have hmantissa : (shiftToTargetExponent .binary64 (2 ^ 53) e .exact).1.mantissa = 2 ^ 52 := by
      rw [hshift, mantissa_shiftRight]
      rfl
    have hexponent : (shiftToTargetExponent .binary64 (2 ^ 53) e .exact).2 =
        (k + 1 : ℕ) - 52 := by
      rw [hshift]
      push_cast
      omega
    refine holds_of_bits s ?_ ?_ hexponent (by omega) ?_ <;> rw [hmantissa]
    · omega
    · rw [Nat.pow_succ]
      omega

/-- However a whole number is written as a shifted one, rounding comes to its nearest double. -/
theorem holds_roundWithAccuracy (s : Sign) {n j : ℕ} {e : ℤ} (hn : n ≠ 0) (hle : n ≤ 2 ^ 63)
    (hj : 52 ≤ n.log2 + j) (he : e = -j) :
    Holds (roundWithAccuracy .binary64 s (n * 2 ^ j) e .exact) (s.apply (nearestMagnitude n)) := by
  have hlog : (n * 2 ^ j).log2 = n.log2 + j := log2_mul_pow hn j
  have hshort : n.log2 < 64 := (Nat.log2_lt hn).2 (by omega)
  have hshift := shiftToTargetExponent_eq (m := n * 2 ^ j) (e := e) (by omega) (by omega)
  rw [hlog] at hshift
  have hvalue := nearestQuotient_shifted hj
  have hpos : 0 < 2 ^ n.log2 := Nat.pow_pos (by omega)
  have hlow : 2 ^ 52 ≤ nearestQuotient (n * 2 ^ j) (2 ^ (n.log2 + j - 52)) := by
    have hle := pow_log2_le_nearestMagnitude hn
    apply Nat.le_of_mul_le_mul_right _ hpos
    omega
  have hhigh : nearestQuotient (n * 2 ^ j) (2 ^ (n.log2 + j - 52)) ≤ 2 ^ 53 := by
    have hle := nearestMagnitude_le_pow (n := n)
    rw [Nat.pow_succ] at hle
    apply Nat.le_of_mul_le_mul_right _ hpos
    omega
  unfold roundWithAccuracy
  dsimp only
  rw [hshift]
  dsimp only
  rw [roundedMantissa_shiftRight]
  exact holds_carry s hlow hhigh (by omega) hshort hvalue

end Rounding

section Conversion

variable {n : ℕ}

theorem holds_round (s : Sign) (hn : n ≠ 0) (hle : n ≤ 2 ^ 63) :
    Holds (UnpackedFloat.round .binary64 s n 0) (s.apply (nearestMagnitude n)) := by
  have hshort : n.log2 < 64 := (Nat.log2_lt hn).2 (by omega)
  have hbits : Format.binary64.mantissaBits = 53 := rfl
  have hmin : Format.binary64.minExponent = -1074 := rfl
  have htarget : (0 - Format.binary64.targetExponent (totalExponent n 0)).toNat = 52 - n.log2 := by
    unfold Format.targetExponent totalExponent
    rw [hbits, hmin]
    omega
  unfold UnpackedFloat.round decreaseExponent
  dsimp only
  rw [htarget, Nat.shiftLeft_eq]
  exact holds_roundWithAccuracy s hn hle (by omega) (by omega)

theorem holds_ofNat (hle : n ≤ 2 ^ 63) :
    Holds (Float.Model.ofNat n).unpack (nearestMagnitude n) := by
  have hround : Holds (UnpackedFloat.ofNat .binary64 n) (nearestMagnitude n) := by
    unfold UnpackedFloat.ofNat UnpackedFloat.ofInt UnpackedFloat.normalize
    by_cases hn : n = 0
    · subst hn
      exact .zero .positive
    · rw [compare_gt_iff_gt.2 (by omega : (n : ℤ) > 0)]
      exact holds_round .positive hn hle
  exact hround.packed

/-- The product by the double `1` is exact on the doubles below `2 ^ 53`. -/
theorem Holds.mul_one {u : UnpackedFloat} {a : ℤ} (h : Holds u a) (ha : a.natAbs < 2 ^ 53) :
    Holds (u.mul .binary64 (.finite .positive (2 ^ 52) (-52) (Nat.pow_pos (by omega)))) a := by
  cases h with
  | zero s => exact .zero _
  | finite s hm hlow hhigh he hk hn =>
    rename_i m k n e
    have hmagnitude : n < 2 ^ 53 := by
      cases s <;> simp only [Sign.apply] at ha <;> omega
    have hpow : k ≤ 52 := by
      by_contra hlong
      have hle : 2 ^ 52 * 2 ^ 53 ≤ m * 2 ^ k :=
        Nat.mul_le_mul hlow (Nat.pow_le_pow_right (by omega) (by omega))
      omega
    have hshift : m * 2 ^ 52 = n * 2 ^ (104 - k) := by
      apply Nat.eq_of_mul_eq_mul_right (Nat.pow_pos (by omega) : 0 < 2 ^ k)
      rw [mul_right_comm, hn, mul_assoc, mul_assoc, ← Nat.pow_add, ← Nat.pow_add]
      congr 2
      omega
    have hsign : s * .positive = s := by cases s <;> rfl
    have hround := holds_roundWithAccuracy s (n := n) (j := 104 - k) (e := e + -52)
      (magnitude_pos hm hn).ne' (by omega) (by omega) (by omega)
    rw [nearestMagnitude_of_le hmagnitude.le, ← hshift] at hround
    unfold UnpackedFloat.mul
    dsimp only
    rw [hsign]
    exact hround

theorem holds_ofScientific (hn : n ≠ 0) (hle : n ≤ 2 ^ 63) :
    Holds (Float.Model.ofScientific n 0).unpack (nearestMagnitude n) := by
  have hround : Holds (UnpackedFloat.ofScientific .binary64 n 0) (nearestMagnitude n) := by
    unfold UnpackedFloat.ofScientific
    have hhuge : Format.binary64.exponentBits = 11 := rfl
    rw [dif_neg hn, hhuge, if_neg (by omega), if_neg (by omega), if_pos (by omega)]
    have h := holds_roundWithAccuracy .positive (j := 53) (e := -53) hn hle (by omega) (by omega)
    have hone : n <<< Format.binary64.mantissaBits * 10 ^ (0 : ℤ).toNat = n * 2 ^ 53 := by
      rw [Nat.shiftLeft_eq]
      exact Nat.mul_one _
    rw [← hone] at h
    exact h
  exact hround.packed

theorem holds_toModel (hle : n ≤ 2 ^ 63) :
    Holds (Float.ofNat n).toModel.unpack (nearestMagnitude n) := by
  show Holds (Float.ofScientific n false 0).toModel.unpack _
  by_cases hshort : n < 2 ^ 53
  · unfold Float.ofScientific
    rw [dif_pos ⟨hshort, by omega⟩]
    have hword : n.toUInt64.toNat = n := UInt64.toNat_ofNat_of_lt (show n < 2 ^ 64 by omega)
    have hfactor : Holds (Float.Model.ofNat n.toUInt64.toNat).unpack (nearestMagnitude n) := by
      rw [hword]
      exact holds_ofNat hle
    have hproduct := hfactor.mul_one (by
      rw [nearestMagnitude_of_le hshort.le, Int.natAbs_natCast]
      exact hshort)
    show Holds (Float.Model.pack ((Float.Model.ofNat n.toUInt64.toNat).unpack.mul .binary64
      (Float.ofBits 0x3FF0000000000000).toModel.unpack)).unpack _
    have hone : (Float.ofBits 0x3FF0000000000000).toModel.unpack =
      .finite .positive (2 ^ 52) (-52) (Nat.pow_pos (by omega)) := rfl
    rw [hone]
    exact hproduct.packed
  · unfold Float.ofScientific
    rw [dif_neg (by omega)]
    exact holds_ofScientific (by omega) hle

/-- The double of a whole number is the double nearest to it. -/
theorem holds_ofInt {n : ℤ} (h : n.natAbs ≤ 2 ^ 63) :
    Holds (Float.ofInt n).toModel.unpack (nearestDouble n) := by
  cases n with
  | ofNat n =>
    rw [Int.ofNat_eq_natCast, nearestDouble_natCast]
    exact holds_toModel h
  | negSucc n =>
    have hpositive := (holds_toModel (n := n + 1) h).neg
    rw [Int.negSucc_eq, nearestDouble_neg, ← Nat.cast_succ, nearestDouble_natCast]
    exact hpositive.packed

theorem ofInt_lt_iff {a b : ℤ} (ha : a.natAbs ≤ 2 ^ 63) (hb : b.natAbs ≤ 2 ^ 63) :
    Float.ofInt a < Float.ofInt b ↔ nearestDouble a < nearestDouble b :=
  decide_eq_true_iff.trans ((holds_ofInt ha).lt_iff (holds_ofInt hb))

end Conversion

end Stencil
