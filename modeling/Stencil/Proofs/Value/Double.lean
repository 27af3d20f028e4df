import Mathlib.Algebra.Order.Ring.Abs

/-! Doubles that are whole numbers, with all 53 bits in use. They compare as the numbers that they
hold, and packing loses nothing of them. -/
namespace Stencil
open Float.Model Float.Model.UnpackedFloat

/-- The unpacked double is a whole number, written with 53 bits. -/
inductive Holds : UnpackedFloat → ℤ → Prop
  | zero (s : Sign) : Holds (.zero s) 0
  | finite (s : Sign) {m k n : ℕ} {e : ℤ} (hm : 0 < m) (hlow : 2 ^ 52 ≤ m) (hhigh : m < 2 ^ 53)
    (he : e = k - 52) (hk : k ≤ 64) (hn : m * 2 ^ k = n * 2 ^ 52) :
    Holds (.finite s m e hm) (s.apply n)

namespace Holds

variable {u v : UnpackedFloat} {a b : ℤ}

theorem neg (h : Holds u a) : Holds u.neg (-a) := by
  cases h with
  | zero s => exact .zero _
  | finite s hm hlow hhigh he hk hn =>
    rename_i m k n e
    have hsign : -s.apply n = (-s).apply n := by
      cases s with
      | negative => exact neg_neg _
      | positive => rfl
    rw [hsign]
    exact .finite _ hm hlow hhigh he hk hn

theorem magnitude_pos {m k n : ℕ} (hm : 0 < m) (hn : m * 2 ^ k = n * 2 ^ 52) : 0 < n := by
  have hpos : 0 < m * 2 ^ k := Nat.mul_pos hm (Nat.pow_pos (by omega))
  omega

/-- All bits are in use, so that a greater exponent makes a greater number. -/
theorem magnitude_lt {m m' k k' n n' : ℕ} (hhigh : m < 2 ^ 53) (hn : m * 2 ^ k = n * 2 ^ 52)
    (hlow' : 2 ^ 52 ≤ m') (hn' : m' * 2 ^ k' = n' * 2 ^ 52) (hk : k < k') : n < n' := by
  have hlt : n * 2 ^ 52 < n' * 2 ^ 52 := by
    calc
      n * 2 ^ 52 = m * 2 ^ k := hn.symm
      _ < 2 ^ 53 * 2 ^ k := Nat.mul_lt_mul_of_pos_right hhigh (Nat.pow_pos (by omega))
      _ = 2 ^ 52 * 2 ^ (k + 1) := by rw [Nat.pow_succ]; omega
      _ ≤ 2 ^ 52 * 2 ^ k' := Nat.mul_le_mul_left _ (Nat.pow_le_pow_right (by omega) hk)
      _ ≤ m' * 2 ^ k' := Nat.mul_le_mul_right _ hlow'
      _ = n' * 2 ^ 52 := hn'
  omega

/-- The exponents decide first, and the mantissas where they agree. -/
theorem compare_magnitudes {m m' k k' n n' : ℕ} (hlow : 2 ^ 52 ≤ m) (hhigh : m < 2 ^ 53)
    (hn : m * 2 ^ k = n * 2 ^ 52) (hlow' : 2 ^ 52 ≤ m') (hhigh' : m' < 2 ^ 53)
    (hn' : m' * 2 ^ k' = n' * 2 ^ 52) :
    (compare (k - 52 : ℤ) (k' - 52)).then (compare m m') = compare (n : ℤ) n' := by
  rcases lt_trichotomy k k' with hk | rfl | hk
  · have hlt : n < n' := magnitude_lt hhigh hn hlow' hn' hk
    have hexponent : compare (k - 52 : ℤ) (k' - 52) = .lt := compare_lt_iff_lt.2 (by omega)
    have hnumber : compare (n : ℤ) n' = .lt := compare_lt_iff_lt.2 (by omega)
    rw [hexponent, hnumber]
    rfl
  · rw [compare_eq_iff_eq.2 rfl]
    show compare m m' = _
    have hpos : 0 < 2 ^ k := Nat.pow_pos (by omega)
    rcases lt_trichotomy m m' with hm | rfl | hm
    · have hlt : m * 2 ^ k < m' * 2 ^ k := Nat.mul_lt_mul_of_pos_right hm hpos
      rw [compare_lt_iff_lt.2 hm, compare_lt_iff_lt.2 (by omega)]
    · rw [compare_eq_iff_eq.2 rfl, compare_eq_iff_eq.2 (by omega)]
    · have hlt : m' * 2 ^ k < m * 2 ^ k := Nat.mul_lt_mul_of_pos_right hm hpos
      rw [compare_gt_iff_gt.2 hm, compare_gt_iff_gt.2 (by omega)]
  · have hlt : n' < n := magnitude_lt hhigh' hn' hlow hn hk
    have hexponent : compare (k - 52 : ℤ) (k' - 52) = .gt := compare_gt_iff_gt.2 (by omega)
    have hnumber : compare (n : ℤ) n' = .gt := compare_gt_iff_gt.2 (by omega)
    rw [hexponent, hnumber]
    rfl

theorem compare_neg (a b : ℤ) : compare (-a) (-b) = (compare a b).swap := by
  rcases lt_trichotomy a b with h | rfl | h
  · rw [compare_lt_iff_lt.2 h, compare_gt_iff_gt.2 (Int.neg_lt_neg h)]
    rfl
  · rw [compare_eq_iff_eq.2 rfl, compare_eq_iff_eq.2 rfl]
    rfl
  · rw [compare_gt_iff_gt.2 h, compare_lt_iff_lt.2 (Int.neg_lt_neg h)]
    rfl

theorem some_lt_eq (h : a < b) : some .lt = some (compare a b) := by
  rw [compare_lt_iff_lt.2 h]

theorem some_gt_eq (h : b < a) : some .gt = some (compare a b) := by
  rw [compare_gt_iff_gt.2 h]

/-- Unpacked doubles compare as the whole numbers that they are. -/
theorem compare_eq (hu : Holds u a) (hv : Holds v b) : u.compare v = some (compare a b) := by
  cases hu with
  | zero s =>
    cases hv with
    | zero s' => rfl
    | finite s' hm' hlow' hhigh' he' hk' hn' =>
      rename_i m' k' n' e'
      have hpos : 0 < n' := magnitude_pos hm' hn'
      cases s' with
      | negative => exact some_gt_eq (show (-n' : ℤ) < 0 by omega)
      | positive => exact some_lt_eq (show (0 : ℤ) < n' by omega)
  | finite s hm hlow hhigh he hk hn =>
    rename_i m k n e
    have hpos : 0 < n := magnitude_pos hm hn
    cases hv with
    | zero s' =>
      cases s with
      | negative => exact some_lt_eq (show (-n : ℤ) < 0 by omega)
      | positive => exact some_gt_eq (show (0 : ℤ) < n by omega)
    | finite s' hm' hlow' hhigh' he' hk' hn' =>
      rename_i m' k' n' e'
      have hpos' : 0 < n' := magnitude_pos hm' hn'
      have hcompare := compare_magnitudes hlow hhigh hn hlow' hhigh' hn'
      rw [← he, ← he'] at hcompare
      cases s with
      | negative =>
        cases s' with
        | negative =>
          refine congrArg some ?_
          rw [hcompare]
          exact (compare_neg _ _).symm
        | positive => exact some_lt_eq (show (-n : ℤ) < n' by omega)
      | positive =>
        cases s' with
        | negative => exact some_gt_eq (show (-n' : ℤ) < n by omega)
        | positive => exact congrArg some hcompare

theorem lt_iff (hu : Holds u a) (hv : Holds v b) : u.lt v = true ↔ a < b := by
  unfold UnpackedFloat.lt
  rw [hu.compare_eq hv, beq_iff_eq, Option.some_inj, compare_lt_iff_lt]

end Holds

section Packing

variable {m k : ℕ}

theorem unpackSign_packComponents {S : Float.Model.Format} (s : Sign)
    (e : BitVec S.exponentBits) (f : BitVec S.mantissaBitsWithoutImplicit) :
    unpackSign (packComponents S s e f) = s.toBitVec := by
  ext i hi
  have hi : i = 0 := by omega
  subst hi
  unfold unpackSign
  simp [packComponents, BitVec.getLsbD_append, BitVec.getElem_append]

theorem ofBitVec_toBitVec (s : Sign) : Sign.ofBitVec s.toBitVec = s := by
  cases s <;> rfl

theorem toNat_one_append (f : BitVec 52) : (1#1 ++ f).toNat = 2 ^ 52 + f.toNat := by
  rw [BitVec.toNat_append, BitVec.toNat_ofNat, ← Nat.shiftLeft_add_eq_or_of_lt f.isLt,
    Nat.shiftLeft_eq]
  omega

/-- The leading bit of a mantissa is dropped and comes back. -/
theorem toNat_implicit (hlow : 2 ^ 52 ≤ m) (hhigh : m < 2 ^ 53) :
    (1#1 ++ BitVec.ofNat 52 m).toNat = m := by
  rw [toNat_one_append, BitVec.toNat_ofNat]
  omega

theorem pack_finite {s : Sign} {e : ℤ} (hm : 0 < m) (hlow : 2 ^ 52 ≤ m) (hhigh : m < 2 ^ 53)
    (he : e = k - 52) (hk : k ≤ 64) :
    UnpackedFloat.pack .binary64 (.finite s m e hm) =
      packComponents .binary64 s (.ofNat 11 (k + 1023)) (.ofNat 52 m) := by
  have hlog : m.log2 = 52 := (Nat.log2_eq_iff hm.ne').2 ⟨hlow, hhigh⟩
  have hbias : (e + Format.binary64.exponentBias +
      Format.binary64.mantissaBitsWithoutImplicit).toNat = k + 1023 := by
    have hvalue : Format.binary64.exponentBias = 1023 := rfl
    rw [hvalue]
    show (e + (1023 : ℕ) + (52 : ℕ)).toNat = _
    omega
  have hfits : ¬ 2 ^ Format.binary64.exponentBits ≤ k + 1023 + 1 := by
    show ¬ 2 ^ 11 ≤ k + 1023 + 1
    omega
  have hnormal : m.log2 + 1 = Format.binary64.mantissaBits := by
    rw [hlog]
    rfl
  unfold UnpackedFloat.pack
  dsimp only
  rw [hbias, if_neg hfits, if_pos hnormal]

/-- Neither a zero, an infinity nor no number at all: the leading bit is put back. -/
theorem unpack_normal {b : BitVec Format.binary64.numBits} (hones : unpackExponent b ≠ -1#11)
    (hzero : unpackExponent b ≠ 0#11) :
    ∃ h : 0 < (1#1 ++ unpackMantissa b).toNat,
      UnpackedFloat.unpack .binary64 b =
        .finite (.ofBitVec (unpackSign b)) (1#1 ++ unpackMantissa b).toNat
          ((unpackExponent b).toNat - ((1023 : ℕ) + (52 : ℕ))) h := by
  have hpos : 0 < (1#1 ++ unpackMantissa b).toNat := by
    have hone := toNat_one_append (unpackMantissa b)
    show 0 < (1#1 ++ (unpackMantissa b : BitVec 52)).toNat
    omega
  refine ⟨hpos, ?_⟩
  unfold UnpackedFloat.unpack
  dsimp only
  rw [if_neg hones, if_neg hzero]
  rfl

theorem unpack_packComponents {s : Sign} (hm : 0 < m) (hlow : 2 ^ 52 ≤ m) (hhigh : m < 2 ^ 53)
    (hk : k ≤ 64) :
    UnpackedFloat.unpack .binary64
        (packComponents .binary64 s (.ofNat 11 (k + 1023)) (.ofNat 52 m)) =
      .finite s m (k - 52) hm := by
  have hexponent : (BitVec.ofNat 11 (k + 1023)).toNat = k + 1023 := by
    rw [BitVec.toNat_ofNat, Nat.mod_eq_of_lt (by omega)]
  have hne : ∀ c : BitVec 11, k + 1023 ≠ c.toNat →
      unpackExponent (packComponents .binary64 s (.ofNat 11 (k + 1023)) (.ofNat 52 m)) ≠ c := by
    rintro c hc rfl
    rw [unpackExponent_packComponents] at hc
    exact hc hexponent.symm
  have hones := hne (-1#11) (show k + 1023 ≠ 2047 by omega)
  have hzero := hne 0#11 (show k + 1023 ≠ 0 by omega)
  obtain ⟨_, heq⟩ := unpack_normal hones hzero
  rw [heq, UnpackedFloat.finite.injEq]
  refine ⟨?_, ?_, ?_⟩
  · rw [unpackSign_packComponents, ofBitVec_toBitVec]
  · rw [unpackMantissa_packComponents]
    exact toNat_implicit hlow hhigh
  · rw [unpackExponent_packComponents, hexponent]
    omega

end Packing

theorem Holds.unpack_pack {u : UnpackedFloat} {a : ℤ} (h : Holds u a) :
    (Float.Model.pack u).unpack = u := by
  cases h with
  | zero s => cases s <;> rfl
  | finite s hm hlow hhigh he hk hn =>
    show UnpackedFloat.unpack .binary64 (UnpackedFloat.pack .binary64 (.finite s _ _ hm)) = _
    rw [pack_finite hm hlow hhigh he hk, unpack_packComponents hm hlow hhigh hk]
    subst he
    rfl

theorem Holds.packed {u : UnpackedFloat} {a : ℤ} (h : Holds u a) :
    Holds (Float.Model.pack u).unpack a := by
  rw [h.unpack_pack]
  exact h

end Stencil
