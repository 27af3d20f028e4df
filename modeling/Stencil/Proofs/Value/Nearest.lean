import Mathlib.Algebra.Order.Ring.Abs

/-! The double nearest to a whole number, in whole numbers: 53 bits are kept, and a tie goes to the
even neighbour. Rounding keeps the order, changes nothing up to `2 ^ 53`, and moves a 64-bit integer
by at most `2 ^ 9`. -/
namespace Stencil

/-- `n / unit` to the nearest whole number, and to the even one of two. -/
def nearestQuotient (n unit : ℕ) : ℕ :=
  if 2 * (n % unit) < unit then n / unit
  else if unit < 2 * (n % unit) then n / unit + 1
  else n / unit + n / unit % 2

/-- The distance of neighbouring doubles that are as long as `n`, or one if that is less. -/
def doubleUnit (n : ℕ) : ℕ := 2 ^ (n.log2 - 52)

def nearestMagnitude (n : ℕ) : ℕ := nearestQuotient n (doubleUnit n) * doubleUnit n

/-- The whole number that the double nearest to `n` is. -/
def nearestDouble (n : ℤ) : ℤ := n.sign * nearestMagnitude n.natAbs

section Quotient

variable {m n unit : ℕ}

theorem le_nearestQuotient : n / unit ≤ nearestQuotient n unit := by
  unfold nearestQuotient
  split_ifs <;> omega

theorem nearestQuotient_le : nearestQuotient n unit ≤ n / unit + 1 := by
  unfold nearestQuotient
  split_ifs <;> omega

theorem nearestQuotient_mono (h : m ≤ n) : nearestQuotient m unit ≤ nearestQuotient n unit := by
  have hdiv : m / unit ≤ n / unit := Nat.div_le_div_right h
  by_cases heq : m / unit = n / unit
  · have hmod : m % unit ≤ n % unit := by
      have hm := Nat.div_add_mod m unit
      have hn := Nat.div_add_mod n unit
      rw [heq] at hm
      omega
    unfold nearestQuotient
    rw [heq]
    split_ifs <;> omega
  · have hlow : n / unit ≤ nearestQuotient n unit := le_nearestQuotient
    have hhigh : nearestQuotient m unit ≤ m / unit + 1 := nearestQuotient_le
    omega

theorem nearestQuotient_mul (q : ℕ) (hunit : 0 < unit) : nearestQuotient (q * unit) unit = q := by
  unfold nearestQuotient
  rw [Nat.mul_mod_left, Nat.mul_div_cancel _ hunit, if_pos (by omega)]

theorem nearestQuotient_mul_right {c : ℕ} (hc : 0 < c) :
    nearestQuotient (n * c) (unit * c) = nearestQuotient n unit := by
  have hlow : 2 * (n % unit * c) < unit * c ↔ 2 * (n % unit) < unit := by
    rw [← mul_assoc, Nat.mul_lt_mul_right hc]
  have hhigh : unit * c < 2 * (n % unit * c) ↔ unit < 2 * (n % unit) := by
    rw [← mul_assoc, Nat.mul_lt_mul_right hc]
  unfold nearestQuotient
  rw [Nat.mul_mod_mul_right, Nat.mul_div_mul_right _ _ hc]
  simp only [hlow, hhigh]

/-- Rounding moves by half a unit at most. -/
theorem nearestQuotient_near (hunit : 0 < unit) :
    2 * (nearestQuotient n unit * unit) ≤ 2 * n + unit ∧
      2 * n ≤ 2 * (nearestQuotient n unit * unit) + unit := by
  have hn : n / unit * unit + n % unit = n := Nat.div_add_mod' n unit
  have hrest : n % unit < unit := Nat.mod_lt _ hunit
  unfold nearestQuotient
  split_ifs with hlow hhigh
  · omega
  · rw [Nat.add_mul]
    omega
  · rw [Nat.add_mul]
    rcases Nat.mod_two_eq_zero_or_one (n / unit) with hpar | hpar <;> rw [hpar] <;> omega

end Quotient

section Magnitude

variable {m n : ℕ}

theorem doubleUnit_pos (n : ℕ) : 0 < doubleUnit n := Nat.pow_pos (by omega)

/-- A power of two that has no fewer bits than a unit is a multiple of it. -/
theorem nearestQuotient_pow {k : ℕ} (h : n.log2 ≤ k) :
    nearestQuotient (2 ^ k) (doubleUnit n) * doubleUnit n = 2 ^ k := by
  have hpow : 2 ^ k = 2 ^ (k - (n.log2 - 52)) * doubleUnit n := by
    rw [doubleUnit, ← Nat.pow_add]
    congr 1
    omega
  conv_lhs => rw [hpow, nearestQuotient_mul _ (doubleUnit_pos n)]
  exact hpow.symm

theorem pow_log2_le_nearestMagnitude (hn : n ≠ 0) : 2 ^ n.log2 ≤ nearestMagnitude n := by
  have hle : 2 ^ n.log2 ≤ n := Nat.log2_self_le hn
  rw [← nearestQuotient_pow (Nat.le_refl n.log2)]
  exact Nat.mul_le_mul_right _ (nearestQuotient_mono hle)

theorem nearestMagnitude_le_pow : nearestMagnitude n ≤ 2 ^ (n.log2 + 1) := by
  have hle : n ≤ 2 ^ (n.log2 + 1) := Nat.le_of_lt Nat.lt_log2_self
  rw [← nearestQuotient_pow (Nat.le_succ n.log2)]
  exact Nat.mul_le_mul_right _ (nearestQuotient_mono hle)

theorem log2_mono (hm : m ≠ 0) (h : m ≤ n) : m.log2 ≤ n.log2 :=
  (Nat.le_log2 (by omega)).2 ((Nat.log2_self_le hm).trans h)

theorem nearestMagnitude_mono (h : m ≤ n) : nearestMagnitude m ≤ nearestMagnitude n := by
  by_cases hm : m = 0
  · subst hm
    exact Nat.zero_le _
  have hlog : m.log2 ≤ n.log2 := log2_mono hm h
  rcases hlog.eq_or_lt with heq | hlt
  · have hunit : doubleUnit m = doubleUnit n := by rw [doubleUnit, doubleUnit, heq]
    unfold nearestMagnitude
    rw [hunit]
    exact Nat.mul_le_mul_right _ (nearestQuotient_mono h)
  · calc
      nearestMagnitude m ≤ 2 ^ (m.log2 + 1) := nearestMagnitude_le_pow
      _ ≤ 2 ^ n.log2 := Nat.pow_le_pow_right (by omega) hlt
      _ ≤ nearestMagnitude n := pow_log2_le_nearestMagnitude (by omega)

theorem nearestMagnitude_of_le (h : n ≤ 2 ^ 53) : nearestMagnitude n = n := by
  rcases h.eq_or_lt with rfl | hlt
  · rfl
  have hunit : doubleUnit n = 1 := by
    by_cases hn : n = 0
    · subst hn
      rfl
    have hlog : n.log2 < 53 := (Nat.log2_lt hn).2 hlt
    rw [doubleUnit, show n.log2 - 52 = 0 by omega, Nat.pow_zero]
  unfold nearestMagnitude
  rw [hunit, Nat.mul_one]
  simpa using nearestQuotient_mul n Nat.one_pos

/-- However many zeros follow a number, it is the same 53 bits that are kept. -/
theorem nearestQuotient_shifted {j : ℕ} (hj : 52 ≤ n.log2 + j) :
    nearestQuotient (n * 2 ^ j) (2 ^ (n.log2 + j - 52)) * 2 ^ n.log2 =
      nearestMagnitude n * 2 ^ 52 := by
  by_cases hlong : 52 ≤ n.log2
  · have hunit : 2 ^ (n.log2 + j - 52) = doubleUnit n * 2 ^ j := by
      rw [doubleUnit, ← Nat.pow_add]
      congr 1
      omega
    have hpow : 2 ^ n.log2 = doubleUnit n * 2 ^ 52 := by
      rw [doubleUnit, ← Nat.pow_add]
      congr 1
      omega
    rw [hunit, nearestQuotient_mul_right (Nat.pow_pos (by omega)), hpow, nearestMagnitude,
      mul_assoc]
  · have hsplit : n * 2 ^ j = n * 2 ^ (52 - n.log2) * 2 ^ (n.log2 + j - 52) := by
      rw [mul_assoc, ← Nat.pow_add]
      congr 2
      omega
    have hshort : n ≤ 2 ^ 53 := by
      have hlt : n < 2 ^ (n.log2 + 1) := Nat.lt_log2_self
      have hpow : 2 ^ (n.log2 + 1) ≤ 2 ^ 53 := Nat.pow_le_pow_right (by omega) (by omega)
      omega
    rw [hsplit, nearestQuotient_mul _ (Nat.pow_pos (by omega)), nearestMagnitude_of_le hshort,
      mul_assoc, ← Nat.pow_add]
    congr 2
    omega

/-- Rounding moves a number of 63 bits by half a unit of `2 ^ 10`, and the next one not at all. -/
theorem nearestMagnitude_near (h : n ≤ 2 ^ 63) :
    nearestMagnitude n ≤ n + 2 ^ 9 ∧ n ≤ nearestMagnitude n + 2 ^ 9 := by
  rcases h.eq_or_lt with rfl | hlt
  · decide
  by_cases hn : n = 0
  · subst hn
    decide
  have hlog : n.log2 < 63 := (Nat.log2_lt hn).2 hlt
  have hunit : doubleUnit n ≤ 2 ^ 10 := Nat.pow_le_pow_right (by omega) (by omega)
  have hnear := nearestQuotient_near (n := n) (doubleUnit_pos n)
  unfold nearestMagnitude
  omega

end Magnitude

section Signed

variable {a b n : ℤ}

@[simp] theorem nearestDouble_natCast (n : ℕ) : nearestDouble n = nearestMagnitude n := by
  by_cases hn : n = 0
  · subst hn
    rfl
  rw [nearestDouble, Int.sign_natCast_of_ne_zero hn, Int.natAbs_natCast, one_mul]

@[simp] theorem nearestDouble_neg (n : ℤ) : nearestDouble (-n) = -nearestDouble n := by
  rw [nearestDouble, Int.sign_neg, Int.natAbs_neg, neg_mul, nearestDouble]

theorem nearestDouble_mono (h : a ≤ b) : nearestDouble a ≤ nearestDouble b := by
  obtain ⟨k, rfl | rfl⟩ := Int.eq_nat_or_neg a <;>
    obtain ⟨l, rfl | rfl⟩ := Int.eq_nat_or_neg b <;>
    simp only [nearestDouble_neg, nearestDouble_natCast]
  · have hmono : nearestMagnitude k ≤ nearestMagnitude l := nearestMagnitude_mono (by omega)
    omega
  · have hk : k = 0 := by omega
    have hl : l = 0 := by omega
    subst hk hl
    decide
  · omega
  · have hmono : nearestMagnitude l ≤ nearestMagnitude k := nearestMagnitude_mono (by omega)
    omega

theorem nearestDouble_of_le (h : n.natAbs ≤ 2 ^ 53) : nearestDouble n = n := by
  rw [nearestDouble, nearestMagnitude_of_le h]
  exact Int.sign_mul_natAbs n

theorem nearestDouble_near (h : n.natAbs ≤ 2 ^ 63) : |nearestDouble n - n| ≤ 2 ^ 9 := by
  rw [abs_le]
  obtain ⟨k, rfl | rfl⟩ := Int.eq_nat_or_neg n <;>
    simp only [nearestDouble_neg, nearestDouble_natCast]
  · have hnear := nearestMagnitude_near (n := k) (by omega)
    omega
  · have hnear := nearestMagnitude_near (n := k) (by omega)
    omega

end Signed

end Stencil
