import Mathlib.Data.Rat.Floor
import Stencil.Proofs.Value.Integer
import Stencil.Render.Basic

/-! Remainders of 64-bit integers that have the sign of the divisor, and the multiples of a base on
either side of an integer that come from them. -/
namespace Stencil

/-- A number between zero and `b`, where `b` itself is left out, that is a multiple of `b` away from
`a`. -/
structure IsFloorRemainder (a b r : ℤ) : Prop where
  dvd : b ∣ a - r
  between : (0 ≤ r ∧ r < b) ∨ (b < r ∧ r ≤ 0)

namespace IsFloorRemainder

variable {a b r r' : ℤ}

theorem unique (h : IsFloorRemainder a b r) (h' : IsFloorRemainder a b r') : r = r' := by
  have hdvd : b ∣ r - r' := by
    have hsub : b ∣ (a - r') - (a - r) := Int.dvd_sub h'.dvd h.dvd
    rwa [sub_sub_sub_cancel_left] at hsub
  have hlt : (r - r').natAbs < b.natAbs := by
    rcases h.between with h | h <;> rcases h'.between with h' | h' <;> omega
  exact sub_eq_zero.1 (Int.eq_zero_of_dvd_of_natAbs_lt_natAbs hdvd hlt)

/-- What is left of `a` is the divisor times the rounded quotient. -/
theorem mul_floor (h : IsFloorRemainder a b r) : b * ⌊(a : ℚ) / b⌋ = a - r := by
  obtain ⟨q, hq⟩ := h.dvd
  have hb : (b : ℚ) ≠ 0 := by
    rcases h.between with h | h <;> exact_mod_cast (by omega : b ≠ 0)
  have hdiv : (a : ℚ) / b = q + r / b := by
    have ha : (a : ℚ) = b * q + r := by exact_mod_cast (by omega : a = b * q + r)
    rw [ha]
    field_simp
  have hfloor : ⌊(a : ℚ) / b⌋ = q := by
    rw [hdiv, Int.floor_eq_iff]
    rcases h.between with ⟨hr, hrb⟩ | ⟨hbr, hr⟩
    · have hbpos : (0 : ℚ) < b := by exact_mod_cast (by omega : 0 < b)
      have hnonneg : (0 : ℚ) ≤ r / b := div_nonneg (by exact_mod_cast hr) hbpos.le
      have hlt : (r : ℚ) / b < 1 := (div_lt_one hbpos).2 (by exact_mod_cast hrb)
      constructor <;> linarith
    · have hbneg : (b : ℚ) < 0 := by exact_mod_cast (by omega : b < 0)
      have hnonneg : (0 : ℚ) ≤ r / b := div_nonneg_of_nonpos (by exact_mod_cast hr) hbneg.le
      have hlt : (r : ℚ) / b < 1 := (div_lt_one_of_neg hbneg).2 (by exact_mod_cast hbr)
      constructor <;> linarith
  rw [hfloor]
  omega

/-- Without its remainder a number is the multiple of the base below it. -/
theorem isGreatest (h : IsFloorRemainder a b r) (hb : 0 < b) :
    IsGreatest {n | b ∣ n ∧ n ≤ a} (a - r) := by
  obtain ⟨hr, hrb⟩ : 0 ≤ r ∧ r < b := by
    rcases h.between with h | h <;> omega
  refine ⟨⟨h.dvd, by omega⟩, ?_⟩
  rintro n ⟨hn, hna⟩
  by_contra hlt
  have hgap : b ≤ n - (a - r) := Int.le_of_dvd (by omega) (Int.dvd_sub hn h.dvd)
  omega

/-- With the remainder of the distance to the base a number is the multiple of the base above it. -/
theorem isLeast (h : IsFloorRemainder (b - a) b r) (hb : 0 < b) :
    IsLeast {n | b ∣ n ∧ a ≤ n} (a + r) := by
  obtain ⟨hr, hrb⟩ : 0 ≤ r ∧ r < b := by
    rcases h.between with h | h <;> omega
  have hdvd : b ∣ a + r := by
    have hsub : b ∣ b - (b - a - r) := Int.dvd_sub (Int.dvd_refl b) h.dvd
    rwa [show b - (b - a - r) = a + r by omega] at hsub
  refine ⟨⟨hdvd, by omega⟩, ?_⟩
  rintro n ⟨hn, han⟩
  by_contra hlt
  have hgap : b ≤ a + r - n := Int.le_of_dvd (by omega) (Int.dvd_sub hdvd hn)
  omega

end IsFloorRemainder

theorem isFloorRemainder_emod (a : ℤ) {b : ℤ} (hb : 0 < b) : IsFloorRemainder a b (a % b) where
  dvd := Int.dvd_self_sub_emod
  between := .inl ⟨Int.emod_nonneg a hb.ne', Int.emod_lt_of_pos a hb⟩

section Remainder

variable {a b : Int64}

/-- Where the divisor is added to the truncated remainder, the sum lies between the two. -/
theorem fitsInt64_remainder_add (hsign : ¬ (a % b < 0 ↔ b < 0)) :
    FitsInt64 ((a % b).toInt + b.toInt) := by
  have hr : -2 ^ 63 ≤ (a % b).toInt ∧ (a % b).toInt < 2 ^ 63 :=
    fitsInt64_iff.1 (fitsInt64_toInt _)
  have hb : -2 ^ 63 ≤ b.toInt ∧ b.toInt < 2 ^ 63 := fitsInt64_iff.1 (fitsInt64_toInt _)
  rw [Int64.lt_iff_toInt_lt, Int64.lt_iff_toInt_lt, Int64.toInt_zero] at hsign
  rw [fitsInt64_iff]
  omega

theorem toInt_remainder_add (hsign : ¬ (a % b < 0 ↔ b < 0)) :
    (a % b + b).toInt = (a % b).toInt + b.toInt := by
  have hsum : a % b + b = .ofInt ((a % b).toInt + b.toInt) := by
    rw [Int64.ofInt_add, Int64.ofInt_toInt, Int64.ofInt_toInt]
  rw [hsum, (fitsInt64_remainder_add hsign).toInt_ofInt]

/-- The truncated remainder is a multiple of the divisor away and nearer to zero than it. One
divisor more, and the signs agree. -/
theorem Number.isFloorRemainder (hb : b ≠ 0) :
    IsFloorRemainder a.toInt b.toInt (Number.floorRemainder a b).toInt := by
  have hpos : b.toInt ≠ 0 := fun h => hb (Int64.toInt_inj.1 h)
  have hdvd : b.toInt ∣ a.toInt - (a % b).toInt := by
    rw [Int64.toInt_mod]
    exact Int.dvd_self_sub_tmod
  have hnear : (a % b).toInt.natAbs < b.toInt.natAbs := by
    rw [Int64.toInt_mod, Int.natAbs_tmod]
    exact Nat.mod_lt _ (Int.natAbs_pos.2 hpos)
  have hzero : a % b = 0 ↔ (a % b).toInt = 0 := Int64.toInt_inj.symm
  have hneg : (a % b < 0 ↔ b < 0) ↔ ((a % b).toInt < 0 ↔ b.toInt < 0) := by
    rw [Int64.lt_iff_toInt_lt, Int64.lt_iff_toInt_lt, Int64.toInt_zero]
  unfold Number.floorRemainder
  dsimp only
  by_cases hcase : a % b ≠ 0 ∧ ¬ (a % b < 0 ↔ b < 0)
  · rw [if_pos hcase, toInt_remainder_add hcase.2]
    rw [Ne, hzero, hneg] at hcase
    refine ⟨?_, by omega⟩
    rw [show a.toInt - ((a % b).toInt + b.toInt) = a.toInt - (a % b).toInt - b.toInt by omega]
    exact Int.dvd_sub hdvd (Int.dvd_refl _)
  · rw [if_neg hcase]
    rw [Ne, hzero, hneg] at hcase
    exact ⟨hdvd, by omega⟩

theorem Number.isZero_int (hb : b ≠ 0) : (Number.int b).isZero = false :=
  beq_eq_false_iff_ne.2 hb

theorem Number.floorMod_int (hb : b ≠ 0) (hcase : ¬ (a = Int64.minValue ∧ b = -1)) :
    Number.floorMod (.int a) (.int b) = .ok (.int (Number.floorRemainder a b)) := by
  unfold Number.floorMod
  rw [Number.isZero_int hb]
  exact if_neg hcase

theorem Builtin.apply_roundUp (hb : b ≠ 0) :
    Builtin.roundUp.apply (.int a) (.int b) =
      Number.apply .subtract (.int b) (.int a) >>= fun d =>
        d.floorMod (.int b) >>= fun r => Number.apply .add (.int a) r := by
  unfold Builtin.apply
  dsimp only
  rw [Number.isZero_int hb]
  rfl

theorem Builtin.apply_roundDown (hb : b ≠ 0) :
    Builtin.roundDown.apply (.int a) (.int b) =
      Number.floorMod (.int a) (.int b) >>= fun r => Number.apply .subtract (.int a) r := by
  unfold Builtin.apply
  dsimp only
  rw [Number.isZero_int hb]
  rfl

end Remainder

section RoundUp

variable {v b : Int64} (hb : 0 < b.toInt)
include hb

/-- Where the distance from the integer to the base overflows, so does the call. -/
theorem Builtin.apply_roundUp_far (hd : ¬ FitsInt64 (b.toInt - v.toInt)) :
    Builtin.roundUp.apply (.int v) (.int b) = .error (.overflow .subtract b v) := by
  have hne : b ≠ 0 := by
    rintro rfl
    exact absurd hb (by decide)
  rw [Builtin.apply_roundUp hne, Number.apply_int .subtract rfl, if_neg hd]
  rfl

/-- Where it does not, the remainder of the distance is added. -/
theorem Builtin.apply_roundUp_near (hd : FitsInt64 (b.toInt - v.toInt)) :
    ∃ r : Int64, IsFloorRemainder (b.toInt - v.toInt) b.toInt r.toInt ∧
      Builtin.roundUp.apply (.int v) (.int b) =
        if FitsInt64 (v.toInt + r.toInt) then .ok (.int (.ofInt (v.toInt + r.toInt)))
        else .error (.overflow .add v r) := by
  have hne : b ≠ 0 := by
    rintro rfl
    exact absurd hb (by decide)
  have hcase : ¬ (Int64.ofInt (b.toInt - v.toInt) = Int64.minValue ∧ b = -1) := by
    rintro ⟨-, rfl⟩
    exact absurd hb (by decide)
  refine ⟨Number.floorRemainder (.ofInt (b.toInt - v.toInt)) b, ?_, ?_⟩
  · have hrem := Number.isFloorRemainder (a := .ofInt (b.toInt - v.toInt)) hne
    rwa [hd.toInt_ofInt] at hrem
  · rw [Builtin.apply_roundUp hne, Number.apply_int .subtract rfl, if_pos hd]
    show Number.floorMod (.int (.ofInt (b.toInt - v.toInt))) (.int b) >>= _ = _
    rw [Number.floorMod_int hne hcase]
    exact Number.apply_int .add rfl v _

/-- A multiple above an integer that is far below zero is not above zero. -/
theorem fitsInt64_of_isLeast {m : ℤ} (hm : IsLeast {n : ℤ | b.toInt ∣ n ∧ v.toInt ≤ n} m)
    (hd : ¬ FitsInt64 (b.toInt - v.toInt)) : FitsInt64 m := by
  have hv : -2 ^ 63 ≤ v.toInt ∧ v.toInt < 2 ^ 63 := fitsInt64_iff.1 (fitsInt64_toInt v)
  have hbase : -2 ^ 63 ≤ b.toInt ∧ b.toInt < 2 ^ 63 := fitsInt64_iff.1 (fitsInt64_toInt b)
  rw [fitsInt64_iff] at hd
  have hle : m ≤ 0 := hm.2 ⟨Int.dvd_zero _, by omega⟩
  have hge : v.toInt ≤ m := hm.1.2
  rw [fitsInt64_iff]
  omega

end RoundUp

/-- Rounding up goes to the least multiple of the base, unless that or the distance from the integer
to the base overflows. -/
theorem Builtin.call_roundUp_int (v b : Int64) (hb : 0 < b.toInt) :
    ∃ m : ℤ, IsLeast {n : ℤ | b.toInt ∣ n ∧ v.toInt ≤ n} m ∧
      (FitsInt64 (b.toInt - v.toInt) →
        Builtin.roundUp.call [.int v, .int b] =
          if FitsInt64 m then .ok (.int (.ofInt m))
          else .error (.arithmetic (.overflow .add v (.ofInt (m - v.toInt))))) ∧
      (¬ FitsInt64 (b.toInt - v.toInt) → FitsInt64 m ∧
        Builtin.roundUp.call [.int v, .int b] =
          .error (.arithmetic (.overflow .subtract b v))) := by
  by_cases hd : FitsInt64 (b.toInt - v.toInt)
  · obtain ⟨r, hrem, happly⟩ := Builtin.apply_roundUp_near hb hd
    refine ⟨v.toInt + r.toInt, hrem.isLeast hb, fun _ => ?_, fun h => absurd hd h⟩
    rw [Builtin.call_pair, happly, mapError_checked,
      show v.toInt + r.toInt - v.toInt = r.toInt by omega, Int64.ofInt_toInt]
  · have hleast := (isFloorRemainder_emod (b.toInt - v.toInt) hb).isLeast hb
    refine ⟨_, hleast, fun h => absurd h hd, fun _ => ⟨fitsInt64_of_isLeast hb hleast hd, ?_⟩⟩
    rw [Builtin.call_pair, Builtin.apply_roundUp_far hb hd]
    rfl

/-- The least integer is a multiple of one, and is refused. Near the greatest one the multiple is
out of range. -/
theorem leastInteger_call_roundUp :
    (0 < (1 : Int64).toInt ∧
      Builtin.roundUp.call [.int Int64.minValue, .int 1] =
        .error (.arithmetic (.overflow .subtract 1 Int64.minValue))) ∧
    (0 < (10 : Int64).toInt ∧ ∃ m, IsLeast {n : ℤ | (10 : Int64).toInt ∣ n ∧
        Int64.maxValue.toInt ≤ n} m ∧
      Builtin.roundUp.call [.int Int64.maxValue, .int 10] =
        if FitsInt64 m then .ok (.int (.ofInt m))
        else .error (.arithmetic (.overflow .add Int64.maxValue
          (.ofInt (m - Int64.maxValue.toInt))))) := by
  constructor
  · have hb : 0 < (1 : Int64).toInt := by decide
    obtain ⟨m, -, -, h⟩ := Builtin.call_roundUp_int Int64.minValue 1 hb
    exact ⟨hb, (h (by decide)).2⟩
  · have hb : 0 < (10 : Int64).toInt := by decide
    obtain ⟨m, hm, h, -⟩ := Builtin.call_roundUp_int Int64.maxValue 10 hb
    exact ⟨hb, m, hm, h (by decide)⟩

section RoundDown

variable {a b : Int64}

theorem Builtin.call_roundDown (hb : b ≠ 0) (hcase : ¬ (a = Int64.minValue ∧ b = -1)) :
    Builtin.roundDown.call [.int a, .int b] =
      if FitsInt64 (b.toInt * ⌊(a.toInt : ℚ) / b.toInt⌋) then
        .ok (.int (.ofInt (b.toInt * ⌊(a.toInt : ℚ) / b.toInt⌋)))
      else .error (.arithmetic (.overflow .subtract a (Number.floorRemainder a b))) := by
  rw [(Number.isFloorRemainder hb).mul_floor, Builtin.call_pair, Builtin.apply_roundDown hb,
    Number.floorMod_int hb hcase]
  show (Number.apply .subtract (.int a) (.int (Number.floorRemainder a b))).mapError _ = _
  rw [Number.apply_int .subtract rfl, mapError_checked]

end RoundDown

/-- Remainders of integers are exact and never overflow. Rounding down overflows only where its
result does, and a base of zero is refused. -/
theorem Number.floorMod_roundDown_int (a b : Int64) :
    (b ≠ 0 → ¬ (a = Int64.minValue ∧ b = -1) → ∃ r : Int64,
      Number.floorMod (.int a) (.int b) = .ok (.int r) ∧
      IsFloorRemainder a.toInt b.toInt r.toInt ∧
      (∀ r', IsFloorRemainder a.toInt b.toInt r' → r' = r.toInt) ∧
      (a % b).toInt = a.toInt.tmod b.toInt ∧
      (¬ (a % b < 0 ↔ b < 0) → FitsInt64 ((a % b).toInt + b.toInt)) ∧
      (Builtin.roundDown.call [.int a, .int b] =
        if FitsInt64 (b.toInt * ⌊(a.toInt : ℚ) / b.toInt⌋) then
          .ok (.int (.ofInt (b.toInt * ⌊(a.toInt : ℚ) / b.toInt⌋)))
        else .error (.arithmetic (.overflow .subtract a r))) ∧
      (0 < b.toInt → IsGreatest {n : ℤ | b.toInt ∣ n ∧ n ≤ a.toInt}
        (b.toInt * ⌊(a.toInt : ℚ) / b.toInt⌋))) ∧
    (b = 0 → Number.floorMod (.int a) (.int b) = .error .divisionByZero ∧
      Builtin.roundDown.call [.int a, .int b] =
        .error (.arithmetic (.zeroBase .roundDown))) := by
  constructor
  · intro hb hcase
    have hrem : IsFloorRemainder a.toInt b.toInt (Number.floorRemainder a b).toInt :=
      Number.isFloorRemainder hb
    refine ⟨Number.floorRemainder a b, Number.floorMod_int hb hcase, hrem,
      fun r' h => h.unique hrem, Int64.toInt_mod a b, fitsInt64_remainder_add,
      Builtin.call_roundDown hb hcase, fun hpos => ?_⟩
    rw [hrem.mul_floor]
    exact hrem.isGreatest hpos
  · rintro rfl
    exact ⟨rfl, rfl⟩

/-- The greatest integer by the least: both steps of the remainder are taken, and the quotient,
`-1`, leads out of the range. -/
theorem extremes_floorMod_roundDown :
    ((Int64.minValue ≠ 0 ∧ ¬ (Int64.maxValue = Int64.minValue ∧ Int64.minValue = -1)) ∧
      ∃ r : Int64, Number.floorMod (.int Int64.maxValue) (.int Int64.minValue) = .ok (.int r) ∧
        IsFloorRemainder Int64.maxValue.toInt Int64.minValue.toInt r.toInt ∧
        Builtin.roundDown.call [.int Int64.maxValue, .int Int64.minValue] =
          .error (.arithmetic (.overflow .subtract Int64.maxValue r))) ∧
    (0 < (5 : Int64).toInt ∧ IsGreatest {n : ℤ | (5 : Int64).toInt ∣ n ∧ n ≤ (-7 : Int64).toInt}
      ((5 : Int64).toInt * ⌊((-7 : Int64).toInt : ℚ) / (5 : Int64).toInt⌋)) ∧
    Number.floorMod (.int 7) (.int 0) = .error .divisionByZero := by
  refine ⟨?_, ?_, ((Number.floorMod_roundDown_int 7 0).2 rfl).1⟩
  · have hb : Int64.minValue ≠ 0 := by decide
    have hcase : ¬ (Int64.maxValue = Int64.minValue ∧ Int64.minValue = -1) := by decide
    obtain ⟨r, hmod, hrem, hunique, -, -, hdown, -⟩ :=
      (Number.floorMod_roundDown_int Int64.maxValue Int64.minValue).1 hb hcase
    have hr : -1 = r.toInt := hunique (-1) ⟨by decide, by decide⟩
    refine ⟨⟨hb, hcase⟩, r, hmod, hrem, ?_⟩
    rw [hdown, hrem.mul_floor, ← hr]
    exact if_neg (by decide)
  · have hpos : 0 < (5 : Int64).toInt := by decide
    obtain ⟨r, -, -, -, -, -, -, hgreatest⟩ :=
      (Number.floorMod_roundDown_int (-7) 5).1 (by decide) (by decide)
    exact ⟨hpos, hgreatest hpos⟩

end Stencil
