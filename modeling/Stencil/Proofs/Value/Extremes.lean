import Stencil.Proofs.Value.Conversion
import Stencil.Proofs.Value.Integer

/-! The smaller and the greater of two integers. They are compared as doubles, so that integers that
one double is nearest to count as equal, and the first of them is the answer. -/
namespace Stencil

/-- One double is nearest to both integers. -/
def SameDouble (a b : Int64) : Prop := nearestDouble a.toInt = nearestDouble b.toInt

instance (a b : Int64) : Decidable (SameDouble a b) := inferInstanceAs (Decidable (_ = _))

/-- The smaller one of two integers that doubles tell apart, and else the first. -/
def lesser (a b : Int64) : Int64 := if ¬ SameDouble b a ∧ b.toInt < a.toInt then b else a

/-- The greater one of two integers that doubles tell apart, and else the first. -/
def greater (a b : Int64) : Int64 := if ¬ SameDouble a b ∧ a.toInt < b.toInt then b else a

section Pair

variable {a b : Int64}

theorem SameDouble.symm (h : SameDouble a b) : SameDouble b a := Eq.symm h

theorem SameDouble.near (h : SameDouble a b) : |a.toInt - b.toInt| ≤ 2 ^ 10 := by
  have ha := fitsInt64_iff.1 (fitsInt64_toInt a)
  have hb := fitsInt64_iff.1 (fitsInt64_toInt b)
  have hfirst := abs_le.1 (nearestDouble_near (n := a.toInt) (by omega))
  have hsecond := abs_le.1 (nearestDouble_near (n := b.toInt) (by omega))
  unfold SameDouble at h
  rw [abs_le]
  omega

theorem SameDouble.eq (h : SameDouble a b) (ha : a.toInt.natAbs ≤ 2 ^ 53)
    (hb : b.toInt.natAbs ≤ 2 ^ 53) : a = b := by
  unfold SameDouble at h
  rw [nearestDouble_of_le ha, nearestDouble_of_le hb] at h
  exact Int64.toInt_inj.1 h

theorem toInt_lesser (a b : Int64) :
    (lesser a b).toInt = if SameDouble a b then a.toInt else min a.toInt b.toInt := by
  unfold lesser
  by_cases hsame : SameDouble a b
  · rw [if_pos hsame, if_neg fun h => h.1 hsame.symm]
  · rw [if_neg hsame]
    by_cases hlt : b.toInt < a.toInt
    · rw [if_pos ⟨fun h => hsame h.symm, hlt⟩]
      omega
    · rw [if_neg fun h => hlt h.2]
      omega

theorem toInt_greater (a b : Int64) :
    (greater a b).toInt = if SameDouble a b then a.toInt else max a.toInt b.toInt := by
  unfold greater
  by_cases hsame : SameDouble a b
  · rw [if_pos hsame, if_neg fun h => h.1 hsame]
  · rw [if_neg hsame]
    by_cases hlt : a.toInt < b.toInt
    · rw [if_pos ⟨hsame, hlt⟩]
      omega
    · rw [if_neg fun h => hlt h.2]
      omega

theorem toFloat_lt_iff :
    (Number.int a).toFloat < (Number.int b).toFloat ↔
      ¬ SameDouble a b ∧ a.toInt < b.toInt := by
  have ha := fitsInt64_iff.1 (fitsInt64_toInt a)
  have hb := fitsInt64_iff.1 (fitsInt64_toInt b)
  have hnearest : (Number.int a).toFloat < (Number.int b).toFloat ↔
      nearestDouble a.toInt < nearestDouble b.toInt := ofInt_lt_iff (by omega) (by omega)
  rw [hnearest]
  unfold SameDouble
  -- Rounding keeps the order, so that doubles that differ are ordered as the integers.
  rcases lt_or_ge a.toInt b.toInt with hlt | hle
  · have hmono := nearestDouble_mono hlt.le
    omega
  · have hmono := nearestDouble_mono hle
    omega

theorem call_minimum_int (a b : Int64) :
    Builtin.minimum.call [.int a, .int b] = .ok (.int (lesser a b)) := by
  have hcall : Builtin.minimum.call [.int a, .int b] =
      .ok (if (Number.int b).toFloat < (Number.int a).toFloat then .int b else .int a) := rfl
  rw [hcall, if_congr toFloat_lt_iff rfl rfl, lesser, apply_ite Number.int]

theorem call_maximum_int (a b : Int64) :
    Builtin.maximum.call [.int a, .int b] = .ok (.int (greater a b)) := by
  have hcall : Builtin.maximum.call [.int a, .int b] =
      .ok (if (Number.int a).toFloat < (Number.int b).toFloat then .int b else .int a) := rfl
  rw [hcall, if_congr toFloat_lt_iff rfl rfl, greater, apply_ite Number.int]

end Pair

section Choice

variable {f : Int64 → Int64 → Int64} {g : ℤ → ℤ → ℤ} {a b : Int64}
variable (hf : ∀ a b, (f a b).toInt = if SameDouble a b then a.toInt else g a.toInt b.toInt)
include hf

/-- The order of the arguments matters where doubles do not tell them apart. -/
theorem choice_comm_iff (hg : ∀ m n, g m n = g n m) :
    f b a = f a b ↔ (SameDouble a b → a = b) := by
  rw [← Int64.toInt_inj, hf, hf]
  by_cases hsame : SameDouble a b
  · rw [if_pos hsame, if_pos hsame.symm, Int64.toInt_inj]
    exact ⟨fun heq _ => heq.symm, fun heq => (heq hsame).symm⟩
  · rw [if_neg hsame, if_neg fun h => hsame h.symm]
    exact iff_of_true (hg _ _) fun h => absurd h hsame

theorem choice_near (hg : ∀ m n, |m - g m n| ≤ |m - n|) :
    |(f a b).toInt - g a.toInt b.toInt| ≤ 2 ^ 10 := by
  rw [hf]
  by_cases hsame : SameDouble a b
  · rw [if_pos hsame]
    exact (hg _ _).trans hsame.near
  · rw [if_neg hsame, sub_self, abs_zero]
    omega

end Choice

/-- `Minimum` and `Maximum` of integers are exact unless one double is nearest to both, which no
integers up to `2 ^ 53` have in common. -/
theorem Builtin.call_extremes_int (a b : Int64) :
    ∃ least greatest : Int64,
      Builtin.minimum.call [.int a, .int b] = .ok (.int least) ∧
      Builtin.maximum.call [.int a, .int b] = .ok (.int greatest) ∧
      least.toInt = (if SameDouble a b then a.toInt else min a.toInt b.toInt) ∧
      greatest.toInt = (if SameDouble a b then a.toInt else max a.toInt b.toInt) ∧
      |least.toInt - min a.toInt b.toInt| ≤ 2 ^ 10 ∧
      |greatest.toInt - max a.toInt b.toInt| ≤ 2 ^ 10 ∧
      (Builtin.minimum.call [.int b, .int a] = .ok (.int least) ↔ (SameDouble a b → a = b)) ∧
      (Builtin.maximum.call [.int b, .int a] = .ok (.int greatest) ↔ (SameDouble a b → a = b)) ∧
      (a.toInt.natAbs ≤ 2 ^ 53 → b.toInt.natAbs ≤ 2 ^ 53 → SameDouble a b → a = b) := by
  refine ⟨lesser a b, greater a b, call_minimum_int a b, call_maximum_int a b,
    toInt_lesser a b, toInt_greater a b, ?_, ?_, ?_, ?_, fun ha hb h => h.eq ha hb⟩
  · exact choice_near toInt_lesser fun m n => by
      rcases min_choice m n with h | h <;> rw [h]
      rw [sub_self, abs_zero]
      exact abs_nonneg _
  · exact choice_near toInt_greater fun m n => by
      rcases max_choice m n with h | h <;> rw [h]
      rw [sub_self, abs_zero]
      exact abs_nonneg _
  · rw [call_minimum_int, Except.ok.injEq, Number.int.injEq]
    exact choice_comm_iff toInt_lesser min_comm
  · rw [call_maximum_int, Except.ok.injEq, Number.int.injEq]
    exact choice_comm_iff toInt_greater max_comm

/-- Below `2 ^ 53` doubles tell neighbours apart, and above it no longer. -/
theorem neighbours_call_extremes_int :
    Builtin.minimum.call [.int 9007199254740992, .int 9007199254740991] =
        .ok (.int 9007199254740991) ∧
      Builtin.minimum.call [.int 9007199254740993, .int 9007199254740992] =
        .ok (.int 9007199254740993) := by
  obtain ⟨least, -, hcall, -, hleast, -, -, -, -, -, hexact⟩ :=
    Builtin.call_extremes_int 9007199254740992 9007199254740991
  obtain ⟨first, -, hcall', -, hfirst, -⟩ :=
    Builtin.call_extremes_int 9007199254740993 9007199254740992
  have hsmall : ¬ SameDouble 9007199254740992 9007199254740991 := fun h =>
    absurd (hexact (by decide) (by decide) h) (by decide)
  have hsame : SameDouble 9007199254740993 9007199254740992 := by decide
  rw [if_neg hsmall] at hleast
  rw [if_pos hsame] at hfirst
  have hvalue : least = 9007199254740991 := Int64.toInt_inj.1 (hleast.trans (by decide))
  have hvalue' : first = 9007199254740993 := Int64.toInt_inj.1 hfirst
  rw [hvalue] at hcall
  rw [hvalue'] at hcall'
  exact ⟨hcall, hcall'⟩

end Stencil
