import Mathlib.Algebra.Order.Ring.Int
import Stencil.Render.Basic

/-! The whole numbers that are 64-bit integers, and the operators that are exact on them. -/
namespace Stencil

/-- There is a 64-bit integer of this value. -/
def FitsInt64 (n : ℤ) : Prop := Int64.minValue.toInt ≤ n ∧ n ≤ Int64.maxValue.toInt

instance : DecidablePred FitsInt64 := fun _ => inferInstanceAs (Decidable (_ ∧ _))

section Range

variable {n : ℤ}

theorem fitsInt64_iff : FitsInt64 n ↔ -2 ^ 63 ≤ n ∧ n < 2 ^ 63 := by
  have hmin : Int64.minValue.toInt = -2 ^ 63 := rfl
  have hmax : Int64.maxValue.toInt = 2 ^ 63 - 1 := rfl
  unfold FitsInt64
  omega

theorem fitsInt64_toInt (a : Int64) : FitsInt64 a.toInt := ⟨a.minValue_le_toInt, a.toInt_le⟩

theorem FitsInt64.toInt_ofInt (h : FitsInt64 n) : (Int64.ofInt n).toInt = n := by
  obtain ⟨hmin, hmax⟩ := fitsInt64_iff.1 h
  exact Int64.toInt_ofInt_of_le hmin hmax

theorem int64?_eq (n : ℤ) : Decimal.int64? n = if FitsInt64 n then some (.ofInt n) else none := rfl

theorem Number.ofInt_eq (failure : ArithmeticError) (n : ℤ) :
    Number.ofInt failure n = if FitsInt64 n then .ok (.int (.ofInt n)) else .error failure := by
  unfold Number.ofInt
  rw [int64?_eq]
  by_cases h : FitsInt64 n
  · rw [if_pos h, if_pos h]
  · rw [if_neg h, if_neg h]

end Range

/-- What an operator computes of whole numbers, if that is a whole number again. -/
def Operator.exactFunction? : Operator → Option (ℤ → ℤ → ℤ)
  | .add => some (· + ·)
  | .subtract => some (· - ·)
  | .multiply => some (· * ·)
  | .divide => none

/-- A sum, a difference and a product of integers is the exact one, or else an overflow. -/
theorem Number.apply_int (op : Operator) {f : ℤ → ℤ → ℤ} (hop : op.exactFunction? = some f)
    (a b : Int64) :
    Number.apply op (.int a) (.int b) =
      if FitsInt64 (f a.toInt b.toInt) then .ok (.int (.ofInt (f a.toInt b.toInt)))
      else .error (.overflow op a b) := by
  cases op with
  | add | subtract | multiply =>
    cases hop
    exact Number.ofInt_eq _ _
  | divide => cases hop

theorem Builtin.call_pair (f : Builtin) (a b : Number) :
    f.call [a, b] = (f.apply a b).mapError .arithmetic := rfl

/-- A checked answer keeps its condition when its failure becomes one of a call. -/
theorem mapError_checked {n : ℤ} {x : Number} {e : ArithmeticError} :
    (if FitsInt64 n then .ok x else .error e : Except ArithmeticError Number).mapError
        EvalError.arithmetic =
      if FitsInt64 n then .ok x else .error (.arithmetic e) := by
  by_cases h : FitsInt64 n
  · rw [if_pos h, if_pos h]
    rfl
  · rw [if_neg h, if_neg h]
    rfl

end Stencil
