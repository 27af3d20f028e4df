import Stencil.Limits

/-! Limits in order: those that allow more in every respect are greater. -/
namespace Stencil.Limits

instance : LE Limits := ⟨fun limits limits' => ∀ limit, limits.get limit ≤ limits'.get limit⟩

/-- What two limits allow, in each respect the more generous of them. -/
def sup (limits limits' : Limits) : Limits where
  inputSize := max limits.inputSize limits'.inputSize
  tokenCount := max limits.tokenCount limits'.tokenCount
  identifierLength := max limits.identifierLength limits'.identifierLength
  expressionDepth := max limits.expressionDepth limits'.expressionDepth

theorem sup_le_iff {limits limits' upper : Limits} :
    limits.sup limits' ≤ upper ↔ limits ≤ upper ∧ limits' ≤ upper := by
  have hget (limit : Limit) :
      (limits.sup limits').get limit = max (limits.get limit) (limits'.get limit) := by
    cases limit <;> rfl
  constructor
  · intro h
    exact ⟨fun limit => Nat.le_trans (hget limit ▸ Nat.le_max_left _ _) (h limit),
      fun limit => Nat.le_trans (hget limit ▸ Nat.le_max_right _ _) (h limit)⟩
  · rintro ⟨h, h'⟩ limit
    rw [hget]
    exact Nat.max_le.2 ⟨h limit, h' limit⟩

/-- All limits that are large enough have a property. -/
def Ample (P : Limits → Prop) : Prop := ∃ least : Limits, ∀ limits, least ≤ limits → P limits

namespace Ample

variable {P Q : Limits → Prop}

theorem imp (h : Ample P) (hPQ : ∀ limits, P limits → Q limits) : Ample Q := by
  obtain ⟨least, hleast⟩ := h
  exact ⟨least, fun limits hle => hPQ limits (hleast limits hle)⟩

theorem and (h : Ample P) (h' : Ample Q) : Ample fun limits => P limits ∧ Q limits := by
  obtain ⟨least, hleast⟩ := h
  obtain ⟨least', hleast'⟩ := h'
  refine ⟨least.sup least', fun limits hle => ?_⟩
  rw [sup_le_iff] at hle
  exact ⟨hleast limits hle.1, hleast' limits hle.2⟩

theorem forall_mem {α : Type} {P : α → Limits → Prop} {l : List α} (h : ∀ a ∈ l, Ample (P a)) :
    Ample fun limits => ∀ a ∈ l, P a limits := by
  induction l with
  | nil => exact ⟨{}, by simp⟩
  | cons a l ih =>
    rw [List.forall_mem_cons] at h
    refine (h.1.and (ih h.2)).imp fun limits hall => ?_
    rwa [List.forall_mem_cons]

theorem of_forall (h : ∀ limits, P limits) : Ample P := ⟨{}, fun limits _ => h limits⟩

theorem le (least : Limits) : Ample fun limits => least ≤ limits := ⟨least, fun _ h => h⟩

end Ample

end Stencil.Limits
