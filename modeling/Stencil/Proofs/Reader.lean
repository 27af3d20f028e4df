import Stencil.Reader

/-! Induction over the rounds of a loop. -/
namespace Stencil.Reader

variable {σ ε β γ : Type} [Sized σ] {step : β → Reader σ ε (β ⊕ γ)}

/-- What holds of a last round, and is carried back over each round before it, holds of the loop. -/
theorem repeatFrom_ok_induction {P : β → σ → γ → σ → Prop} (shrinks : Shrinks step)
    (last : ∀ b s c s', (step b).run s = (.ok (.inr c), s') → P b s c s')
    (round : ∀ b s b' s₁ c s', (step b).run s = (.ok (.inl b'), s₁) → P b' s₁ c s' → P b s c s')
    {b : β} {s s' : σ} {c : γ} (ok : (repeatFrom b step shrinks).run s = (.ok c, s')) :
    P b s c s' := by
  rw [repeatFrom_eq, run_bind_eq_ok] at ok
  obtain ⟨next, s₁, hstep, ok⟩ := ok
  cases next with
  | inl b' =>
    have hlt : size s₁ < size s := shrinks b b' s s₁ hstep
    exact round b s b' s₁ c s' hstep (repeatFrom_ok_induction shrinks last round ok)
  | inr c' =>
    cases ok
    exact last b s c s' hstep
termination_by size s

/-- What holds of a round that fails, and is carried back over each round before it, holds of a loop
that fails. -/
theorem repeatFrom_error_induction {P : β → σ → ε → σ → Prop} (shrinks : Shrinks step)
    (last : ∀ b s e s', (step b).run s = (.error e, s') → P b s e s')
    (round : ∀ b s b' s₁ e s', (step b).run s = (.ok (.inl b'), s₁) → P b' s₁ e s' → P b s e s')
    {b : β} {s s' : σ} {e : ε} (failed : (repeatFrom b step shrinks).run s = (.error e, s')) :
    P b s e s' := by
  rw [repeatFrom_eq, run_bind] at failed
  split at failed
  · rename_i next s₁ hstep
    cases next with
    | inl b' =>
      have hlt : size s₁ < size s := shrinks b b' s s₁ hstep
      exact round b s b' s₁ e s' hstep (repeatFrom_error_induction shrinks last round failed)
    | inr c => cases failed
  · rename_i e' s₁ hstep
    cases failed
    exact last b s e s' hstep
termination_by size s

theorem run_repeatFrom_inl {shrinks : Shrinks step} {b b' : β} {s s₁ : σ}
    (h : (step b).run s = (.ok (.inl b'), s₁)) :
    (repeatFrom b step shrinks).run s = (repeatFrom b' step shrinks).run s₁ := by
  rw [repeatFrom_eq, run_bind_ok h]
  rfl

theorem run_repeatFrom_inr {shrinks : Shrinks step} {b : β} {s s' : σ} {c : γ}
    (h : (step b).run s = (.ok (.inr c), s')) :
    (repeatFrom b step shrinks).run s = (.ok c, s') := by
  rw [repeatFrom_eq, run_bind_ok h]
  rfl

end Stencil.Reader
