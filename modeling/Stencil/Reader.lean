/-! Readers: steps that answer or fail, and never lengthen what is left to read. -/
namespace Stencil

/-- How much is left to read. -/
class Sized (σ : Type) where
  size : σ → Nat

export Sized (size)

instance (α : Type) : Sized (List α) := ⟨List.length⟩

/-- A step from what is left to read, to an answer or a failure, and to what is left then. -/
structure Reader (σ : Type) [Sized σ] (ε α : Type) where
  run : σ → Except ε α × σ
  size_run_le : ∀ s, size (run s).2 ≤ size s

namespace Reader

variable {σ ε α β γ : Type} [Sized σ]

theorem ext {r r' : Reader σ ε α} (h : ∀ s, r.run s = r'.run s) : r = r' := by
  cases r; cases r'; congr; exact funext h

protected def pure (a : α) : Reader σ ε α := ⟨fun s => (.ok a, s), fun _ => Nat.le_refl _⟩

protected def bind (r : Reader σ ε α) (f : α → Reader σ ε β) : Reader σ ε β where
  run s :=
    match r.run s with
    | (.ok a, s) => (f a).run s
    | (.error e, s) => (.error e, s)
  size_run_le s := by
    have first := r.size_run_le s
    split <;> rename_i h
    · rw [h] at first; exact Nat.le_trans ((f _).size_run_le _) first
    · rw [h] at first; exact first

instance : Monad (Reader σ ε) where
  pure := Reader.pure
  bind := Reader.bind

@[simp] theorem run_pure (a : α) (s : σ) : (pure a : Reader σ ε α).run s = (.ok a, s) := rfl

theorem run_bind (r : Reader σ ε α) (f : α → Reader σ ε β) (s : σ) :
    (r >>= f).run s = match r.run s with
      | (.ok a, s) => (f a).run s
      | (.error e, s) => (.error e, s) := rfl

theorem run_bind_ok {r : Reader σ ε α} {s s' : σ} {a : α} (h : r.run s = (.ok a, s'))
    (f : α → Reader σ ε β) : (r >>= f).run s = (f a).run s' := by rw [run_bind, h]

theorem run_bind_eq_ok {r : Reader σ ε α} {f : α → Reader σ ε β} {s s' : σ} {b : β} :
    (r >>= f).run s = (.ok b, s') ↔
      ∃ a s₁, r.run s = (.ok a, s₁) ∧ (f a).run s₁ = (.ok b, s') := by
  rw [run_bind]
  split <;> rename_i h
  · exact ⟨fun ok => ⟨_, _, h, ok⟩, fun ⟨a, s₁, first, ok⟩ => by
      rw [h] at first; cases first; exact ok⟩
  · simp [h]

theorem size_le_of_run {r : Reader σ ε α} {s s' : σ} {answer : Except ε α}
    (h : r.run s = (answer, s')) : size s' ≤ size s := by
  simpa [h] using r.size_run_le s

private theorem map_id_run (r : Reader σ ε α) (s : σ) : (id <$> r).run s = r.run s := by
  change (r >>= fun a => pure (id a)).run s = r.run s
  rw [run_bind]
  split <;> rename_i h <;> exact h.symm

private theorem bind_assoc_run (r : Reader σ ε α) (f : α → Reader σ ε β) (g : β → Reader σ ε γ)
    (s : σ) : (r >>= f >>= g).run s = (r >>= fun a => f a >>= g).run s := by
  simp only [run_bind]
  split <;> rename_i h <;> split at h <;> simp_all

instance : LawfulMonad (Reader σ ε) :=
  .mk' _ (fun r => ext (map_id_run r)) (fun _ _ => rfl) fun r f g => ext (bind_assoc_run r f g)

/-- What is left, as it is. -/
def get : Reader σ ε σ := ⟨fun s => (.ok s, s), fun _ => Nat.le_refl _⟩

@[simp] theorem run_get (s : σ) : (get : Reader σ ε σ).run s = (.ok s, s) := rfl

def fail (e : ε) : Reader σ ε α := ⟨fun s => (.error e, s), fun _ => Nat.le_refl _⟩

@[simp] theorem run_fail (e : ε) (s : σ) : (fail e : Reader σ ε α).run s = (.error e, s) := rfl

/-- Where the step asks for another round, less is left than before it. -/
def Shrinks (step : β → Reader σ ε (β ⊕ γ)) : Prop :=
  ∀ b b' s s', (step b).run s = (.ok (.inl b'), s') → size s' < size s

/-- Rounds of a step until it answers `.inr`, each from what the round before answered. -/
def repeatRun (step : β → Reader σ ε (β ⊕ γ)) (shrinks : Shrinks step) (b : β) (s : σ) :
    Except ε γ × σ :=
  match _h : (step b).run s with
  | (.ok (.inl b'), s') => repeatRun step shrinks b' s'
  | (.ok (.inr c), s') => (.ok c, s')
  | (.error e, s') => (.error e, s')
termination_by size s
decreasing_by exact shrinks _ _ _ _ ‹_›

theorem size_repeatRun_le (step : β → Reader σ ε (β ⊕ γ)) (shrinks : Shrinks step) (b : β)
    (s : σ) : size (repeatRun step shrinks b s).2 ≤ size s := by
  rw [repeatRun]
  have round := (step b).size_run_le s
  split <;> rename_i h <;> rw [h] at round
  · exact Nat.le_trans (size_repeatRun_le step shrinks _ _) round
  · exact round
  · exact round
termination_by size s
decreasing_by exact shrinks _ _ _ _ ‹_›

/-- Repeats a step, starting from `b`, until it answers `.inr`. -/
def repeatFrom (b : β) (step : β → Reader σ ε (β ⊕ γ)) (shrinks : Shrinks step) :
    Reader σ ε γ where
  run := repeatRun step shrinks b
  size_run_le := size_repeatRun_le step shrinks b

theorem repeatFrom_eq (b : β) (step : β → Reader σ ε (β ⊕ γ)) (shrinks : Shrinks step) :
    repeatFrom b step shrinks =
      step b >>= Sum.elim (fun b' => repeatFrom b' step shrinks) pure := by
  refine Reader.ext fun s => ?_
  rw [run_bind]
  change repeatRun step shrinks b s = _
  rw [repeatRun]
  split <;> rename_i h <;> simp only [h] <;> rfl

end Reader
end Stencil
