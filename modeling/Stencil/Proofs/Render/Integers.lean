import Stencil.Proofs.Value.Integer

/-! Expressions of integers under sums, differences and products. They come to their exact value, or
an operation in them overflows. -/
namespace Stencil

/-- The exact value of an expression of integers and names of integers with parentheses, sums,
differences and products. Anything else has none. -/
def Expr.exactValue? (scope : Scope) : Expr → Option ℤ
  | .slot name =>
    match scope.get? name with
    | some (.number (.int n)) => some n.toInt
    | _ => none
  | .number (.int n) => some n.toInt
  | .number (.float _) => none
  | .group inner => inner.exactValue? scope
  | .binary op lhs rhs => do
    let f ← op.exactFunction?
    return f (← lhs.exactValue? scope) (← rhs.exactValue? scope)
  | .call _ _ => none

/-- An expression stands somewhere in another, or is it. -/
inductive Expr.Part (e : Expr) : Expr → Prop
  | whole : Part e e
  | group {inner : Expr} (h : Part e inner) : Part e (.group inner)
  | lhs {op : Operator} {lhs rhs : Expr} (h : Part e lhs) : Part e (.binary op lhs rhs)
  | rhs {op : Operator} {lhs rhs : Expr} (h : Part e rhs) : Part e (.binary op lhs rhs)
  | argument {f : Builtin} {args : List Expr} {arg : Expr} (hmem : arg ∈ args) (h : Part e arg) :
    Part e (.call f args)

/-- The exact value of each operation in the expression is a 64-bit integer. -/
def Expr.InRange (scope : Scope) (e : Expr) : Prop :=
  ∀ (op : Operator) (lhs rhs : Expr) (n : ℤ), (Expr.binary op lhs rhs).Part e →
    (Expr.binary op lhs rhs).exactValue? scope = some n → FitsInt64 n

/-- An operation in the expression has integers as its operands and a value that is none, and the
failure names it. -/
inductive Expr.Overflows (scope : Scope) (e : Expr) : EvalError → Prop
  | mk {op : Operator} {lhs rhs : Expr} {a b : Int64} {n : ℤ}
    (hpart : (Expr.binary op lhs rhs).Part e) (hlhs : lhs.exactValue? scope = some a.toInt)
    (hrhs : rhs.exactValue? scope = some b.toInt)
    (hvalue : (Expr.binary op lhs rhs).exactValue? scope = some n) (hn : ¬ FitsInt64 n) :
    Overflows scope e (.arithmetic (.overflow op a b))

/-- Evaluation either comes to the integer, with all values on the way in range, or overflows. -/
inductive Expr.Computes (scope : Scope) (e : Expr) (n : ℤ) : Prop
  | value (m : Int64) (hm : m.toInt = n) (heval : e.eval scope = .ok (.number (.int m)))
    (hrange : e.InRange scope)
  | overflow (err : EvalError) (heval : e.eval scope = .error err) (h : e.Overflows scope err)

section Exact

variable {scope : Scope}

theorem Expr.exactValue?_slot {name : String} {n : ℤ}
    (h : (Expr.slot name).exactValue? scope = some n) :
    ∃ m : Int64, scope.get? name = some (.number (.int m)) ∧ m.toInt = n := by
  rw [Expr.exactValue?] at h
  split at h
  · rename_i m hm
    cases h
    exact ⟨m, hm, rfl⟩
  · cases h

theorem Expr.exactValue?_binary {op : Operator} {lhs rhs : Expr} {n : ℤ}
    (h : (Expr.binary op lhs rhs).exactValue? scope = some n) :
    ∃ f k l, op.exactFunction? = some f ∧ lhs.exactValue? scope = some k ∧
      rhs.exactValue? scope = some l ∧ n = f k l := by
  rw [Expr.exactValue?] at h
  simp only [Option.bind_eq_bind, Option.bind_eq_some_iff] at h
  obtain ⟨f, hf, k, hk, l, hl, h⟩ := h
  cases h
  exact ⟨f, k, l, hf, hk, hl, rfl⟩

/-- A leaf has no operation. -/
theorem Expr.inRange_of_no_part {e : Expr}
    (h : ∀ op lhs rhs, ¬ (Expr.binary op lhs rhs).Part e) : e.InRange scope :=
  fun op lhs rhs _ hpart _ => absurd hpart (h op lhs rhs)

theorem Expr.InRange.group {inner : Expr} (h : inner.InRange scope) :
    (Expr.group inner).InRange scope := by
  intro op lhs rhs n hpart hn
  cases hpart with
  | group hpart => exact h op lhs rhs n hpart hn

theorem Expr.InRange.binary {op : Operator} {lhs rhs : Expr} {n : ℤ}
    (hl : lhs.InRange scope) (hr : rhs.InRange scope)
    (hvalue : (Expr.binary op lhs rhs).exactValue? scope = some n) (hn : FitsInt64 n) :
    (Expr.binary op lhs rhs).InRange scope := by
  intro op' lhs' rhs' n' hpart hn'
  cases hpart with
  | whole =>
    cases hvalue.symm.trans hn'
    exact hn
  | lhs hpart => exact hl op' lhs' rhs' n' hpart hn'
  | rhs hpart => exact hr op' lhs' rhs' n' hpart hn'

theorem Expr.Overflows.mono {e e' : Expr} {err : EvalError} (h : e.Overflows scope err)
    (hpart : ∀ part : Expr, part.Part e → part.Part e') : e'.Overflows scope err := by
  cases h with
  | mk hin hlhs hrhs hvalue hn => exact .mk (hpart _ hin) hlhs hrhs hvalue hn

theorem Expr.Overflows.not_inRange {e : Expr} {err : EvalError} (h : e.Overflows scope err) :
    ¬ e.InRange scope := by
  intro hrange
  cases h with
  | mk hpart _ _ hvalue hn => exact hn (hrange _ _ _ _ hpart hvalue)

/-- The value of an operation on two integers decides, once both operands have come to theirs. -/
theorem Expr.computes_operation {op : Operator} {lhs rhs : Expr} {f : ℤ → ℤ → ℤ} {a b : Int64}
    (hop : op.exactFunction? = some f) (hl : lhs.exactValue? scope = some a.toInt)
    (hr : rhs.exactValue? scope = some b.toInt)
    (hlhs : lhs.eval scope = .ok (.number (.int a)))
    (hrhs : rhs.eval scope = .ok (.number (.int b)))
    (hlRange : lhs.InRange scope) (hrRange : rhs.InRange scope) :
    (Expr.binary op lhs rhs).Computes scope (f a.toInt b.toInt) := by
  have hvalue : (Expr.binary op lhs rhs).exactValue? scope = some (f a.toInt b.toInt) := by
    rw [Expr.exactValue?, hop, hl, hr]
    rfl
  have heval : (Expr.binary op lhs rhs).eval scope =
      (Number.apply op (.int a) (.int b)).mapError .arithmetic >>= fun m => .ok (.number m) := by
    rw [Expr.eval, hlhs, hrhs]
    rfl
  rw [Number.apply_int _ hop] at heval
  by_cases hn : FitsInt64 (f a.toInt b.toInt)
  · rw [if_pos hn] at heval
    exact .value _ hn.toInt_ofInt heval (hlRange.binary hrRange hvalue hn)
  · rw [if_neg hn] at heval
    exact .overflow _ heval (.mk .whole hl hr hvalue hn)

/-- An operand on the left is evaluated first, and one on the right next. A failure of either is
that of the operation. -/
theorem Expr.computes_binary {op : Operator} {lhs rhs : Expr} {f : ℤ → ℤ → ℤ} {k l : ℤ}
    (hop : op.exactFunction? = some f) (hl : lhs.exactValue? scope = some k)
    (hr : rhs.exactValue? scope = some l)
    (hlhs : lhs.Computes scope k) (hrhs : rhs.Computes scope l) :
    (Expr.binary op lhs rhs).Computes scope (f k l) := by
  cases hlhs with
  | overflow err heval h =>
    refine .overflow err ?_ (h.mono fun _ => .lhs)
    rw [Expr.eval, heval]
    rfl
  | value a ha hlEval hlRange =>
    cases hrhs with
    | overflow err heval h =>
      refine .overflow err ?_ (h.mono fun _ => .rhs)
      rw [Expr.eval, hlEval, heval]
      rfl
    | value b hb hrEval hrRange =>
      subst ha hb
      exact Expr.computes_operation hop hl hr hlEval hrEval hlRange hrRange

theorem Expr.computes : ∀ (e : Expr) {n : ℤ}, e.exactValue? scope = some n → e.Computes scope n
  | .slot name, n, h => by
    obtain ⟨m, hm, rfl⟩ := Expr.exactValue?_slot h
    refine .value m rfl ?_ (Expr.inRange_of_no_part fun op lhs rhs hpart => by cases hpart)
    rw [Expr.eval, Scope.resolve, hm]
  | .number (.int m), n, h => by
    rw [Expr.exactValue?] at h
    cases h
    refine .value m rfl ?_ (Expr.inRange_of_no_part fun op lhs rhs hpart => by cases hpart)
    rw [Expr.eval]
  | .number (.float x), n, h => by
    rw [Expr.exactValue?] at h
    cases h
  | .group inner, n, h => by
    rw [Expr.exactValue?] at h
    have heq : (Expr.group inner).eval scope = inner.eval scope := by rw [Expr.eval]
    cases inner.computes h with
    | value m hm heval hrange => exact .value m hm (heq.trans heval) hrange.group
    | overflow err heval h => exact .overflow err (heq.trans heval) (h.mono fun _ => .group)
  | .binary op lhs rhs, n, h => by
    obtain ⟨f, k, l, hop, hl, hr, rfl⟩ := Expr.exactValue?_binary h
    exact Expr.computes_binary hop hl hr (lhs.computes hl) (rhs.computes hr)
  | .call f args, n, h => by
    rw [Expr.exactValue?] at h
    cases h

end Exact

/-- An expression of integers comes to its exact value, or fails by the overflow of an operation on
the exact values of its operands. -/
theorem Expr.eval_integers {scope : Scope} {e : Expr} {n : ℤ} (h : e.exactValue? scope = some n) :
    (e.InRange scope → ∃ m : Int64, m.toInt = n ∧ e.eval scope = .ok (.number (.int m))) ∧
      (¬ e.InRange scope → ∃ err, e.eval scope = .error err ∧ e.Overflows scope err) := by
  cases e.computes h with
  | value m hm heval hrange =>
    exact ⟨fun _ => ⟨m, hm, heval⟩, fun hnot => absurd hrange hnot⟩
  | overflow err heval hover =>
    exact ⟨fun hrange => absurd hrange hover.not_inRange, fun _ => ⟨err, heval, hover⟩⟩

/-- The sum overflows, and what is taken away again would lead back. -/
def excursion : Expr :=
  .binary .subtract (.group (.binary .add (.slot "n") (.number (.int 1)))) (.number (.int 1))

def greatestScope : Scope := .bind "n" (.number (.int Int64.maxValue)) (.root .empty)

def smallScope : Scope := .root (Context.empty.insert "n" (.number (.int 6)))

theorem excursion_eval_integers :
    (excursion.exactValue? greatestScope = some Int64.maxValue.toInt ∧
      ¬ excursion.InRange greatestScope ∧
      ∃ err, excursion.eval greatestScope = .error err ∧ excursion.Overflows greatestScope err) ∧
    (excursion.exactValue? smallScope = some 6 ∧ excursion.InRange smallScope ∧
      ∃ m : Int64, m.toInt = 6 ∧ excursion.eval smallScope = .ok (.number (.int m))) := by
  constructor
  · have h : excursion.exactValue? greatestScope = some Int64.maxValue.toInt := rfl
    have hrange : ¬ excursion.InRange greatestScope := by
      intro hrange
      exact absurd (hrange .add _ _ _ (.lhs (.group .whole)) rfl) (by decide)
    exact ⟨h, hrange, (Expr.eval_integers h).2 hrange⟩
  · have h : excursion.exactValue? smallScope = some 6 := rfl
    have hleaf : (Expr.slot "n").InRange smallScope :=
      Expr.inRange_of_no_part fun op lhs rhs hpart => by cases hpart
    have hone : (Expr.number (.int 1)).InRange smallScope :=
      Expr.inRange_of_no_part fun op lhs rhs hpart => by cases hpart
    have hsum : (Expr.binary .add (.slot "n") (.number (.int 1))).exactValue? smallScope = some 7 :=
      rfl
    have hrange : excursion.InRange smallScope :=
      (hleaf.binary hone hsum (by decide)).group.binary hone h (by decide)
    exact ⟨h, hrange, (Expr.eval_integers h).1 hrange⟩

end Stencil
