import Stencil.Proofs.Document.Renaming

/-! Explicit parentheses. They tell how a template is read; in the tree, neither what an expression
demands nor what it comes to depends on them. -/
namespace Stencil

mutual

/-- Parentheses are put around parts of an expression or taken away from them. Those that stay are
taken away and put back. -/
inductive Expr.Regrouped : Expr → Expr → Prop
  | slot (name : String) : Expr.Regrouped (.slot name) (.slot name)
  | number (value : Number) : Expr.Regrouped (.number value) (.number value)
  | binary (op : Operator) {lhs lhs' rhs rhs' : Expr} (left : Expr.Regrouped lhs lhs')
      (right : Expr.Regrouped rhs rhs') : Expr.Regrouped (.binary op lhs rhs) (.binary op lhs' rhs')
  | call (f : Builtin) {args args' : List Expr} (each : ArgumentsRegrouped args args') :
      Expr.Regrouped (.call f args) (.call f args')
  | insert {e e' : Expr} (inner : Expr.Regrouped e e') : Expr.Regrouped e (.group e')
  | remove {e e' : Expr} (inner : Expr.Regrouped e e') : Expr.Regrouped (.group e) e'

inductive ArgumentsRegrouped : List Expr → List Expr → Prop
  | nil : ArgumentsRegrouped [] []
  | cons {arg arg' : Expr} {args args' : List Expr} (first : Expr.Regrouped arg arg')
      (rest : ArgumentsRegrouped args args') : ArgumentsRegrouped (arg :: args) (arg' :: args')

end

mutual

/-- What is wanted of a group is wanted of the expression in it. -/
theorem Expr.Regrouped.demands_eq : ∀ {e e' : Expr}, e.Regrouped e' →
    ∀ type, e'.demands type = e.demands type
  | _, _, .slot _, _ => rfl
  | _, _, .number _, _ => rfl
  | .binary .., .binary .., .binary _ left right, _ => by
    rw [Expr.demands, Expr.demands, left.demands_eq, right.demands_eq]
  | .call .., .call .., .call _ each, _ => by
    rw [Expr.demands, Expr.demands, each.demands_eq]
  | _, .group _, .insert inner, type => by
    rw [Expr.demands, inner.demands_eq]
  | .group _, _, .remove inner, type => by
    rw [Expr.demands, inner.demands_eq]

theorem ArgumentsRegrouped.demands_eq : ∀ {args args' : List Expr}, ArgumentsRegrouped args args' →
    ∀ declared, argumentDemands declared args' = argumentDemands declared args
  | _, _, .nil, _ => rfl
  | _ :: _, _ :: _, .cons first rest, _ => by
    rw [argumentDemands, argumentDemands, first.demands_eq, rest.demands_eq]

end

mutual

/-- Only a bare name is told when an operand is no number, and a group is none. -/
theorem Expr.Regrouped.eval_unnamed (scope : Scope) : ∀ {e e' : Expr}, e.Regrouped e' →
    (e'.eval scope).mapError EvalError.unnamed = (e.eval scope).mapError EvalError.unnamed
  | _, _, .slot _ => rfl
  | _, _, .number _ => rfl
  | .binary _ lhs rhs, .binary _ lhs' rhs', .binary _ left right => by
    rw [Expr.eval, Expr.eval]
    simp only [Except.mapError_bind, left.eval_unnamed scope, right.eval_unnamed scope,
      lhs'.toOperand_unnamed lhs, rhs'.toOperand_unnamed rhs]
  | .call .., .call .., .call _ each => by
    rw [Expr.eval, Expr.eval]
    simp only [Except.mapError_bind, each.evalOperands_unnamed scope]
  | _, .group _, .insert inner => by
    rw [Expr.eval, inner.eval_unnamed scope]
  | .group _, _, .remove inner => by
    rw [Expr.eval, inner.eval_unnamed scope]

theorem ArgumentsRegrouped.evalOperands_unnamed (scope : Scope) : ∀ {args args' : List Expr},
    ArgumentsRegrouped args args' → (evalOperands scope args').mapError EvalError.unnamed =
      (evalOperands scope args).mapError EvalError.unnamed
  | _, _, .nil => rfl
  | arg :: _, arg' :: _, .cons first rest => by
    rw [evalOperands, evalOperands]
    simp only [Except.mapError_bind, first.eval_unnamed scope, rest.evalOperands_unnamed scope,
      arg'.toOperand_unnamed arg]

end

/-- Parentheses matter neither to the demands of an expression nor to its value. Only the name of a
value that is no number may get lost in them. -/
theorem Expr.demands_eval_regrouped {e e' : Expr} (h : e.Regrouped e') :
    (∀ type, e'.demands type = e.demands type) ∧
      ∀ scope, (e'.eval scope).mapError EvalError.unnamed =
        (e.eval scope).mapError EvalError.unnamed :=
  ⟨h.demands_eq, fun scope => h.eval_unnamed scope⟩

/-- The second argument stands in parentheses, and so does an argument that is one too many. -/
def groupedCall : Expr :=
  .call .minimum [.binary .multiply (.slot "price") (.slot "count"), .group (.slot "limit"),
    .group (.group (.slot "note"))]

def ungroupedCall : Expr :=
  .call .minimum [.group (.binary .multiply (.slot "price") (.group (.slot "count"))),
    .slot "limit", .slot "note"]

def wordyContext : Context where
  bindings := [("price", .number (.int 3)), ("count", .number (.int 4)), ("limit", .string "ten")]

/-- The name of the value that is no number is told where it does not stand in parentheses. -/
theorem groupedCall_demands_eval :
    groupedCall.Regrouped ungroupedCall ∧
      groupedCall.demands .string =
        [⟨"price", .num⟩, ⟨"count", .num⟩, ⟨"limit", .num⟩, ⟨"note", .any⟩] ∧
      ungroupedCall.demands .string = groupedCall.demands .string ∧
      groupedCall.eval (.root wordyContext) = .error (.mismatch .number .string none) ∧
      ungroupedCall.eval (.root wordyContext) =
        .error (.mismatch .number .string (some "limit")) ∧
      (ungroupedCall.eval (.root wordyContext)).mapError EvalError.unnamed =
        (groupedCall.eval (.root wordyContext)).mapError EvalError.unnamed := by
  have hproduct : Expr.Regrouped (.binary .multiply (.slot "price") (.slot "count"))
      (.group (.binary .multiply (.slot "price") (.group (.slot "count")))) :=
    .insert (.binary .multiply (.slot "price") (.insert (.slot "count")))
  have hregrouped : groupedCall.Regrouped ungroupedCall :=
    .call .minimum (.cons hproduct (.cons (.remove (.slot "limit"))
      (.cons (.remove (.remove (.slot "note"))) .nil)))
  obtain ⟨hdemands, heval⟩ := Expr.demands_eval_regrouped hregrouped
  exact ⟨hregrouped, rfl, hdemands .string, rfl, rfl, heval (.root wordyContext)⟩

end Stencil
