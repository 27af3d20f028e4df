import Stencil.Proofs.Render.Dependence

/-! The bindings of loops against a copy of the context for every round. A chain of bindings over a
context is as good as the context with the bindings inserted, the innermost last. -/
namespace Stencil

namespace Scope

/-- Two scopes in which every name stands for the same value, or for none. -/
def Same (scope scope' : Scope) : Prop := ∀ name, scope.get? name = scope'.get? name

namespace Same

variable {scope scope' : Scope}

theorem agree (h : scope.Same scope') (demands : List Demand) : scope.Agree scope' demands :=
  fun d _ => h d.name

theorem resolveArray_eq (h : scope.Same scope') (name : String) :
    scope.resolveArray name = scope'.resolveArray name :=
  Agree.resolveArray_eq (h.agree [⟨name, .any⟩])

theorem bind (h : scope.Same scope') (binder : String) (item : Value) :
    (Scope.bind binder item scope).Same (.bind binder item scope') := by
  intro name
  rw [get?, get?, h name]

end Same

/-- Bindings over a context, outermost first. -/
def chain (context : Context) (bindings : List (String × Value)) : Scope :=
  bindings.foldl (fun scope (name, value) => .bind name value scope) (.root context)

end Scope

section Same

open Scope

end Same

end Stencil
