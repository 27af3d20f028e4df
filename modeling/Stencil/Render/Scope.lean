import Stencil.Value.Basic

/-! What names stand for while a template is filled. -/
namespace Stencil

/-- The bindings of loops, innermost first, over what the caller supplies. -/
inductive Scope
  | root (context : Context)
  | bind (name : String) (value : Value) (outer : Scope)

/-- The innermost binding of a name. -/
def Scope.get? : Scope → String → Option Value
  | root context, name => context.get? name
  | bind bound value outer, name => if bound = name then some value else outer.get? name

/-- Kinds of values that a use of a name or an operand may demand. -/
inductive Wanted
  | number
  | array
  deriving DecidableEq, Repr

def Wanted.name : Wanted → String
  | number => "number"
  | array => "array"

inductive EvalError
  | unbound (name : String)
  /-- The offending value, and the name that it was the value of, if any. -/
  | mismatch (wanted : Wanted) (found : ValueKind) (name : Option String)
  | arity (function : Builtin) (given : Nat)
  | arithmetic (error : ArithmeticError)
  deriving DecidableEq

def EvalError.message : EvalError → String
  | unbound name => s!"Evaluation error: no value supplied for slot '{name}'"
  | mismatch wanted found none =>
    s!"Evaluation error: expected {wanted.name}, found {found.name}"
  | mismatch wanted found (some name) =>
    s!"Evaluation error: expected {wanted.name}, found {found.name} '{name}'"
  | arity f given => s!"Evaluation error: {f.name} takes {f.arity} arguments, {given} given"
  | arithmetic e => s!"Evaluation error: {e.message}"

def Scope.resolve (scope : Scope) (name : String) : Except EvalError Value :=
  match scope.get? name with
  | some value => .ok value
  | none => .error (.unbound name)

theorem Scope.resolve_eq_ok {scope : Scope} {name : String} {value : Value} :
    scope.resolve name = .ok value ↔ scope.get? name = some value := by
  unfold Scope.resolve
  cases scope.get? name <;> simp

theorem Scope.resolve_eq_error {scope : Scope} {name : String} {e : EvalError} :
    scope.resolve name = .error e ↔ scope.get? name = none ∧ .unbound name = e := by
  unfold Scope.resolve
  cases scope.get? name <;> simp

/-- The array that a name stands for. -/
def Scope.resolveArray (scope : Scope) (name : String) : Except EvalError (List Value) := do
  let value ← scope.resolve name
  match value.asArray? with
  | some items => return items
  | none => .error (.mismatch .array value.kind (some name))

theorem Scope.resolveArray_eq_ok {scope : Scope} {name : String} {items : List Value} :
    scope.resolveArray name = .ok items ↔ scope.get? name = some (.array items) := by
  unfold Scope.resolveArray Scope.resolve
  cases scope.get? name with
  | none => exact iff_of_false nofun nofun
  | some value =>
    cases value with
    | array items' => constructor <;> exact fun | rfl => rfl
    | number n => exact iff_of_false nofun nofun
    | string s => exact iff_of_false nofun nofun

end Stencil
