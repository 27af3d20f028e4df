import Stencil.Document.Basic
import Stencil.Render.Scope

/-! Filling a template. -/
namespace Stencil

/-- The value of a call. The number of arguments is checked first. -/
def Builtin.call (f : Builtin) : List Number → Except EvalError Number
  | [a, b] => (f.apply a b).mapError .arithmetic
  | args => .error (.arity f args.length)

/-- The name of an expression that is nothing but a name. -/
def Expr.name? : Expr → Option String
  | .slot name => some name
  | _ => none

/-- The value of an operand, which has to be a number. -/
def Expr.toOperand (e : Expr) (value : Value) : Except EvalError Number :=
  match value.asNumber? with
  | some n => .ok n
  | none => .error (.mismatch .number value.kind e.name?)

mutual

/-- Operands are evaluated from left to right, and each is a number before the next is looked
at. -/
def Expr.eval (scope : Scope) : Expr → Except EvalError Value
  | .slot name => scope.resolve name
  | .number n => .ok (.number n)
  | .group inner => inner.eval scope
  | .binary op lhs rhs => do
    let a ← lhs.toOperand (← lhs.eval scope)
    let b ← rhs.toOperand (← rhs.eval scope)
    return .number (← (Number.apply op a b).mapError .arithmetic)
  | .call f args => do
    return .number (← f.call (← evalOperands scope args))

def evalOperands (scope : Scope) : List Expr → Except EvalError (List Number)
  | [] => .ok []
  | e :: es => do
    let n ← e.toOperand (← e.eval scope)
    return n :: (← evalOperands scope es)

end

mutual

/-- Renders an item after the text `done`. -/
def Item.render (scope : Scope) (done : String) : Item → Except EvalError String
  | .text content => .ok (done ++ content)
  | .block e => do return done ++ (← e.eval scope).text
  | .loop binder array body => do
    let items ← scope.resolveArray array
    let rounds ← items.mapM fun item => renderLines (.bind binder item scope) body
    return done ++ "\n".intercalate rounds

def renderLine (scope : Scope) (done : String) : List Item → Except EvalError String
  | [] => .ok done
  | item :: items => do renderLine scope (← item.render scope done) items

/-- Renders lines with a line end between them. -/
def renderLines (scope : Scope) : List (List Item) → Except EvalError String
  | [] => .ok ""
  | line :: lines => do renderRest scope (← renderLine scope "" line) lines

/-- Renders lines after the text `done`, each after a line end. -/
def renderRest (scope : Scope) (done : String) : List (List Item) → Except EvalError String
  | [] => .ok done
  | line :: lines => do renderRest scope (← renderLine scope (done ++ "\n") line) lines

end

def Document.render (context : Context) (d : Document) : Except EvalError String :=
  renderLines (.root context) d.lines

end Stencil
