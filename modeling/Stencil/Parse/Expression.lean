import Stencil.Document.Basic
import Stencil.Parse.Basic

/-! Reading expressions. Products bind tighter than sums, and both group to the left. -/
namespace Stencil

namespace TokenKind

def productOperator? : TokenKind → Option Operator
  | star => some .multiply
  | slash => some .divide
  | _ => none

def sumOperator? : TokenKind → Option Operator
  | plus => some .add
  | minus => some .subtract
  | _ => none

/-- Whether an operand can start with a token of this kind. -/
def startsOperand : TokenKind → Bool
  | text | number _ | leftParen => true
  | _ => false

end TokenKind

namespace Parser

variable {σ : Type} [TokenFeed σ]

/-- One argument of a call, and whether the list goes on after it. -/
def argumentStep (f : Builtin) (argument : Parser σ Expr) (args : List Expr) :
    Parser σ (List Expr ⊕ List Expr) := do
  require (·.startsOperand) (.unexpected .operand)
  let arg ← argument
  if (← kind) = .comma then
    advance
    require (· != .rightParen) (.missingArgument f)
    return .inl (arg :: args)
  else return .inr (arg :: args).reverse

theorem argumentStep_shrinks (f : Builtin) (argument : Parser σ Expr) :
    Reader.Shrinks (argumentStep f argument) := by
  intro args args' s s' ok
  simp only [argumentStep, Reader.run_bind_eq_ok, run_kind, run_require_eq_ok] at ok
  obtain ⟨_, s₁, ⟨_, rfl⟩, arg, s₂, read, k, s₃, seen, ok⟩ := ok
  cases seen
  have := Reader.size_le_of_run read
  split at ok
  · rename_i comma
    simp only [Reader.run_bind_eq_ok, run_require_eq_ok] at ok
    obtain ⟨_, s₄, moved, _, s₅, ⟨_, rfl⟩, ok⟩ := ok
    cases ok
    have := size_advance_lt (by rw [comma]; decide) moved
    omega
  · cases ok

/-- The arguments of a call up to the closing parenthesis, which stays in view. -/
def arguments (f : Builtin) (argument : Parser σ Expr) : Parser σ (List Expr) :=
  .repeatFrom [] (argumentStep f argument) (argumentStep_shrinks f argument)

mutual

/-- An operand inside fewer than `depth` further parentheses, calls and operators. -/
def factor (limit : Nat) : Nat → Parser σ Expr
  | 0 => failHere (.tooDeep limit)
  | depth + 1 => do
    let t ← current
    match t.kind with
    | .number n =>
      advance
      return .number n
    | .text =>
      advance
      if (← kind) = .leftParen then
        match Builtin.ofName? t.lexeme with
        | none => failAt t (.unknownFunction t.lexeme)
        | some f =>
          require (fun _ => 0 < depth) (.tooDeep limit)
          advance
          let args ← arguments f (sum limit depth)
          require (· == .rightParen) (.unexpected .argumentEnd)
          advance
          return .call f args
      else return .slot t.lexeme
    | .leftParen =>
      advance
      let inner ← sum limit depth
      let _ ← expect .rightParen
      return .group inner
    | .foreachWord => failHere (.misplacedLoop .insideExpression)
    | _ => failHere (.unexpected .operand)
termination_by depth => 4 * depth

/-- Operands joined by products. Each operator leaves less depth for the operand after it. -/
def product (limit depth : Nat) : Parser σ Expr := do
  productRest limit depth (← factor limit depth)
termination_by 4 * depth + 1

def productRest (limit : Nat) : Nat → Expr → Parser σ Expr
  | 0, lhs => return lhs
  | depth + 1, lhs => do
    match (← kind).productOperator? with
    | none => return lhs
    | some op =>
      advance
      productRest limit depth (.binary op lhs (← factor limit depth))
termination_by depth => 4 * depth

/-- Products joined by sums. -/
def sum (limit depth : Nat) : Parser σ Expr := do
  sumRest limit depth (← product limit depth)
termination_by 4 * depth + 3

def sumRest (limit : Nat) : Nat → Expr → Parser σ Expr
  | 0, lhs => return lhs
  | depth + 1, lhs => do
    match (← kind).sumOperator? with
    | none => return lhs
    | some op =>
      advance
      sumRest limit depth (.binary op lhs (← product limit depth))
termination_by depth => 4 * depth + 2

end

/-- The expression of a block. -/
def expression (limit : Nat) : Parser σ Expr := sum limit limit

end Parser
end Stencil
