import Stencil.Value.Number

/-! Templates as trees: lines of literal text, expression blocks and loops. -/
namespace Stencil

inductive Expr
  | slot (name : String)
  | number (value : Number)
  /-- Explicit parentheses. -/
  | group (inner : Expr)
  | binary (op : Operator) (lhs rhs : Expr)
  | call (function : Builtin) (args : List Expr)

/-- A loop renders its body once for every item of an array, which `binder` names there. -/
inductive Item
  | text (content : String)
  | block (expr : Expr)
  | loop (binder array : String) (body : List (List Item))

/-- What holds of a loop whenever it holds of the items in its body, holds in loops of any depth. -/
@[elab_as_elim]
theorem Item.induction {motive : Item → Prop} (text : ∀ content, motive (.text content))
    (block : ∀ expr, motive (.block expr))
    (loop : ∀ binder array body, (∀ line ∈ body, ∀ item ∈ line, motive item) →
      motive (.loop binder array body)) : ∀ item, motive item
  | .text content => text content
  | .block expr => block expr
  | .loop binder array body => loop binder array body fun line hline item hitem =>
    have hlt : sizeOf item < sizeOf (Item.loop binder array body) := by
      have hinner := List.sizeOf_lt_of_mem hitem
      have houter := List.sizeOf_lt_of_mem hline
      rw [Item.loop.sizeOf_spec]
      omega
    induction text block loop item
termination_by item => sizeOf item
decreasing_by exact hlt

abbrev Line := List Item

structure Document where
  lines : List Line

end Stencil
