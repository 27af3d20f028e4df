import Mathlib.Data.Set.Defs
import Stencil.Slot.Demand

/-! Where a template uses a name and what each use asks for, read off the tree and its ancestors.
A name that a loop binds is not free in the loop's body. -/
namespace Stencil

/-- What may stand around a part of an expression. -/
inductive Frame
  | group
  | operand
  | argument (function : Builtin) (index : Nat)

/-- What is wanted inside the frame. Parentheses want only what is wanted of them. -/
def Frame.demand? : Frame → Option SlotType
  | group => none
  | operand => some .num
  | argument f i => some (if i < f.arity then .num else .any)

/-- A use of the name in the expression, with the frames around it, the nearest first. -/
inductive Expr.Occurs (name : String) : List Frame → Expr → Prop
  | slot : Occurs name [] (.slot name)
  | group {frames : List Frame} {inner : Expr} (h : inner.Occurs name frames) :
    Occurs name (frames ++ [.group]) (.group inner)
  | lhs {frames : List Frame} {op : Operator} {lhs rhs : Expr} (h : lhs.Occurs name frames) :
    Occurs name (frames ++ [.operand]) (.binary op lhs rhs)
  | rhs {frames : List Frame} {op : Operator} {lhs rhs : Expr} (h : rhs.Occurs name frames) :
    Occurs name (frames ++ [.operand]) (.binary op lhs rhs)
  | argument {frames : List Frame} {f : Builtin} {args : List Expr} {i : Nat} {arg : Expr}
    (hi : args[i]? = some arg) (h : arg.Occurs name frames) :
    Occurs name (frames ++ [.argument f i]) (.call f args)

/-- The nearest frame that wants something decides; a block itself wants anything. -/
def Frame.wanted (outside : SlotType) (frames : List Frame) : SlotType :=
  (frames.findSome? Frame.demand?).getD outside

namespace Frame

theorem wanted_concat (outside : SlotType) (frames : List Frame) (frame : Frame) :
    wanted outside (frames ++ [frame]) = wanted (frame.demand?.getD outside) frames := by
  unfold wanted
  rw [List.findSome?_append, List.findSome?_singleton]
  cases frames.findSome? demand? <;> simp

theorem wanted_eq_or {outside : SlotType} (houtside : outside = .num ∨ outside = .any)
    (frames : List Frame) : wanted outside frames = .num ∨ wanted outside frames = .any := by
  induction frames with
  | nil => exact houtside
  | cons frame frames ih =>
    cases frame with
    | group => exact ih
    | operand => exact .inl rfl
    | argument f i =>
      show (if i < f.arity then SlotType.num else .any) = .num ∨
        (if i < f.arity then SlotType.num else .any) = .any
      split
      · exact .inl rfl
      · exact .inr rfl

end Frame

/-- Below the arity a number is declared, and nothing from there on. -/
theorem Builtin.argumentType_eq (f : Builtin) (i : Nat) :
    f.argumentTypes[i]?.getD .any = if i < f.arity then .num else .any := by
  cases f <;> match i with
    | 0 => rfl
    | 1 => rfl
    | _ + 2 => rfl

section Demands

variable {name : String} {type : SlotType}

theorem Expr.exists_occurs_slot {outside : SlotType} {name' : String} :
    (∃ frames, (Expr.slot name').Occurs name frames ∧ Frame.wanted outside frames = type) ↔
      name = name' ∧ type = outside := by
  constructor
  · rintro ⟨_, ⟨⟩, rfl⟩
    exact ⟨rfl, rfl⟩
  · rintro ⟨rfl, rfl⟩
    exact ⟨[], .slot, rfl⟩

mutual

/-- The demands of an expression are the uses in it, each with what its frames want. -/
theorem Expr.mem_demands_iff : ∀ (e : Expr) (outside : SlotType),
    ⟨name, type⟩ ∈ e.demands outside ↔
      ∃ frames, e.Occurs name frames ∧ Frame.wanted outside frames = type
  | .slot name', outside => by
    rw [Expr.demands, List.mem_singleton, Demand.mk.injEq, Expr.exists_occurs_slot]
  | .number n, outside => by
    rw [Expr.demands]
    constructor
    · intro h
      cases h
    · rintro ⟨frames, h, -⟩
      cases h
  | .group inner, outside => by
    rw [Expr.demands, Expr.mem_demands_iff inner outside]
    constructor
    · rintro ⟨frames, h, rfl⟩
      exact ⟨_, .group h, Frame.wanted_concat outside frames .group⟩
    · rintro ⟨_, ⟨⟩, rfl⟩
      rename_i frames h
      exact ⟨frames, h, (Frame.wanted_concat outside frames .group).symm⟩
  | .binary op lhs rhs, outside => by
    rw [Expr.demands, List.mem_append, Expr.mem_demands_iff lhs .num,
      Expr.mem_demands_iff rhs .num]
    constructor
    · rintro (⟨frames, h, rfl⟩ | ⟨frames, h, rfl⟩)
      · exact ⟨_, .lhs h, Frame.wanted_concat outside frames .operand⟩
      · exact ⟨_, .rhs h, Frame.wanted_concat outside frames .operand⟩
    · rintro ⟨_, h, rfl⟩
      cases h with
      | lhs h => exact .inl ⟨_, h, (Frame.wanted_concat outside _ .operand).symm⟩
      | rhs h => exact .inr ⟨_, h, (Frame.wanted_concat outside _ .operand).symm⟩
  | .call f args, outside => by
    have hwanted : ∀ (i : Nat) (frames : List Frame),
        Frame.wanted outside (frames ++ [.argument f i]) =
          Frame.wanted (f.argumentTypes[i]?.getD .any) frames := by
      intro i frames
      rw [Frame.wanted_concat, Builtin.argumentType_eq]
      rfl
    rw [Expr.demands, mem_argumentDemands_iff args f.argumentTypes]
    constructor
    · rintro ⟨i, arg, hi, frames, h, rfl⟩
      exact ⟨_, .argument hi h, hwanted i frames⟩
    · rintro ⟨_, h, rfl⟩
      cases h with
      | argument hi h => exact ⟨_, _, hi, _, h, (hwanted _ _).symm⟩

theorem mem_argumentDemands_iff : ∀ (args : List Expr) (declared : List SlotType),
    ⟨name, type⟩ ∈ argumentDemands declared args ↔
      ∃ (i : Nat) (arg : Expr), args[i]? = some arg ∧ ∃ frames, arg.Occurs name frames ∧
        Frame.wanted (declared[i]?.getD .any) frames = type
  | [], declared => by simp [argumentDemands]
  | arg :: args, declared => by
    rw [argumentDemands, List.mem_append, Expr.mem_demands_iff arg,
      mem_argumentDemands_iff args declared.tail]
    constructor
    · rintro (⟨frames, h, rfl⟩ | ⟨i, arg', hi, frames, h, rfl⟩)
      · exact ⟨0, arg, rfl, frames, h, by rw [List.headD_eq_head?_getD, List.head?_eq_getElem?]⟩
      · exact ⟨i + 1, arg', hi, frames, h, by rw [List.getElem?_tail]⟩
    · rintro ⟨i, arg', hi, frames, h, rfl⟩
      cases i with
      | zero =>
        cases hi
        exact .inl ⟨frames, h, by rw [List.headD_eq_head?_getD, List.head?_eq_getElem?]⟩
      | succ i => exact .inr ⟨i, arg', hi, frames, h, by rw [List.getElem?_tail]⟩

end

end Demands

/-- A free use of a name in an item, where its frames want values of the type. -/
inductive Item.Free (name : String) (type : SlotType) : Item → Prop
  | block {e : Expr} {frames : List Frame} (h : e.Occurs name frames)
    (htype : Frame.wanted .any frames = type) : Free name type (.block e)
  | loop {binder array : String} {body : List Line} {line : Line} {item : Item}
    (hbinder : binder ≠ name) (hline : line ∈ body) (hitem : item ∈ line)
    (h : item.Free name type) : Free name type (.loop binder array body)

/-- A free use of a name in some of the lines. -/
def linesFree (name : String) (type : SlotType) (lines : List Line) : Prop :=
  ∃ line ∈ lines, ∃ item ∈ line, item.Free name type

/-- A loop over the array stands in the item: over numbers if one use of its binder is for a number,
and over anything otherwise. -/
inductive Item.Iterates (array : String) : SlotType → Item → Prop
  | numbers {binder : String} {body : List Line} (h : linesFree binder .num body) :
    Iterates array .numArray (.loop binder array body)
  | anything {binder : String} {body : List Line} (h : ¬ linesFree binder .num body) :
    Iterates array .anyArray (.loop binder array body)
  | inner {binder array' : String} {body : List Line} {line : Line} {item : Item}
    {type : SlotType} (hline : line ∈ body) (hitem : item ∈ line)
    (h : item.Iterates array type) : Iterates array type (.loop binder array' body)

/-- The types that a template wants of a name: one for each free use, and one for each loop over
what the name stands for. -/
def Document.wants (d : Document) (name : String) : Set SlotType :=
  {type | linesFree name type d.lines ∨ ∃ line ∈ d.lines, ∃ item ∈ line, item.Iterates name type}

end Stencil
