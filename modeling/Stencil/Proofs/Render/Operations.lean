import Stencil.Proofs.Document.Symbols
import Stencil.Proofs.Render.Soundness

/-! Templates whose calls are complete. Where names have values of their types, nothing but
arithmetic is left to fail, and without any operation nothing is. -/
namespace Stencil

/-- A call has as many arguments as its function takes. -/
def Operation.Complete : Operation → Prop
  | operator _ => True
  | call f given => given = f.arity

/-- The operations in all blocks. -/
def Document.operations (d : Document) : List Operation := d.exprs.flatMap Expr.operations

mutual

/-- Complete calls have no argument beyond their arity. -/
theorem Expr.surplus_eq_nil : ∀ e : Expr, (∀ o ∈ e.operations, o.Complete) → e.surplus = []
  | .slot _, _ => by rw [Expr.surplus]
  | .number _, _ => by rw [Expr.surplus]
  | .group inner, h => by
    rw [Expr.operations] at h
    rw [Expr.surplus]
    exact inner.surplus_eq_nil h
  | .binary op lhs rhs, h => by
    rw [Expr.operations, List.forall_mem_cons, List.forall_mem_append] at h
    obtain ⟨-, hl, hr⟩ := h
    rw [Expr.surplus, lhs.surplus_eq_nil hl, rhs.surplus_eq_nil hr]
    rfl
  | .call f args, h => by
    rw [Expr.operations, List.forall_mem_cons] at h
    obtain ⟨hcall, hargs⟩ := h
    have harity : args.length = f.arity := hcall
    rw [Expr.surplus, ← harity, List.drop_length, argumentSurplus_eq_nil args hargs]
    rfl

theorem argumentSurplus_eq_nil : ∀ args : List Expr,
    (∀ o ∈ argumentOperations args, o.Complete) → argumentSurplus args = []
  | [], _ => by rw [argumentSurplus]
  | arg :: args, h => by
    rw [argumentOperations, List.forall_mem_append] at h
    rw [argumentSurplus, arg.surplus_eq_nil h.1, argumentSurplus_eq_nil args h.2]
    rfl

end

/-- The filling of a template comes to expressions of its blocks only. -/
theorem Visits.exprs_subset {scope inner : Scope} {lines : List Line} {item : Item}
    (h : Visits scope lines inner item) : item.exprs ⊆ linesExprs lines := by
  induction h with
  | here hl hitem =>
    intro e he
    exact mem_linesExprs.2 ⟨_, hl, mem_lineExprs.2 ⟨_, hitem, he⟩⟩
  | round hl hloop _ _ _ ih =>
    intro e he
    have hbody := ih he
    rw [← Item.exprs] at hbody
    exact mem_linesExprs.2 ⟨_, hl, mem_lineExprs.2 ⟨_, hloop, hbody⟩⟩

/-- A template whose calls are complete, filled with values of the types of its slots, fails in
arithmetic if at all, and does not fail if it has no operation. -/
theorem Document.render_arithmetic {d : Document} {slots : List Slot} {c : Context}
    (hslots : d.slots = .ok slots) (hcalls : ∀ o ∈ d.operations, o.Complete)
    (hc : c.Conforms slots) :
    ((∃ text, d.render c = .ok text) ∨ ∃ e, d.render c = .error (.arithmetic e)) ∧
      (d.operations = [] → ∃ text, d.render c = .ok text) := by
  cases hr : d.render c with
  | ok text => exact ⟨.inl ⟨text, rfl⟩, fun _ => ⟨text, rfl⟩⟩
  | error err =>
    obtain ⟨scope, e, hvisit, -, hopen⟩ := Document.exists_open_of_render hslots hc hr
    have hmem : ∀ o ∈ e.operations, o ∈ d.operations := by
      intro o ho
      have he : e ∈ d.exprs := hvisit.exprs_subset (by simp [Item.exprs])
      exact List.mem_flatMap.2 ⟨e, he, ho⟩
    cases hopen with
    | arity hcall hgiven => exact absurd (hcalls _ (hmem _ hcall)) hgiven
    | arithmetic ho e =>
      refine ⟨.inr ⟨e, rfl⟩, fun hnone => ?_⟩
      have hmem' := hmem _ ho
      rw [hnone] at hmem'
      cases hmem'
    | mismatch harg =>
      rw [e.surplus_eq_nil fun o ho => hcalls o (hmem o ho)] at harg
      cases harg

/-- A loop in a loop: the slot `k` may be anything in one place and has to be a number in another,
and what is bound to `y` comes from the inner array. -/
def roundingLoops : Document :=
  ⟨[[.block (.slot "k")],
    [.loop "x" "xs" [[.loop "y" "ys" [[.block (.call .roundUp
      [.binary .divide (.slot "x") (.slot "y"), .group (.slot "k")])]]]]]]⟩

def roundingContext : Context where
  bindings := [("k", .number (.int 5)), ("xs", .array [.number (.int 1)]),
    ("ys", .array [.number (.int 0)])]

/-- The same loops around names without an operation. -/
def namingLoops : Document :=
  ⟨[[.loop "x" "xs" [[.loop "y" "ys"
    [[.block (.group (.slot "x")), .text "/", .block (.slot "y")]]]]]]⟩

def namingContext : Context where
  bindings := [("xs", .array [.string "a", .array []]), ("ys", .array [.number (.int 0)])]

theorem roundingLoops_render_arithmetic :
    (roundingLoops.slots = .ok [⟨"k", .num⟩, ⟨"xs", .numArray⟩, ⟨"ys", .numArray⟩] ∧
      (∀ o ∈ roundingLoops.operations, o.Complete) ∧
      roundingContext.Conforms [⟨"k", .num⟩, ⟨"xs", .numArray⟩, ⟨"ys", .numArray⟩] ∧
      ((∃ text, roundingLoops.render roundingContext = .ok text) ∨
        ∃ e, roundingLoops.render roundingContext = .error (.arithmetic e))) ∧
    (namingLoops.slots = .ok [⟨"xs", .anyArray⟩, ⟨"ys", .anyArray⟩] ∧
      namingLoops.operations = [] ∧
      namingContext.Conforms [⟨"xs", .anyArray⟩, ⟨"ys", .anyArray⟩] ∧
      ∃ text, namingLoops.render namingContext = .ok text) := by
  constructor
  · have hgroups : groupByName [⟨"k", .any⟩, ⟨"k", .num⟩, ⟨"ys", .numArray⟩, ⟨"xs", .numArray⟩] =
        [("k", [.any, .num]), ("xs", [.numArray]), ("ys", [.numArray])] := by
      simp [groupByName, List.mergeSort, List.MergeSort.Internal.splitInTwo, addToGroups]
    have hslots : roundingLoops.slots =
        .ok [⟨"k", .num⟩, ⟨"xs", .numArray⟩, ⟨"ys", .numArray⟩] :=
      congrArg (List.mapM resolveGroup) hgroups
    have hcalls : ∀ o ∈ roundingLoops.operations, o.Complete := by
      intro o ho
      have hmem : o ∈ [.call .roundUp 2, .operator .divide] := ho
      simp only [List.mem_cons, List.not_mem_nil, or_false] at hmem
      rcases hmem with rfl | rfl
      · exact rfl
      · trivial
    have hc : roundingContext.Conforms [⟨"k", .num⟩, ⟨"xs", .numArray⟩, ⟨"ys", .numArray⟩] := by
      intro s hs
      simp only [List.mem_cons, List.not_mem_nil, or_false] at hs
      rcases hs with rfl | rfl | rfl
      · exact ⟨_, rfl, _, rfl⟩
      · exact ⟨_, rfl, _, rfl, List.forall_mem_singleton.2 ⟨_, rfl⟩⟩
      · exact ⟨_, rfl, _, rfl, List.forall_mem_singleton.2 ⟨_, rfl⟩⟩
    exact ⟨hslots, hcalls, hc, (Document.render_arithmetic hslots hcalls hc).1⟩
  · have hgroups : groupByName [⟨"ys", .anyArray⟩, ⟨"xs", .anyArray⟩] =
        [("xs", [.anyArray]), ("ys", [.anyArray])] := by
      simp [groupByName, List.mergeSort, List.MergeSort.Internal.splitInTwo, addToGroups]
    have hslots : namingLoops.slots = .ok [⟨"xs", .anyArray⟩, ⟨"ys", .anyArray⟩] :=
      congrArg (List.mapM resolveGroup) hgroups
    have hnone : namingLoops.operations = [] := rfl
    have hcalls : ∀ o ∈ namingLoops.operations, o.Complete := by simp [hnone]
    have hc : namingContext.Conforms [⟨"xs", .anyArray⟩, ⟨"ys", .anyArray⟩] := by
      intro s hs
      simp only [List.mem_cons, List.not_mem_nil, or_false] at hs
      rcases hs with rfl | rfl
      · exact ⟨_, rfl, _, rfl⟩
      · exact ⟨_, rfl, _, rfl⟩
    exact ⟨hslots, hnone, hc, (Document.render_arithmetic hslots hcalls hc).2 hnone⟩

end Stencil
