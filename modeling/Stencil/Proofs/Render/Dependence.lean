import Stencil.Proofs.Render.Parts
import Stencil.Proofs.Slot.Accepts
import Stencil.Proofs.Slot.Demand

/-! What of a context the filling of a template depends on: the values of the slots, and whether
they have any. The binders of loops are bound wherever they are used. -/
namespace Stencil

/-- Two scopes give every demanded name the same value, or both none. -/
def Scope.Agree (scope scope' : Scope) (demands : List Demand) : Prop :=
  ∀ d ∈ demands, scope.get? d.name = scope'.get? d.name

namespace Scope.Agree

variable {scope scope' : Scope} {ds ds' : List Demand}

theorem append :
    scope.Agree scope' (ds ++ ds') ↔ scope.Agree scope' ds ∧ scope.Agree scope' ds' := by
  simp only [Agree, List.forall_mem_append]

theorem mono (h : scope.Agree scope' ds') (hs : ds ⊆ ds') : scope.Agree scope' ds :=
  fun d hd => h d (hs hd)

theorem resolve_eq {name : String} {type : SlotType} (h : scope.Agree scope' [⟨name, type⟩]) :
    scope.resolve name = scope'.resolve name := by
  unfold Scope.resolve
  rw [h _ List.mem_cons_self]

theorem resolveArray_eq {name : String} {type : SlotType} (h : scope.Agree scope' [⟨name, type⟩]) :
    scope.resolveArray name = scope'.resolveArray name := by
  unfold Scope.resolveArray
  rw [h.resolve_eq]

/-- One more binding of a name, the same on both sides, takes the demands on it away. -/
theorem bind {binder : String} (h : scope.Agree scope' (ds.filter (·.name != binder)))
    (item : Value) : (Scope.bind binder item scope).Agree (.bind binder item scope') ds := by
  intro d hd
  by_cases hname : d.name = binder
  · simp [Scope.get?, hname]
  · have hrest := h d (List.mem_filter.2 ⟨hd, by simp [hname]⟩)
    simpa [Scope.get?, Ne.symm hname] using hrest

end Scope.Agree

section Congruence

variable {scope scope' : Scope}

mutual

theorem Expr.eval_congr {type : SlotType} : ∀ e : Expr, scope.Agree scope' (e.demands type) →
    e.eval scope = e.eval scope'
  | .slot name, h => by
    rw [Expr.demands] at h
    rw [Expr.eval, Expr.eval, h.resolve_eq]
  | .number n, _ => by rw [Expr.eval, Expr.eval]
  | .group inner, h => by
    rw [Expr.demands] at h
    rw [Expr.eval, Expr.eval, inner.eval_congr h]
  | .binary op lhs rhs, h => by
    rw [Expr.demands, Scope.Agree.append] at h
    rw [Expr.eval, Expr.eval, lhs.eval_congr h.1, rhs.eval_congr h.2]
  | .call f args, h => by
    rw [Expr.demands] at h
    rw [Expr.eval, Expr.eval, evalOperands_congr args h]

theorem evalOperands_congr {declared : List SlotType} : ∀ args : List Expr,
    scope.Agree scope' (argumentDemands declared args) →
      evalOperands scope args = evalOperands scope' args
  | [], _ => by rw [evalOperands, evalOperands]
  | arg :: args, h => by
    rw [argumentDemands, Scope.Agree.append] at h
    rw [evalOperands, evalOperands, arg.eval_congr h.1, evalOperands_congr args h.2]

end

end Congruence

theorem Item.render_congr {scope scope' : Scope} {item : Item} {demands : List Demand}
    (hd : item.ownDemands = .ok demands) (h : scope.Agree scope' demands) (done : String) :
    item.render scope done = item.render scope' done := by
  induction item using Item.induction generalizing scope scope' demands done with
  | text content => rw [Item.render, Item.render]
  | block e =>
    cases hd
    rw [Item.render, Item.render, e.eval_congr h]
  | loop binder array body ih =>
    obtain ⟨inner, type, hinner, -, rfl⟩ := Item.ownDemands_loop_eq_ok.1 hd
    rw [Scope.Agree.append] at h
    have hround : ∀ value, renderLines (.bind binder value scope) body =
        renderLines (.bind binder value scope') body := by
      intro value
      apply renderLines_congr
      intro l hl item hitem
      obtain ⟨own, hown, hsub⟩ := exists_ownDemands hinner hl hitem
      exact ih l hl item hitem hown ((h.1.bind value).mono hsub) ""
    rw [Item.render, Item.render, h.2.resolveArray_eq, funext hround]

section Unbound

variable {x : String}

theorem Scope.get?_of_resolveArray {scope : Scope} {name : String}
    (h : scope.resolveArray name = .error (.unbound x)) : scope.get? x = none := by
  unfold Scope.resolveArray at h
  rw [Except.bind_eq_error, Scope.resolve_eq_error] at h
  rcases h with ⟨hnone, heq⟩ | ⟨v, -, h⟩
  · cases heq
    exact hnone
  · split at h <;> cases h

theorem Scope.get?_of_bind {scope : Scope} {binder : String} {item : Value}
    (h : (Scope.bind binder item scope).get? x = none) : scope.get? x = none := by
  rw [Scope.get?] at h
  split at h
  · cases h
  · exact h

theorem Expr.toOperand_ne_unbound (e : Expr) (v : Value) :
    e.toOperand v ≠ .error (.unbound x) := by
  unfold Expr.toOperand
  split <;> simp

theorem mapError_arithmetic_ne_unbound {α : Type} (r : Except ArithmeticError α) :
    r.mapError EvalError.arithmetic ≠ .error (.unbound x) := by
  intro hunbound
  cases r with
  | error e => cases hunbound
  | ok a => cases hunbound

theorem Builtin.call_ne_unbound (f : Builtin) (args : List Number) :
    f.call args ≠ .error (.unbound x) := by
  unfold Builtin.call
  split
  · exact mapError_arithmetic_ne_unbound _
  · simp

mutual

theorem Expr.get?_of_eval {scope : Scope} : ∀ e : Expr,
    e.eval scope = .error (.unbound x) → scope.get? x = none
  | .slot name, h => by
    rw [Expr.eval, Scope.resolve_eq_error] at h
    obtain ⟨hnone, heq⟩ := h
    cases heq
    exact hnone
  | .number n, h => by
    rw [Expr.eval] at h
    cases h
  | .group inner, h => by
    rw [Expr.eval] at h
    exact inner.get?_of_eval h
  | .binary op lhs rhs, h => by
    rw [Expr.eval] at h
    simp only [Except.bind_eq_error] at h
    rcases h with h | ⟨v, -, h | ⟨a, -, h | ⟨w, -, h | ⟨b, -, h | ⟨n, -, h⟩⟩⟩⟩⟩
    · exact lhs.get?_of_eval h
    · exact absurd h (lhs.toOperand_ne_unbound v)
    · exact rhs.get?_of_eval h
    · exact absurd h (rhs.toOperand_ne_unbound w)
    · exact absurd h (mapError_arithmetic_ne_unbound _)
    · cases h
  | .call f args, h => by
    rw [Expr.eval] at h
    simp only [Except.bind_eq_error] at h
    rcases h with h | ⟨ns, -, h | ⟨n, -, h⟩⟩
    · exact get?_of_evalOperands args h
    · exact absurd h (f.call_ne_unbound ns)
    · cases h

theorem get?_of_evalOperands {scope : Scope} : ∀ args : List Expr,
    evalOperands scope args = .error (.unbound x) → scope.get? x = none
  | [], h => by
    rw [evalOperands] at h
    cases h
  | arg :: args, h => by
    rw [evalOperands] at h
    simp only [Except.bind_eq_error] at h
    rcases h with h | ⟨v, -, h | ⟨n, -, h | ⟨ns, -, h⟩⟩⟩
    · exact arg.get?_of_eval h
    · exact absurd h (arg.toOperand_ne_unbound v)
    · exact get?_of_evalOperands args h
    · cases h

end

/-- A name without a value where the filling comes to has none before, for binders have one. -/
theorem Visits.get?_eq_none {scope inner : Scope} {lines : List Line} {item : Item}
    (h : Visits scope lines inner item) (hx : inner.get? x = none) : scope.get? x = none := by
  induction h with
  | here => exact hx
  | round _ _ _ _ _ ih => exact Scope.get?_of_bind (ih hx)

end Unbound

namespace Document

variable {d : Document} {slots : List Slot}

/-- Contexts that agree on the slots of a template fill it alike. -/
theorem render_congr (hslots : d.slots = .ok slots) {c c' : Context}
    (h : ∀ s ∈ slots, c.get? s.name = c'.get? s.name) : d.render c = d.render c' := by
  unfold Document.slots at hslots
  obtain ⟨demands, hdemands, hunify⟩ := Except.bind_eq_ok.1 hslots
  rw [Document.demands_eq] at hdemands
  have hagree : (Scope.root c).Agree (.root c') demands := by
    intro demand hdemand
    obtain ⟨s, hs, hname, -⟩ := exists_slot_of_demand hunify hdemand
    rw [← hname]
    exact h s hs
  apply renderLines_congr
  intro l hl item hitem
  obtain ⟨own, hown, hsub⟩ := exists_ownDemands hdemands hl hitem
  exact Item.render_congr hown (hagree.mono hsub) ""

theorem get?_of_render {c : Context} {x : String} (h : d.render c = .error (.unbound x)) :
    c.get? x = none := by
  rcases exists_visits_of_renderLines_error h with
    ⟨scope, e, hvisit, heval⟩ | ⟨scope, binder, array, body, hvisit, harray⟩
  · exact hvisit.get?_eq_none (e.get?_of_eval heval)
  · exact hvisit.get?_eq_none (Scope.get?_of_resolveArray harray)

/-- A name that is missed is that of a slot: otherwise a value for it would change nothing. -/
theorem mem_slots_of_render (hslots : d.slots = .ok slots) {c : Context} {x : String}
    (h : d.render c = .error (.unbound x)) : ∃ s ∈ slots, s.name = x := by
  refine Classical.byContradiction fun hnone => ?_
  have hsame : d.render (c.insert x (.array [])) = d.render c := by
    refine render_congr hslots fun s hs => ?_
    rw [Context.get?_insert, if_neg fun hname => hnone ⟨s, hs, hname⟩]
  rw [h] at hsame
  have hbound := get?_of_render hsame
  rw [Context.get?_insert, if_pos rfl] at hbound
  cases hbound

/-- What a template is filled with depends on the values of its slots and on nothing else in the
context. -/
theorem render_slots_only (hslots : d.slots = .ok slots) :
    (∀ c c' : Context, (∀ s ∈ slots, c.get? s.name = c'.get? s.name) → d.render c = d.render c') ∧
      (∀ c x, d.render c = .error (.unbound x) →
        (∃ s ∈ slots, s.name = x) ∧ c.get? x = none) ∧
      ∀ c x, (∀ s ∈ slots, s.name ≠ x) →
        (∀ v, d.render (c.insert x v) = d.render c) ∧ d.render (c.erase x) = d.render c := by
  refine ⟨fun c c' h => render_congr hslots h,
    fun c x h => ⟨mem_slots_of_render hslots h, get?_of_render h⟩,
    fun c x hx => ⟨fun v => render_congr hslots fun s hs => ?_,
      render_congr hslots fun s hs => ?_⟩⟩
  · rw [Context.get?_insert, if_neg (hx s hs)]
  · rw [Context.get?_erase, if_neg (hx s hs)]

end Document

/-- A loop whose binder is no slot, one whose binder is, and one that binds the name of its
array. -/
def binderLoops : Document :=
  ⟨[[.loop "y" "xs" [[.block (.binary .multiply (.slot "y") (.slot "k"))]]],
    [.loop "k" "zs" [[.block (.slot "k")]]],
    [.loop "ws" "ws" [[.text "- ", .block (.slot "ws")]]]]⟩

def binderContext : Context where
  bindings := [("k", .number (.int 3)), ("ws", .array [.string "end"]),
    ("xs", .array [.number (.int 1), .number (.int 2)]), ("zs", .array [.string "a"])]

theorem binderLoops_slots_only :
    binderLoops.slots =
        .ok [⟨"k", .num⟩, ⟨"ws", .anyArray⟩, ⟨"xs", .numArray⟩, ⟨"zs", .anyArray⟩] ∧
      binderLoops.render binderContext = .ok "3\n6\na\n- end" ∧
      binderLoops.render (binderContext.insert "y" (.string "z")) = .ok "3\n6\na\n- end" ∧
      binderLoops.render (binderContext.erase "k") = .error (.unbound "k") ∧
      (binderContext.erase "k").get? "k" = none := by
  have hgroups : groupByName
      [⟨"k", .num⟩, ⟨"xs", .numArray⟩, ⟨"zs", .anyArray⟩, ⟨"ws", .anyArray⟩] =
      [("k", [.num]), ("ws", [.anyArray]), ("xs", [.numArray]), ("zs", [.anyArray])] := by
    simp [groupByName, List.mergeSort, List.MergeSort.Internal.splitInTwo, addToGroups]
  have hslots : binderLoops.slots =
      .ok [⟨"k", .num⟩, ⟨"ws", .anyArray⟩, ⟨"xs", .numArray⟩, ⟨"zs", .anyArray⟩] :=
    congrArg (List.mapM resolveGroup) hgroups
  have hrender : binderLoops.render binderContext = .ok "3\n6\na\n- end" := rfl
  have hmissed : binderLoops.render (binderContext.erase "k") = .error (.unbound "k") := rfl
  obtain ⟨-, hunbound, hother⟩ := Document.render_slots_only hslots
  have hy : binderLoops.render (binderContext.insert "y" (.string "z")) = .ok "3\n6\na\n- end" := by
    rw [(hother binderContext "y" (by decide)).1, hrender]
  exact ⟨hslots, hrender, hy, hmissed, (hunbound _ _ hmissed).2⟩

end Stencil
