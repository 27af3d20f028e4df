import Stencil.Proofs.Render.Parts
import Stencil.Proofs.Slot.Accepts
import Stencil.Proofs.Slot.Demand

/-! Filling a template whose names have types, from values of these types. No name is unbound,
and the only operands of a wrong kind are arguments beyond the arity of a call. -/
namespace Stencil

/-- An operator, or a call with a number of arguments. -/
inductive Operation
  | operator (op : Operator)
  | call (function : Builtin) (given : Nat)
  deriving DecidableEq

mutual

def Expr.operations : Expr → List Operation
  | .slot _ | .number _ => []
  | .group inner => inner.operations
  | .binary op lhs rhs => .operator op :: (lhs.operations ++ rhs.operations)
  | .call f args => .call f args.length :: argumentOperations args

def argumentOperations : List Expr → List Operation
  | [] => []
  | arg :: args => arg.operations ++ argumentOperations args

end

mutual

/-- The arguments beyond the arity of a call. -/
def Expr.surplus : Expr → List Expr
  | .slot _ | .number _ => []
  | .group inner => inner.surplus
  | .binary _ lhs rhs => lhs.surplus ++ rhs.surplus
  | .call f args => args.drop f.arity ++ argumentSurplus args

def argumentSurplus : List Expr → List Expr
  | [] => []
  | arg :: args => arg.surplus ++ argumentSurplus args

end

/-- The name that an expression consists of, in parentheses or not. -/
def Expr.bareName? : Expr → Option String
  | .slot name => some name
  | .group inner => inner.bareName?
  | _ => none

/-- The failures that types leave open. An operand of a wrong kind is what a surplus name stands for
in the scope, and the name is told unless it is in parentheses. -/
inductive EvalError.Open (scope : Scope) (operations : List Operation) (surplus : List Expr) :
    EvalError → Prop
  | arity {f : Builtin} {given : Nat} (hcall : .call f given ∈ operations)
    (hgiven : given ≠ f.arity) : Open scope operations surplus (.arity f given)
  | arithmetic {o : Operation} (ho : o ∈ operations) (e : ArithmeticError) :
    Open scope operations surplus (.arithmetic e)
  | mismatch {arg : Expr} {x : String} {v : Value} (harg : arg ∈ surplus)
    (hname : arg.bareName? = some x) (hx : scope.get? x = some v) (hv : v.asNumber? = none) :
    Open scope operations surplus (.mismatch .number v.kind arg.name?)

section Expr

variable {scope : Scope} {err : EvalError} {operations operations' : List Operation}
  {surplus surplus' : List Expr} {type : SlotType}

theorem EvalError.Open.mono (ho : operations ⊆ operations') (hs : surplus ⊆ surplus')
    (h : err.Open scope operations surplus) : err.Open scope operations' surplus' := by
  cases h with
  | arity hcall hgiven => exact .arity (ho hcall) hgiven
  | arithmetic hmem e => exact .arithmetic (ho hmem) e
  | mismatch harg hname hx hv => exact .mismatch (hs harg) hname hx hv

theorem open_of_mapError {α : Type} {x : Except ArithmeticError α} {o : Operation}
    (ho : o ∈ operations) (h : x.mapError EvalError.arithmetic = .error err) :
    err.Open scope operations surplus := by
  cases x with
  | ok a => cases h
  | error e =>
    cases h
    exact .arithmetic ho e

/-- A function that is called with as many arguments as it takes fails in its arithmetic. -/
theorem Builtin.open_of_call {f : Builtin} {args : List Number}
    (hcall : .call f args.length ∈ operations) (h : f.call args = .error err) :
    err.Open scope operations surplus := by
  unfold Builtin.call at h
  split at h
  · exact open_of_mapError hcall h
  · rename_i hlength
    cases h
    have hwrong : args.length ≠ f.arity := by
      intro heq
      have htwo : f.arity = 2 := by cases f <;> rfl
      match args, heq.trans htwo with
      | [a, b], _ => exact hlength a b rfl
    exact .arity hcall hwrong

theorem length_of_evalOperands {args : List Expr} {ns : List Number}
    (h : evalOperands scope args = .ok ns) : ns.length = args.length := by
  induction args generalizing ns with
  | nil =>
    rw [evalOperands] at h
    cases h
    rfl
  | cons arg args ih =>
    rw [evalOperands] at h
    simp only [Except.bind_eq_ok] at h
    obtain ⟨_, _, n, _, ns', hrest, h⟩ := h
    cases h
    rw [List.length_cons, List.length_cons, ih hrest]

/-- Only a name can stand for a value that is no number. -/
theorem Expr.exists_bareName : ∀ {e : Expr} {v : Value}, e.eval scope = .ok v →
    v.asNumber? = none → ∃ x, e.bareName? = some x ∧ scope.get? x = some v
  | .slot name, v, h, _ => by
    rw [Expr.eval] at h
    exact ⟨name, rfl, Scope.resolve_eq_ok.1 h⟩
  | .number n, v, h, hv => by
    rw [Expr.eval] at h
    cases h
    cases hv
  | .group inner, v, h, hv => by
    rw [Expr.eval] at h
    exact exists_bareName (e := inner) h hv
  | .binary op lhs rhs, v, h, hv => by
    rw [Expr.eval] at h
    simp only [Except.bind_eq_ok] at h
    obtain ⟨_, _, _, _, _, _, _, _, _, _, h⟩ := h
    cases h
    cases hv
  | .call f args, v, h, hv => by
    rw [Expr.eval] at h
    simp only [Except.bind_eq_ok] at h
    obtain ⟨_, _, _, _, h⟩ := h
    cases h
    cases hv

theorem Expr.demands_of_bareName {x : String} : ∀ {e : Expr}, e.bareName? = some x →
    e.demands type = [⟨x, type⟩]
  | .slot name, h => by
    cases h
    rfl
  | .group inner, h => by
    rw [Expr.demands]
    exact demands_of_bareName (e := inner) h

/-- Where a number or anything is wanted, a value of that type comes out. -/
theorem Expr.accepts_of_eval (ht : type = .num ∨ type = .any) {e : Expr}
    (hm : scope.Meets (e.demands type)) {v : Value} (h : e.eval scope = .ok v) :
    type.Accepts v := by
  cases hv : v.asNumber? with
  | some n => exact SlotType.Accepts.any_of_num ht ⟨n, hv⟩
  | none =>
    obtain ⟨x, hname, hx⟩ := Expr.exists_bareName h hv
    rw [Expr.demands_of_bareName hname, Scope.Meets.singleton_iff] at hm
    obtain ⟨w, hw, hacc⟩ := hm
    rw [hx] at hw
    cases hw
    exact hacc

/-- An operand that a number is wanted of is one. -/
theorem Expr.toOperand_ne_error {e : Expr} (hm : scope.Meets (e.demands .num)) {v : Value}
    (h : e.eval scope = .ok v) : e.toOperand v ≠ .error err := by
  obtain ⟨n, hn⟩ := Expr.accepts_of_eval (.inl rfl) hm h
  rw [Expr.toOperand, hn]
  exact nofun

/-- A surplus argument whose value is no number is a surplus name. -/
theorem Expr.open_of_toOperand {e : Expr} (he : e ∈ surplus) {v : Value}
    (h : e.eval scope = .ok v) (hv : e.toOperand v = .error err) :
    err.Open scope operations surplus := by
  unfold Expr.toOperand at hv
  split at hv
  · cases hv
  · rename_i hnone
    cases hv
    obtain ⟨x, hname, hx⟩ := Expr.exists_bareName h hnone
    exact .mismatch he hname hx hnone

mutual

/-- Where the demands of an expression are met, it fails in a way that types leave open. -/
theorem Expr.open_of_eval : ∀ (e : Expr) {type : SlotType}, scope.Meets (e.demands type) →
    e.eval scope = .error err → err.Open scope e.operations e.surplus
  | .slot name, _, hm, h => by
    rw [Expr.demands, Scope.Meets.singleton_iff] at hm
    rw [Expr.eval, Scope.resolve_eq_error] at h
    obtain ⟨v, hv, -⟩ := hm
    rw [hv] at h
    cases h.1
  | .number n, _, _, h => by
    rw [Expr.eval] at h
    cases h
  | .group inner, _, hm, h => by
    rw [Expr.demands] at hm
    rw [Expr.eval] at h
    rw [Expr.operations, Expr.surplus]
    exact inner.open_of_eval hm h
  | .binary op lhs rhs, _, hm, h => by
    rw [Expr.demands, Scope.Meets.append] at hm
    rw [Expr.eval] at h
    rw [Expr.operations, Expr.surplus]
    simp only [Except.bind_eq_error] at h
    rcases h with h | ⟨v, hv, h | ⟨a, -, h | ⟨w, hw, h | ⟨b, -, h | ⟨n, -, h⟩⟩⟩⟩⟩
    · have hlhs := lhs.open_of_eval hm.1 h
      exact hlhs.mono (List.subset_cons_of_subset _ (List.subset_append_left _ _))
        (List.subset_append_left _ _)
    · exact absurd h (Expr.toOperand_ne_error hm.1 hv)
    · have hrhs := rhs.open_of_eval hm.2 h
      exact hrhs.mono (List.subset_cons_of_subset _ (List.subset_append_right _ _))
        (List.subset_append_right _ _)
    · exact absurd h (Expr.toOperand_ne_error hm.2 hw)
    · exact open_of_mapError List.mem_cons_self h
    · cases h
  | .call f args, _, hm, h => by
    have hdeclared : ∀ t ∈ f.argumentTypes, t = .num := by cases f <;> decide
    rw [Expr.demands] at hm
    rw [Expr.eval] at h
    rw [Expr.operations, Expr.surplus]
    simp only [Except.bind_eq_error] at h
    rcases h with h | ⟨ns, hns, h | ⟨n, -, h⟩⟩
    · have hargs := open_of_evalOperands args hdeclared hm h
      rw [f.length_argumentTypes] at hargs
      exact hargs.mono (List.subset_cons_self _ _) (List.Subset.refl _)
    · have hlength : ns.length = args.length := length_of_evalOperands hns
      exact Builtin.open_of_call (by rw [hlength]; exact List.mem_cons_self) h
    · cases h

theorem open_of_evalOperands : ∀ (args : List Expr) {declared : List SlotType},
    (∀ t ∈ declared, t = .num) → scope.Meets (argumentDemands declared args) →
      evalOperands scope args = .error err →
        err.Open scope (argumentOperations args)
          (args.drop declared.length ++ argumentSurplus args)
  | [], _, _, _, h => by
    rw [evalOperands] at h
    cases h
  | arg :: args, declared, hdeclared, hm, h => by
    rw [argumentDemands, Scope.Meets.append] at hm
    rw [evalOperands] at h
    rw [argumentOperations, argumentSurplus]
    simp only [Except.bind_eq_error] at h
    rcases h with h | ⟨v, hv, h | ⟨n, -, h | ⟨ns, -, h⟩⟩⟩
    · have harg := arg.open_of_eval hm.1 h
      exact harg.mono (List.subset_append_left _ _)
        (List.subset_append_of_subset_right _ (List.subset_append_left _ _))
    · cases declared with
      | nil => exact Expr.open_of_toOperand (by simp) hv h
      | cons t ts =>
        have hnum : t = .num := hdeclared t List.mem_cons_self
        subst hnum
        exact absurd h (Expr.toOperand_ne_error hm.1 hv)
    · have hrest := open_of_evalOperands args (fun t ht => hdeclared t (List.mem_of_mem_tail ht))
        hm.2 h
      have hdrop : args.drop declared.tail.length ⊆ (arg :: args).drop declared.length := by
        cases declared with
        | nil => exact List.subset_cons_self _ _
        | cons t ts => exact List.Subset.refl _
      refine hrest.mono (List.subset_append_right _ _) (List.append_subset.2 ⟨?_, ?_⟩)
      · exact List.subset_append_of_subset_left _ hdrop
      · exact List.subset_append_of_subset_right _ (List.subset_append_right _ _)
    · cases h

end

end Expr

section Visits

/-- Every item of a loop's array meets what the body demands of the binder. -/
theorem Scope.Meets.bind {scope : Scope} {binder array : String} {inner : List Demand}
    {type : SlotType} (htype : arrayType binder array (inner.filter (·.name == binder)) = .ok type)
    (h : scope.Meets (inner.filter (·.name != binder) ++ [⟨array, type⟩])) :
    ∃ items, scope.resolveArray array = .ok items ∧
      ∀ item ∈ items, (Scope.bind binder item scope).Meets inner := by
  rw [Scope.Meets.append, Scope.Meets.singleton_iff] at h
  obtain ⟨hother, v, hv, hacc⟩ := h
  obtain ⟨items, hitems, hall⟩ := arrayType_items htype hacc
  refine ⟨items, ?_, fun item hitem d hd => ?_⟩
  · cases v with
    | array items' =>
      cases hitems
      exact Scope.resolveArray_eq_ok.2 hv
    | number n => cases hitems
    | string s => cases hitems
  · by_cases hname : d.name = binder
    · refine ⟨item, by simp [Scope.get?, hname], hall item hitem d ?_⟩
      exact List.mem_filter.2 ⟨hd, by simp [hname]⟩
    · obtain ⟨w, hw, hdw⟩ := hother d (List.mem_filter.2 ⟨hd, by simp [hname]⟩)
      exact ⟨w, by simpa [Scope.get?, Ne.symm hname] using hw, hdw⟩

/-- Where the demands of lines are met, those of all items are that the filling comes to. -/
theorem Visits.meets {scope inner : Scope} {lines : List Line} {item : Item}
    (h : Visits scope lines inner item) {demands : List Demand}
    (hd : linesOwnDemands lines = .ok demands) (hm : scope.Meets demands) :
    ∃ own, item.ownDemands = .ok own ∧ inner.Meets own := by
  induction h generalizing demands with
  | here hl hitem =>
    obtain ⟨own, hown, hsub⟩ := exists_ownDemands hd hl hitem
    exact ⟨own, hown, hm.mono hsub⟩
  | round hl hloop harray hvalue _ ih =>
    obtain ⟨own, hown, hsub⟩ := exists_ownDemands hd hl hloop
    obtain ⟨demands', type, hbody, htype, rfl⟩ := Item.ownDemands_loop_eq_ok.1 hown
    obtain ⟨items, hitems, hbound⟩ := Scope.Meets.bind htype (hm.mono hsub)
    rw [harray] at hitems
    cases hitems
    exact ih hbody (hbound _ hvalue)

/-- Values of the slots' types meet all demands of blocks and loops, so that only a block can fail,
and only in a way that types leave open. -/
theorem Document.exists_open_of_render {d : Document} {slots : List Slot} {c : Context}
    {err : EvalError} (hslots : d.slots = .ok slots) (hc : c.Conforms slots)
    (h : d.render c = .error err) :
    ∃ scope e, Visits (.root c) d.lines scope (.block e) ∧ e.eval scope = .error err ∧
      err.Open scope e.operations e.surplus := by
  unfold Document.slots at hslots
  obtain ⟨demands, hdemands, hunify⟩ := Except.bind_eq_ok.1 hslots
  rw [Document.demands_eq] at hdemands
  have hmeets : (Scope.root c).Meets demands := hc.meets hunify
  rcases exists_visits_of_renderLines_error h with
    ⟨scope, e, hvisit, heval⟩ | ⟨scope, binder, array, body, hvisit, harray⟩
  · obtain ⟨own, hown, hmet⟩ := hvisit.meets hdemands hmeets
    cases hown
    exact ⟨scope, e, hvisit, heval, e.open_of_eval hmet heval⟩
  · obtain ⟨own, hown, hmet⟩ := hvisit.meets hdemands hmeets
    obtain ⟨inner, type, -, htype, rfl⟩ := Item.ownDemands_loop_eq_ok.1 hown
    obtain ⟨items, hitems, -⟩ := Scope.Meets.bind htype hmet
    rw [harray] at hitems
    cases hitems

end Visits

/-- A template whose names have types, filled with values of these types, is rendered, or one of its
blocks fails in a way that types leave open. -/
theorem Document.render_open {d : Document} {slots : List Slot} {c : Context}
    (hslots : d.slots = .ok slots) (hc : c.Conforms slots) :
    (∃ text, d.render c = .ok text) ∨ ∃ err, d.render c = .error err ∧
      ∃ scope e, Visits (.root c) d.lines scope (.block e) ∧ e.eval scope = .error err ∧
        err.Open scope e.operations e.surplus := by
  cases hr : d.render c with
  | ok text => exact .inl ⟨text, rfl⟩
  | error err => exact .inr ⟨err, rfl, Document.exists_open_of_render hslots hc hr⟩

def surplusCall : Document :=
  ⟨[[.block (.call .minimum [.number (.int 1), .number (.int 2), .slot "s"])]]⟩

/-- A name that is a surplus argument by itself is told. -/
example : surplusCall.render { bindings := [("s", .string "x")] } =
    .error (.mismatch .number .string (some "s")) := rfl

/-- A surplus argument in a loop, of which the binder is also the name of a slot for numbers. -/
def surplusLoop : Document :=
  ⟨[[.block (.binary .add (.slot "x") (.number (.int 1)))],
    [.loop "x" "xs" [[.block (.call .minimum
      [.number (.int 1), .number (.int 2), .group (.slot "x")])]]]]⟩

def surplusContext : Context where
  bindings := [("x", .number (.int 5)), ("xs", .array [.string "end"])]

theorem surplusContext_conforms :
    surplusContext.Conforms [⟨"x", .num⟩, ⟨"xs", .anyArray⟩] := by
  intro s hs
  simp only [List.mem_cons, List.not_mem_nil, or_false] at hs
  rcases hs with rfl | rfl
  · exact ⟨_, rfl, _, rfl⟩
  · exact ⟨_, rfl, _, rfl⟩

/-- The call has one argument too many, and yet its failure is that this one is a string. -/
theorem surplusLoop_render_open :
    surplusLoop.slots = .ok [⟨"x", .num⟩, ⟨"xs", .anyArray⟩] ∧
      surplusContext.Conforms [⟨"x", .num⟩, ⟨"xs", .anyArray⟩] ∧
      surplusLoop.render surplusContext = .error (.mismatch .number .string none) ∧
      ∃ scope e, Visits (.root surplusContext) surplusLoop.lines scope (.block e) ∧
        e.eval scope = .error (.mismatch .number .string none) ∧
        (EvalError.mismatch .number .string none).Open scope e.operations e.surplus := by
  have hgroups : groupByName [⟨"x", .num⟩, ⟨"xs", .anyArray⟩] =
      [("x", [.num]), ("xs", [.anyArray])] := by
    simp [groupByName, List.mergeSort, List.MergeSort.Internal.splitInTwo, addToGroups]
  have hslots : surplusLoop.slots = .ok [⟨"x", .num⟩, ⟨"xs", .anyArray⟩] :=
    congrArg (List.mapM resolveGroup) hgroups
  have hrender : surplusLoop.render surplusContext = .error (.mismatch .number .string none) := rfl
  rcases Document.render_open hslots surplusContext_conforms with ⟨text, htext⟩ | ⟨e, he, hopen⟩
  · rw [hrender] at htext
    cases htext
  · rw [hrender] at he
    cases he
    exact ⟨hslots, surplusContext_conforms, hrender, hopen⟩

end Stencil
