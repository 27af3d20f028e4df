import Stencil.Proofs.Render.Parts
import Stencil.Proofs.Slot.Accepts
import Stencil.Proofs.Slot.Demand

/-! Filling a template from values that are not of the slots' types fails. A demand on a name that
is made inside a loop is met for every item of its array, and so only if there is one. -/
namespace Stencil

namespace SlotType

/-- Types of arrays. -/
def isArray : SlotType → Bool
  | stringArray | numArray | anyArray => true
  | string | num | any => false

theorem isArray_of_arrayOf? {element type : SlotType} (h : element.arrayOf? = some type) :
    element.isArray = false ∧ type.isArray = true := by
  cases element <;> cases h <;> exact ⟨rfl, rfl⟩

end SlotType

/-- No name of which an array is demanded stands for an empty one. -/
def Scope.Stocked (scope : Scope) (demands : List Demand) : Prop :=
  ∀ d ∈ demands, d.type.isArray → scope.get? d.name ≠ some (.array [])

theorem Scope.Stocked.append {scope : Scope} {ds ds' : List Demand} :
    scope.Stocked (ds ++ ds') ↔ scope.Stocked ds ∧ scope.Stocked ds' := by
  simp only [Stocked, List.forall_mem_append]

theorem Scope.Stocked.mono {scope : Scope} {ds ds' : List Demand} (h : scope.Stocked ds')
    (hs : ds ⊆ ds') : scope.Stocked ds :=
  fun d hd => h d (hs hd)

theorem Scope.Meets.nil {scope : Scope} : scope.Meets [] := by
  intro d hd
  cases hd

theorem Expr.accepts_of_toOperand {e : Expr} {v : Value} {n : Number}
    (h : e.toOperand v = .ok n) : SlotType.num.Accepts v := by
  unfold Expr.toOperand at h
  split at h
  · rename_i n hn
    exact ⟨n, hn⟩
  · cases h

mutual

/-- An expression whose value is of a type has met the demands that are made where it is wanted. -/
theorem Expr.meets_of_eval {scope : Scope} {type : SlotType} : ∀ {e : Expr} {v : Value},
    e.eval scope = .ok v → type.Accepts v → scope.Meets (e.demands type)
  | .slot name, v, h, hv => by
    rw [Expr.eval] at h
    rw [Expr.demands]
    exact Scope.Meets.singleton_iff.2 ⟨v, Scope.resolve_eq_ok.1 h, hv⟩
  | .number n, v, _, _ => by
    rw [Expr.demands]
    exact .nil
  | .group inner, v, h, hv => by
    rw [Expr.eval] at h
    rw [Expr.demands]
    exact Expr.meets_of_eval h hv
  | .binary op lhs rhs, v, h, _ => by
    rw [Expr.eval] at h
    simp only [Except.bind_eq_ok] at h
    obtain ⟨a, ha, m, hm, b, hb, n, hn, -⟩ := h
    rw [Expr.demands, Scope.Meets.append]
    exact ⟨Expr.meets_of_eval ha (Expr.accepts_of_toOperand hm),
      Expr.meets_of_eval hb (Expr.accepts_of_toOperand hn)⟩
  | .call f args, v, h, _ => by
    rw [Expr.eval] at h
    obtain ⟨ns, hns, -⟩ := Except.bind_eq_ok.1 h
    have hdeclared : ∀ t ∈ f.argumentTypes, t = .num := by cases f <;> decide
    rw [Expr.demands]
    exact meets_of_evalOperands hdeclared hns

theorem meets_of_evalOperands {scope : Scope} {declared : List SlotType}
    (hdeclared : ∀ t ∈ declared, t = .num) : ∀ {args : List Expr} {ns : List Number},
      evalOperands scope args = .ok ns → scope.Meets (argumentDemands declared args)
  | [], _, _ => by
    rw [argumentDemands]
    exact .nil
  | arg :: args, ns, h => by
    rw [evalOperands] at h
    simp only [Except.bind_eq_ok] at h
    obtain ⟨v, hv, n, hn, ms, hms, -⟩ := h
    have htype : declared.headD .any = .num ∨ declared.headD .any = .any := by
      cases declared with
      | nil => exact .inr rfl
      | cons t ts => exact .inl (hdeclared t List.mem_cons_self)
    have hnum : (declared.headD .any).Accepts v :=
      SlotType.Accepts.any_of_num htype (Expr.accepts_of_toOperand hn)
    rw [argumentDemands, Scope.Meets.append]
    exact ⟨Expr.meets_of_eval hv hnum,
      meets_of_evalOperands (fun t ht => hdeclared t (List.mem_of_mem_tail ht)) hms⟩

end

section Loop

variable {scope : Scope} {binder array : String} {inner : List Demand} {type : SlotType}

/-- No array is demanded of a binder, so that a body sees no empty one that is not seen outside. -/
theorem Scope.Stocked.bind
    (htype : arrayType binder array (inner.filter (·.name == binder)) = .ok type)
    (h : scope.Stocked (inner.filter (·.name != binder))) (item : Value) :
    (Scope.bind binder item scope).Stocked inner := by
  intro d hd harray
  by_cases hname : d.name = binder
  · obtain ⟨element, helement, -, hall⟩ := arrayType_eq_ok htype
    have hmem : d ∈ inner.filter (·.name == binder) := List.mem_filter.2 ⟨hd, by simp [hname]⟩
    rcases hall d hmem with heq | heq
    · rw [heq, (SlotType.isArray_of_arrayOf? helement).1] at harray
      cases harray
    · rw [heq] at harray
      cases harray
  · have hout := h d (List.mem_filter.2 ⟨hd, by simp [hname]⟩) harray
    rwa [Scope.get?, if_neg (Ne.symm hname)]

/-- If the body's demands are met for every item, and there is one, then the loop's are met. -/
theorem Scope.Meets.of_bind
    (htype : arrayType binder array (inner.filter (·.name == binder)) = .ok type)
    {items : List Value} (harray : scope.get? array = some (.array items)) (hne : items ≠ [])
    (h : ∀ item ∈ items, (Scope.bind binder item scope).Meets inner) :
    scope.Meets (inner.filter (·.name != binder) ++ [⟨array, type⟩]) := by
  rw [Scope.Meets.append]
  constructor
  · intro d hd
    obtain ⟨hmem, hname⟩ := List.mem_filter.1 hd
    have hother : binder ≠ d.name := fun heq => by simp [heq] at hname
    obtain ⟨item, hitem⟩ := List.exists_mem_of_ne_nil items hne
    obtain ⟨v, hv, hacc⟩ := h item hitem d hmem
    rw [Scope.get?, if_neg hother] at hv
    exact ⟨v, hv, hacc⟩
  · refine Scope.Meets.singleton_iff.2 ⟨_, harray, ?_⟩
    obtain ⟨element, helement, horigin, -⟩ := arrayType_eq_ok htype
    have hitems : ∀ item ∈ items, element.Accepts item := by
      intro item hitem
      rcases horigin with rfl | ⟨d, hd, rfl⟩
      · trivial
      · obtain ⟨hmem, hname⟩ := List.mem_filter.1 hd
        obtain ⟨v, hv, hacc⟩ := h item hitem d hmem
        rw [Scope.get?, if_pos (beq_iff_eq.1 hname).symm] at hv
        cases hv
        exact hacc
    cases element <;> cases helement
    · exact ⟨items, rfl, hitems⟩
    · exact ⟨items, rfl⟩

end Loop

theorem meets_of_renderLines {scope : Scope} {lines : List Line} {demands : List Demand}
    {text : String}
    (hitems : ∀ l ∈ lines, ∀ item ∈ l, ∀ {own part}, item.ownDemands = .ok own →
      scope.Stocked own → item.render scope "" = .ok part → scope.Meets own)
    (hd : linesOwnDemands lines = .ok demands) (hs : scope.Stocked demands)
    (h : renderLines scope lines = .ok text) : scope.Meets demands := by
  intro d hmem
  obtain ⟨l, hl, item, hitem, own, hown, hsub, hmem⟩ := exists_item_of_demand hd hmem
  obtain ⟨part, hpart⟩ := exists_render_of_renderLines h hl hitem
  exact hitems l hl item hitem hown (hs.mono hsub) hpart d hmem

/-- An item is filled only where its demands are met. -/
theorem Item.meets_of_render {scope : Scope} {done out : String} {item : Item}
    {demands : List Demand} (hd : item.ownDemands = .ok demands) (hs : scope.Stocked demands)
    (h : item.render scope done = .ok out) : scope.Meets demands := by
  induction item using Item.induction generalizing scope done out demands with
  | text content =>
    cases hd
    exact .nil
  | block e =>
    cases hd
    rw [Item.render] at h
    obtain ⟨v, hv, -⟩ := Except.bind_eq_ok.1 h
    exact Expr.meets_of_eval hv trivial
  | loop binder array body ih =>
    obtain ⟨inner, type, hinner, htype, rfl⟩ := Item.ownDemands_loop_eq_ok.1 hd
    rw [Item.render] at h
    simp only [Except.bind_eq_ok] at h
    obtain ⟨values, hvalues, rounds, hrounds, -⟩ := h
    rw [Scope.Stocked.append] at hs
    have harray := Scope.resolveArray_eq_ok.1 hvalues
    have hne : values ≠ [] := by
      rintro rfl
      obtain ⟨element, helement, -⟩ := arrayType_eq_ok htype
      exact hs.2 _ List.mem_cons_self (SlotType.isArray_of_arrayOf? helement).2 harray
    apply Scope.Meets.of_bind htype harray hne
    intro value hvalue
    obtain ⟨round, -, hround⟩ := Except.exists_mem_of_mapM_ok hrounds hvalue
    exact meets_of_renderLines (fun l hl item hitem => ih l hl item hitem) hinner
      (hs.1.bind htype value) hround

/-- A context from which a template is filled has a value of its type for every slot, unless an
array is empty. -/
theorem Document.conforms_of_render {d : Document} {slots : List Slot} {c : Context} {text : String}
    (hslots : d.slots = .ok slots)
    (hstocked : ∀ s ∈ slots, s.type.isArray → c.get? s.name ≠ some (.array []))
    (hrender : d.render c = .ok text) : c.Conforms slots := by
  unfold Document.slots at hslots
  obtain ⟨demands, hdemands, hunify⟩ := Except.bind_eq_ok.1 hslots
  rw [Document.demands_eq] at hdemands
  have hroot : (Scope.root c).Stocked demands := by
    intro demand hdemand harray
    obtain ⟨s, hs, hname, htype⟩ := exists_slot_of_demand hunify hdemand
    rcases htype with htype | htype
    · rw [← hname]
      exact hstocked s hs (by rw [← htype]; exact harray)
    · rw [htype] at harray
      cases harray
  have hmeets : (Scope.root c).Meets demands :=
    meets_of_renderLines (fun _ _ _ _ => Item.meets_of_render) hdemands hroot hrender
  exact fun s hs => hmeets _ (demand_of_slot hunify hs)

/-- A loop inside a loop, whose body uses both binders and a name from outside. -/
def nestedLoops : Document :=
  ⟨[[.loop "x" "xs" [[.loop "y" "ys"
    [[.block (.binary .multiply (.slot "x") (.slot "k")), .text " ", .block (.slot "y")]]]]]]⟩

/-- Without items nothing is asked of the names inside. -/
example : nestedLoops.render { bindings := [("xs", .array [])] } = .ok "" := rfl

def nestedContext : Context where
  bindings := [("k", .number (.int 3)), ("xs", .array [.number (.int 1), .number (.int 2)]),
    ("ys", .array [.string "a", .array []])]

theorem nestedLoops_conforms_of_render :
    nestedLoops.slots = .ok [⟨"k", .num⟩, ⟨"xs", .numArray⟩, ⟨"ys", .anyArray⟩] ∧
      nestedLoops.render nestedContext = .ok "3 a\n3 []\n6 a\n6 []" ∧
      nestedContext.Conforms [⟨"k", .num⟩, ⟨"xs", .numArray⟩, ⟨"ys", .anyArray⟩] := by
  have hgroups : groupByName [⟨"k", .num⟩, ⟨"ys", .anyArray⟩, ⟨"xs", .numArray⟩] =
      [("k", [.num]), ("xs", [.numArray]), ("ys", [.anyArray])] := by
    simp [groupByName, List.mergeSort, List.MergeSort.Internal.splitInTwo, addToGroups]
  have hslots : nestedLoops.slots =
      .ok [⟨"k", .num⟩, ⟨"xs", .numArray⟩, ⟨"ys", .anyArray⟩] :=
    congrArg (List.mapM resolveGroup) hgroups
  have hrender : nestedLoops.render nestedContext = .ok "3 a\n3 []\n6 a\n6 []" := rfl
  refine ⟨hslots, hrender, Document.conforms_of_render hslots ?_ hrender⟩
  intro s hs harray hempty
  simp only [List.mem_cons, List.not_mem_nil, or_false] at hs
  rcases hs with rfl | rfl | rfl
  · cases harray
  · cases hempty
  · cases hempty

end Stencil
