import Mathlib.Logic.Function.Basic
import Stencil.Proofs.Render.Parts
import Stencil.Proofs.Slot.Demand

/-! Names that loops bind can be exchanged for fresh ones. Neither the demands of a loop nor what it
is filled with depend on how its binder is called. -/
namespace Stencil

mutual

/-- The names in an expression that stand for values. -/
def Expr.variables : Expr → List String
  | .slot name => [name]
  | .number _ => []
  | .group inner => inner.variables
  | .binary _ lhs rhs => lhs.variables ++ rhs.variables
  | .call _ args => argumentVariables args

def argumentVariables : List Expr → List String
  | [] => []
  | arg :: args => arg.variables ++ argumentVariables args

end

mutual

/-- The names of slots, binders and arrays in an item. -/
def Item.variables : Item → List String
  | .text _ => []
  | .block e => e.variables
  | .loop binder array body => binder :: array :: linesVariables body

def lineVariables : Line → List String
  | [] => []
  | item :: items => item.variables ++ lineVariables items

def linesVariables : List Line → List String
  | [] => []
  | l :: lines => lineVariables l ++ linesVariables lines

end

mutual

/-- Puts `ρ name` in the place of every name that stands for a value. -/
def Expr.rename (ρ : String → String) : Expr → Expr
  | .slot name => .slot (ρ name)
  | .number value => .number value
  | .group inner => .group (inner.rename ρ)
  | .binary op lhs rhs => .binary op (lhs.rename ρ) (rhs.rename ρ)
  | .call f args => .call f (renameArguments ρ args)

def renameArguments (ρ : String → String) : List Expr → List Expr
  | [] => []
  | arg :: args => arg.rename ρ :: renameArguments ρ args

end

mutual

/-- Puts `ρ name` in the place of every name that is free. A loop's array is outside of the loop,
and in its body the binder keeps its name. -/
def Item.rename (ρ : String → String) : Item → Item
  | .text content => .text content
  | .block e => .block (e.rename ρ)
  | .loop binder array body =>
    .loop binder (ρ array) (renameLines (Function.update ρ binder binder) body)

def renameLine (ρ : String → String) : Line → Line
  | [] => []
  | item :: items => item.rename ρ :: renameLine ρ items

def renameLines (ρ : String → String) : List Line → List Line
  | [] => []
  | l :: lines => renameLine ρ l :: renameLines ρ lines

end

theorem mem_lineVariables {name : String} {l : Line} :
    name ∈ lineVariables l ↔ ∃ item ∈ l, name ∈ item.variables := by
  induction l with
  | nil => simp [lineVariables]
  | cons item l ih =>
    simp only [lineVariables, List.mem_append, ih, List.mem_cons, exists_eq_or_imp]

theorem mem_linesVariables {name : String} {lines : List Line} :
    name ∈ linesVariables lines ↔ ∃ l ∈ lines, ∃ item ∈ l, name ∈ item.variables := by
  induction lines with
  | nil => simp [linesVariables]
  | cons l lines ih =>
    simp only [linesVariables, List.mem_append, mem_lineVariables, ih, List.mem_cons,
      exists_eq_or_imp]

theorem not_mem_variables {name : String} {lines : List Line} (h : name ∉ linesVariables lines)
    {l : Line} (hl : l ∈ lines) {item : Item} (hitem : item ∈ l) : name ∉ item.variables :=
  fun hmem => h (mem_linesVariables.2 ⟨l, hl, item, hitem, hmem⟩)

theorem renameLine_eq_map (ρ : String → String) (l : Line) :
    renameLine ρ l = l.map (Item.rename ρ) := by
  induction l with
  | nil => rfl
  | cons item l ih => rw [renameLine, ih, List.map_cons]

theorem renameLines_eq_map (ρ : String → String) (lines : List Line) :
    renameLines ρ lines = lines.map (List.map (Item.rename ρ)) := by
  induction lines with
  | nil => rfl
  | cons l lines ih => rw [renameLines, renameLine_eq_map, ih, List.map_cons]

/-- The failure without the names that it tells. -/
def TypeError.unnamed : TypeError → TypeError
  | mixedArray _ types => mixedArray "" types
  | invalidArray _ element => invalidArray "" element
  | unresolvable _ types => unresolvable "" types

/-- The failure without the name of a value that is not of the kind that is wanted. -/
def EvalError.unnamed : EvalError → EvalError
  | mismatch wanted found _ => mismatch wanted found none
  | e => e

open Function (update)

/-- No other name takes the place of the binder's new name. -/
theorem update_eq_iff {ρ : String → String} {binder binder' name : String}
    (h : name ≠ binder → ρ name ≠ binder') :
    update ρ binder binder' name = binder' ↔ name = binder := by
  rw [Function.update_apply]
  split
  · rename_i hname
    exact iff_of_true rfl hname
  · rename_i hname
    exact iff_of_false (h hname) hname

/-- Names stand for themselves or are all called `fresh`. -/
def RenamesTo (fresh : String) (ρ : String → String) : Prop :=
  ∀ name, ρ name = name ∨ ρ name = fresh

namespace RenamesTo

variable {fresh : String} {ρ : String → String}

theorem id (fresh : String) : RenamesTo fresh id := fun _ => .inl rfl

theorem update (h : RenamesTo fresh ρ) {binder binder' : String}
    (hbinder : binder' = binder ∨ binder' = fresh) :
    RenamesTo fresh (update ρ binder binder') := by
  intro name
  rw [Function.update_apply]
  split
  · rename_i hname
    rw [hname]
    exact hbinder
  · exact h name

/-- A name that is not fresh is that of itself only. -/
theorem ne (h : RenamesTo fresh ρ) {name binder : String} (hname : name ≠ binder)
    (hbinder : binder ≠ fresh) : ρ name ≠ binder := by
  intro heq
  rcases h name with hself | hfresh
  · exact hname (hself.symm.trans heq)
  · exact hbinder (heq.symm.trans hfresh)

end RenamesTo

section Demands

def Demand.rename (ρ : String → String) (d : Demand) : Demand := ⟨ρ d.name, d.type⟩

mutual

theorem Expr.demands_rename (ρ : String → String) : ∀ (e : Expr) (type : SlotType),
    (e.rename ρ).demands type = (e.demands type).map (Demand.rename ρ)
  | .slot name, _ => rfl
  | .number n, _ => rfl
  | .group inner, type => by
    rw [Expr.rename, Expr.demands, Expr.demands, inner.demands_rename ρ]
  | .binary op lhs rhs, _ => by
    rw [Expr.rename, Expr.demands, Expr.demands, lhs.demands_rename ρ, rhs.demands_rename ρ,
      List.map_append]
  | .call f args, _ => by
    rw [Expr.rename, Expr.demands, Expr.demands, argumentDemands_rename ρ args]

theorem argumentDemands_rename (ρ : String → String) :
    ∀ (args : List Expr) (declared : List SlotType),
      argumentDemands declared (renameArguments ρ args) =
        (argumentDemands declared args).map (Demand.rename ρ)
  | [], _ => rfl
  | arg :: args, declared => by
    rw [renameArguments, argumentDemands, argumentDemands, arg.demands_rename ρ,
      argumentDemands_rename ρ args, List.map_append]

end

/-- The type of a loop's array depends on the types demanded of its binder, and not on names. -/
theorem arrayType_unnamed (binder binder' array array' : String) {demands demands' : List Demand}
    (h : demands'.map Demand.type = demands.map Demand.type) :
    (arrayType binder' array' demands').mapError TypeError.unnamed =
      (arrayType binder array demands).mapError TypeError.unnamed := by
  unfold arrayType
  rw [h]
  dsimp only
  split
  · rfl
  · split <;> rfl

section Binder

variable {ρ : String → String} {binder binder' array : String} {body body' : List Line}
  {demands : List Demand}

/-- Demands on the binder go over to its new name, and no others. -/
theorem binder_demands_rename (h : ∀ d ∈ demands, d.name ≠ binder → ρ d.name ≠ binder') :
    ((demands.map (Demand.rename (update ρ binder binder'))).filter (·.name == binder')).map
        Demand.type =
      (demands.filter (·.name == binder)).map Demand.type := by
  rw [List.filter_map, List.map_map]
  have hkept : demands.filter ((·.name == binder') ∘ Demand.rename (update ρ binder binder')) =
      demands.filter (·.name == binder) := by
    apply List.filter_congr
    intro d hd
    show (update ρ binder binder' d.name == binder') = (d.name == binder)
    rw [Bool.eq_iff_iff, beq_iff_eq, beq_iff_eq]
    exact update_eq_iff (h d hd)
  rw [hkept]
  rfl

theorem other_demands_rename (h : ∀ d ∈ demands, d.name ≠ binder → ρ d.name ≠ binder') :
    (demands.map (Demand.rename (update ρ binder binder'))).filter (·.name != binder') =
      (demands.filter (·.name != binder)).map (Demand.rename ρ) := by
  rw [List.filter_map]
  have hkept : demands.filter ((·.name != binder') ∘ Demand.rename (update ρ binder binder')) =
      demands.filter (·.name != binder) := by
    apply List.filter_congr
    intro d hd
    show (update ρ binder binder' d.name != binder') = (d.name != binder)
    rw [Bool.eq_iff_iff, bne_iff_ne, bne_iff_ne]
    exact (update_eq_iff (h d hd)).not
  rw [hkept]
  apply List.map_congr_left
  intro d hd
  have hname : d.name ≠ binder := bne_iff_ne.1 (List.mem_filter.1 hd).2
  rw [Demand.rename, Demand.rename, Function.update_of_ne hname]

/-- The demands of a loop go along with those of its body. -/
theorem ownDemands_loop_rename
    (hbody : (linesOwnDemands body').mapError TypeError.unnamed =
      (List.map (Demand.rename (update ρ binder binder')) <$> linesOwnDemands body).mapError
        TypeError.unnamed)
    (hother : ∀ inner, linesOwnDemands body = .ok inner →
      ∀ d ∈ inner, d.name ≠ binder → ρ d.name ≠ binder') :
    ((Item.loop binder' (ρ array) body').ownDemands).mapError TypeError.unnamed =
      (List.map (Demand.rename ρ) <$> (Item.loop binder array body).ownDemands).mapError
        TypeError.unnamed := by
  rw [Item.ownDemands, Item.ownDemands, Except.mapError_bind, hbody]
  cases hinner : linesOwnDemands body with
  | error e => rfl
  | ok inner =>
    have h := hother inner hinner
    have hrest := other_demands_rename h
    have htype := arrayType_unnamed binder binder' array (ρ array) (binder_demands_rename h)
    rw [Except.map_ok, Except.mapError_ok, Except.ok_bind, Except.ok_bind]
    rw [Except.mapError_bind, Except.mapError_map, Except.mapError_bind, htype, hrest]
    cases (arrayType binder array (inner.filter (·.name == binder))).mapError TypeError.unnamed with
    | error e => rfl
    | ok type =>
      apply congrArg Except.ok
      rw [List.map_append]
      rfl

end Binder

/-- Demands that are collected part by part go over to the new names if those of the parts do. -/
theorem flatten_mapM_rename {α : Type} {ρ : String → String} {k : α → α}
    {f f' : α → Except TypeError (List Demand)} {l : List α}
    (h : ∀ a ∈ l, (f' (k a)).mapError TypeError.unnamed =
      (List.map (Demand.rename ρ) <$> f a).mapError TypeError.unnamed) :
    (List.flatten <$> (l.map k).mapM f').mapError TypeError.unnamed =
      (List.map (Demand.rename ρ) <$> List.flatten <$> l.mapM f).mapError TypeError.unnamed := by
  rw [Except.mapError_map, Except.mapError_mapM_map h, Except.mapM_map_answers]
  cases l.mapM f with
  | error e => rfl
  | ok parts => exact congrArg Except.ok List.map_flatten.symm

theorem linesOwnDemands_rename {fresh : String} {ρ : String → String} {lines : List Line}
    (hfresh : fresh ∉ linesVariables lines)
    (h : ∀ l ∈ lines, ∀ item ∈ l, fresh ∉ item.variables →
      (item.rename ρ).ownDemands.mapError TypeError.unnamed =
        (List.map (Demand.rename ρ) <$> item.ownDemands).mapError TypeError.unnamed) :
    (linesOwnDemands (renameLines ρ lines)).mapError TypeError.unnamed =
      (List.map (Demand.rename ρ) <$> linesOwnDemands lines).mapError TypeError.unnamed := by
  rw [renameLines_eq_map, linesOwnDemands_eq, linesOwnDemands_eq]
  apply flatten_mapM_rename
  intro l hl
  rw [lineOwnDemands_eq, lineOwnDemands_eq]
  apply flatten_mapM_rename
  intro item hitem
  exact h l hl item hitem (not_mem_variables hfresh hl hitem)

/-- The demands of an item go over to the new names, and failures change no more than names. -/
theorem Item.ownDemands_rename {fresh : String} {ρ : String → String} (h : RenamesTo fresh ρ)
    {item : Item} (hfresh : fresh ∉ item.variables) :
    (item.rename ρ).ownDemands.mapError TypeError.unnamed =
      (List.map (Demand.rename ρ) <$> item.ownDemands).mapError TypeError.unnamed := by
  induction item using Item.induction generalizing ρ with
  | text content => rfl
  | block e =>
    rw [Item.rename, Item.ownDemands, Item.ownDemands, e.demands_rename]
    rfl
  | loop binder array body ih =>
    simp only [Item.variables, List.mem_cons, not_or] at hfresh
    obtain ⟨hbinder, -, hbody⟩ := hfresh
    have hinner : RenamesTo fresh (update ρ binder binder) := h.update (.inl rfl)
    rw [Item.rename]
    apply ownDemands_loop_rename
    · exact linesOwnDemands_rename hbody fun l hl item hitem => ih l hl item hitem hinner
    · intro inner _ d _ hname
      exact h.ne hname (Ne.symm hbinder)

mutual

/-- The demands of an expression are one for each of its names. -/
theorem Expr.map_name_demands : ∀ (e : Expr) (type : SlotType),
    (e.demands type).map Demand.name = e.variables
  | .slot name, _ => rfl
  | .number n, _ => rfl
  | .group inner, type => by
    rw [Expr.demands, Expr.variables, inner.map_name_demands]
  | .binary op lhs rhs, _ => by
    rw [Expr.demands, Expr.variables, List.map_append, lhs.map_name_demands, rhs.map_name_demands]
  | .call f args, _ => by
    rw [Expr.demands, Expr.variables, map_name_argumentDemands args]

theorem map_name_argumentDemands : ∀ (args : List Expr) (declared : List SlotType),
    (argumentDemands declared args).map Demand.name = argumentVariables args
  | [], _ => rfl
  | arg :: args, declared => by
    rw [argumentDemands, argumentVariables, List.map_append, arg.map_name_demands,
      map_name_argumentDemands args]

end

theorem name_mem_linesVariables {lines : List Line} {demands : List Demand}
    (hitems : ∀ l ∈ lines, ∀ item ∈ l, ∀ {own}, item.ownDemands = .ok own →
      ∀ d ∈ own, d.name ∈ item.variables)
    (h : linesOwnDemands lines = .ok demands) : ∀ d ∈ demands, d.name ∈ linesVariables lines := by
  intro d hd
  obtain ⟨l, hl, item, hitem, own, hown, -, hd⟩ := exists_item_of_demand h hd
  exact mem_linesVariables.2 ⟨l, hl, item, hitem, hitems l hl item hitem hown d hd⟩

/-- Only names that stand in an item are demanded by it. -/
theorem Item.name_mem_variables {item : Item} {demands : List Demand}
    (h : item.ownDemands = .ok demands) : ∀ d ∈ demands, d.name ∈ item.variables := by
  induction item using Item.induction generalizing demands with
  | text content =>
    cases h
    simp
  | block e =>
    cases h
    intro d hd
    rw [Item.variables, ← e.map_name_demands .any]
    exact List.mem_map_of_mem hd
  | loop binder array body ih =>
    obtain ⟨inner, type, hinner, -, rfl⟩ := Item.ownDemands_loop_eq_ok.1 h
    have hbody := name_mem_linesVariables (fun l hl item hitem => ih l hl item hitem) hinner
    intro d hd
    rcases List.mem_append.1 hd with hd | hd
    · have hname := hbody d (List.mem_filter.1 hd).1
      exact List.mem_cons_of_mem _ (List.mem_cons_of_mem _ hname)
    · rw [List.mem_singleton.1 hd]
      exact List.mem_cons_of_mem _ List.mem_cons_self

end Demands

section Render

theorem Expr.toOperand_unnamed (e e' : Expr) (value : Value) :
    (e.toOperand value).mapError EvalError.unnamed =
      (e'.toOperand value).mapError EvalError.unnamed := by
  unfold Expr.toOperand
  split <;> rfl

/-- What names stand for in one scope, their new names stand for in another one. Whatever has
another name is bound. -/
structure Scope.RenamedTo (fresh : String) (ρ : String → String) (scope scope' : Scope) : Prop where
  get?_eq : ∀ name, name ≠ fresh → scope'.get? (ρ name) = scope.get? name
  bound : ∀ name, ρ name ≠ name → scope.get? name ≠ none

namespace Scope.RenamedTo

variable {fresh : String} {ρ : String → String} {scope scope' : Scope}

theorem refl (fresh : String) (scope : Scope) : scope.RenamedTo fresh id scope :=
  ⟨fun _ _ => rfl, fun _ h => absurd rfl h⟩

theorem resolve_eq (h : scope.RenamedTo fresh ρ scope') {name : String} (hname : name ≠ fresh) :
    scope'.resolve (ρ name) = scope.resolve name := by
  unfold resolve
  rw [h.get?_eq name hname]
  split
  · rfl
  · rename_i hnone
    have hself : ρ name = name := Classical.byContradiction fun hother => h.bound name hother hnone
    rw [hself]

theorem resolveArray_unnamed (h : scope.RenamedTo fresh ρ scope') {name : String}
    (hname : name ≠ fresh) :
    (scope'.resolveArray (ρ name)).mapError EvalError.unnamed =
      (scope.resolveArray name).mapError EvalError.unnamed := by
  unfold resolveArray
  rw [h.resolve_eq hname, Except.mapError_bind, Except.mapError_bind]
  congr 1
  funext value
  split <;> rfl

/-- A value is bound to a name in one scope and to its new name in the other one. -/
theorem bind (h : scope.RenamedTo fresh ρ scope') {binder binder' : String}
    (hother : ∀ name, name ≠ fresh → name ≠ binder → ρ name ≠ binder') (item : Value) :
    (Scope.bind binder item scope).RenamedTo fresh (update ρ binder binder')
      (.bind binder' item scope') where
  get?_eq name hname := by
    rw [get?, get?]
    by_cases hbinder : name = binder
    · rw [hbinder, Function.update_self, if_pos rfl, if_pos rfl]
    · rw [Function.update_of_ne hbinder, if_neg (Ne.symm (hother name hname hbinder)),
        if_neg (Ne.symm hbinder), h.get?_eq name hname]
  bound name hname := by
    rw [get?]
    split
    · simp
    · rename_i hbinder
      rw [Function.update_of_ne (Ne.symm hbinder)] at hname
      exact h.bound name hname

end Scope.RenamedTo

section Renamed

variable {fresh : String} {ρ : String → String} {scope scope' : Scope}

mutual

theorem Expr.eval_rename (h : scope.RenamedTo fresh ρ scope') : ∀ e : Expr,
    fresh ∉ e.variables → ((e.rename ρ).eval scope').mapError EvalError.unnamed =
      (e.eval scope).mapError EvalError.unnamed
  | .slot name, hfresh => by
    rw [Expr.variables, List.mem_singleton] at hfresh
    rw [Expr.rename, Expr.eval, Expr.eval, h.resolve_eq (Ne.symm hfresh)]
  | .number n, _ => rfl
  | .group inner, hfresh => by
    rw [Expr.variables] at hfresh
    rw [Expr.rename, Expr.eval, Expr.eval, inner.eval_rename h hfresh]
  | .binary op lhs rhs, hfresh => by
    rw [Expr.variables, List.mem_append, not_or] at hfresh
    rw [Expr.rename, Expr.eval, Expr.eval]
    simp only [Except.mapError_bind, lhs.eval_rename h hfresh.1, rhs.eval_rename h hfresh.2,
      (lhs.rename ρ).toOperand_unnamed lhs, (rhs.rename ρ).toOperand_unnamed rhs]
  | .call f args, hfresh => by
    rw [Expr.variables] at hfresh
    rw [Expr.rename, Expr.eval, Expr.eval]
    simp only [Except.mapError_bind, evalOperands_rename h args hfresh]

theorem evalOperands_rename (h : scope.RenamedTo fresh ρ scope') : ∀ args : List Expr,
    fresh ∉ argumentVariables args →
      (evalOperands scope' (renameArguments ρ args)).mapError EvalError.unnamed =
        (evalOperands scope args).mapError EvalError.unnamed
  | [], _ => rfl
  | arg :: args, hfresh => by
    rw [argumentVariables, List.mem_append, not_or] at hfresh
    rw [renameArguments, evalOperands, evalOperands]
    simp only [Except.mapError_bind, arg.eval_rename h hfresh.1,
      (arg.rename ρ).toOperand_unnamed arg, evalOperands_rename h args hfresh.2]

end

/-- A loop is filled as before once its body is, with the binder called otherwise. -/
theorem render_loop_rename (h : scope.RenamedTo fresh ρ scope')
    {binder binder' array array' : String} {body body' : List Line}
    (harray : (scope'.resolveArray array').mapError EvalError.unnamed =
      (scope.resolveArray array).mapError EvalError.unnamed)
    (hother : ∀ name, name ≠ fresh → name ≠ binder → ρ name ≠ binder')
    (hbody : ∀ {inner inner' : Scope}, inner.RenamedTo fresh (update ρ binder binder') inner' →
      (renderLines inner' body').mapError EvalError.unnamed =
        (renderLines inner body).mapError EvalError.unnamed) (done : String) :
    ((Item.loop binder' array' body').render scope' done).mapError EvalError.unnamed =
      ((Item.loop binder array body).render scope done).mapError EvalError.unnamed := by
  have hround : ∀ item, (renderLines (.bind binder' item scope') body').mapError EvalError.unnamed =
      (renderLines (.bind binder item scope) body).mapError EvalError.unnamed :=
    fun item => hbody (h.bind hother item)
  rw [Item.render, Item.render]
  simp only [Except.mapError_bind, Except.mapError_mapM, harray, hround]

end Renamed

theorem renderLines_rename {fresh : String} {ρ : String → String} {scope scope' : Scope}
    {lines : List Line} (hfresh : fresh ∉ linesVariables lines)
    (h : ∀ l ∈ lines, ∀ item ∈ l, fresh ∉ item.variables →
      ((item.rename ρ).render scope' "").mapError EvalError.unnamed =
        (item.render scope "").mapError EvalError.unnamed) :
    (renderLines scope' (renameLines ρ lines)).mapError EvalError.unnamed =
      (renderLines scope lines).mapError EvalError.unnamed := by
  rw [renameLines_eq_map]
  apply mapError_renderLines_map
  intro l hl item hitem
  exact h l hl item hitem (not_mem_variables hfresh hl hitem)

/-- An item under new names is filled as before, or fails alike but for names. -/
theorem Item.render_rename {fresh : String} {ρ : String → String} {scope scope' : Scope}
    (hρ : RenamesTo fresh ρ) (h : scope.RenamedTo fresh ρ scope') {item : Item}
    (hfresh : fresh ∉ item.variables) (done : String) :
    ((item.rename ρ).render scope' done).mapError EvalError.unnamed =
      (item.render scope done).mapError EvalError.unnamed := by
  induction item using Item.induction generalizing ρ scope scope' done with
  | text content => rfl
  | block e =>
    rw [Item.variables] at hfresh
    rw [Item.rename, Item.render, Item.render]
    simp only [Except.mapError_bind, e.eval_rename h hfresh]
  | loop binder array body ih =>
    simp only [Item.variables, List.mem_cons, not_or] at hfresh
    obtain ⟨hbinder, harray, hbody⟩ := hfresh
    have hinner : RenamesTo fresh (update ρ binder binder) := hρ.update (.inl rfl)
    rw [Item.rename]
    apply render_loop_rename h (h.resolveArray_unnamed (Ne.symm harray))
    · intro name _ hname
      exact hρ.ne hname (Ne.symm hbinder)
    · intro inner inner' hscope
      apply renderLines_rename hbody
      intro l hl item hitem hitem'
      exact ih l hl item hitem hinner hscope hitem' ""

end Render

/-- A loop does not depend on how its binder is called, as long as the new name stands nowhere in
its body. -/
theorem loop_rename_binder {binder fresh array : String} {body : List Line}
    (hfresh : fresh ∉ linesVariables body) :
    let loop : Item := .loop binder array body
    let renamed : Item := .loop fresh array (renameLines (update id binder fresh) body)
    (∀ done, (renamed.demands done).mapError TypeError.unnamed =
      (loop.demands done).mapError TypeError.unnamed) ∧
    ∀ scope done, (renamed.render scope done).mapError EvalError.unnamed =
      (loop.render scope done).mapError EvalError.unnamed := by
  have hbody : RenamesTo fresh (update id binder fresh) := (RenamesTo.id fresh).update (.inr rfl)
  refine ⟨fun done => ?_, fun scope done => ?_⟩
  · have hself : Demand.rename id = id := rfl
    have hdemands :
        (Item.loop fresh array (renameLines (update id binder fresh) body)).ownDemands.mapError
          TypeError.unnamed =
        (List.map (Demand.rename id) <$> (Item.loop binder array body).ownDemands).mapError
          TypeError.unnamed :=
      ownDemands_loop_rename
        (linesOwnDemands_rename hfresh fun _ _ _ _ => Item.ownDemands_rename hbody)
        fun inner hinner d hd _ hname =>
          hfresh (hname ▸ name_mem_linesVariables (fun _ _ _ _ => Item.name_mem_variables) hinner
            d hd)
    rw [hself, List.map_id_fun, id_map] at hdemands
    rw [Item.demands_eq, Item.demands_eq, Except.mapError_map, Except.mapError_map]
    exact congrArg _ hdemands
  · apply render_loop_rename (Scope.RenamedTo.refl fresh scope) rfl
    · intro name hname _
      exact hname
    · intro inner inner' hinner
      exact renderLines_rename hfresh fun _ _ _ _ hitem => Item.render_rename hbody hinner hitem ""

/-- A loop over arrays. Its binder is gone through by a loop that binds the same name. -/
def nestedRows : List Line :=
  [[.text "- ", .block (.slot "row")], [.loop "row" "row" [[.block (.slot "row")]]]]

def nestedRowsContext : Context where
  bindings := [("row", .string "?"),
    ("rows", .array [.array [.number (.int 1), .number (.int 2)], .array [.string "a"]])]

/-- The new name may be that of the loop's own array. -/
theorem nestedRows_loop_rename_binder :
    let loop : Item := .loop "row" "rows" nestedRows
    let renamed : Item := .loop "rows" "rows"
      [[.text "- ", .block (.slot "rows")], [.loop "row" "rows" [[.block (.slot "row")]]]]
    "rows" ∉ linesVariables nestedRows ∧
      renamed = .loop "rows" "rows" (renameLines (update id "row" "rows") nestedRows) ∧
      loop.demands #[] = .error (.mixedArray "row" [.any, .anyArray]) ∧
      (renamed.demands #[]).mapError TypeError.unnamed = .error (.mixedArray "" [.any, .anyArray]) ∧
      (renamed.render (.root nestedRowsContext) "").mapError EvalError.unnamed =
        .ok "- [1, 2]\n1\n2\n- [a]\na" := by
  intro loop renamed
  have hfresh : "rows" ∉ linesVariables nestedRows := by decide
  have hrenamed : renamed =
      .loop "rows" "rows" (renameLines (update id "row" "rows") nestedRows) := by
    with_unfolding_all rfl
  have hdemands : loop.demands #[] = .error (.mixedArray "row" [.any, .anyArray]) := by
    with_unfolding_all rfl
  have hrender : loop.render (.root nestedRowsContext) "" = .ok "- [1, 2]\n1\n2\n- [a]\na" := by
    with_unfolding_all rfl
  obtain ⟨hsame, hfilled⟩ : (∀ done, (renamed.demands done).mapError TypeError.unnamed =
      (loop.demands done).mapError TypeError.unnamed) ∧
      ∀ scope done, (renamed.render scope done).mapError EvalError.unnamed =
        (loop.render scope done).mapError EvalError.unnamed := by
    rw [hrenamed]
    exact loop_rename_binder hfresh
  refine ⟨hfresh, hrenamed, hdemands, ?_, ?_⟩
  · rw [hsame, hdemands]
    rfl
  · rw [hfilled, hrender]
    rfl

end Stencil
