import Stencil.Proofs.Except
import Stencil.Slot.Unify

/-! The demands of each part of a template by itself, and how the collection joins them. -/
namespace Stencil

mutual

/-- The demands of an item, in the order of the uses. -/
def Item.ownDemands : Item → Except TypeError (List Demand)
  | .text _ => .ok []
  | .block e => .ok (e.demands .any)
  | .loop binder array body => do
    let inner ← linesOwnDemands body
    let type ← arrayType binder array (inner.filter (·.name == binder))
    return inner.filter (·.name != binder) ++ [⟨array, type⟩]

def lineOwnDemands : List Item → Except TypeError (List Demand)
  | [] => .ok []
  | item :: items => do
    let first ← item.ownDemands
    return first ++ (← lineOwnDemands items)

def linesOwnDemands : List (List Item) → Except TypeError (List Demand)
  | [] => .ok []
  | line :: lines => do
    let first ← lineOwnDemands line
    return first ++ (← linesOwnDemands lines)

end

section Own

variable {lines : List Line} {demands : List Demand}

theorem lineOwnDemands_eq (l : Line) :
    lineOwnDemands l = List.flatten <$> l.mapM Item.ownDemands := by
  induction l with
  | nil => rfl
  | cons item l ih =>
    rw [lineOwnDemands, List.mapM_cons, ih]
    cases item.ownDemands with
    | error e => rfl
    | ok own => cases l.mapM Item.ownDemands <;> rfl

theorem linesOwnDemands_eq (lines : List Line) :
    linesOwnDemands lines = List.flatten <$> lines.mapM lineOwnDemands := by
  induction lines with
  | nil => rfl
  | cons l lines ih =>
    rw [linesOwnDemands, List.mapM_cons, ih]
    cases lineOwnDemands l with
    | error e => rfl
    | ok own => cases lines.mapM lineOwnDemands <;> rfl

/-- What an item demands, the lines demand. -/
theorem exists_ownDemands (h : linesOwnDemands lines = .ok demands) {l : Line} (hl : l ∈ lines)
    {item : Item} (hitem : item ∈ l) : ∃ own, item.ownDemands = .ok own ∧ own ⊆ demands := by
  rw [linesOwnDemands_eq] at h
  obtain ⟨whole, hwhole, rfl⟩ := Except.map_eq_ok.1 h
  obtain ⟨part, hpart, hline⟩ := Except.exists_mem_of_mapM_ok hwhole hl
  rw [lineOwnDemands_eq] at hline
  obtain ⟨owns, howns, rfl⟩ := Except.map_eq_ok.1 hline
  obtain ⟨own, hown, hdemands⟩ := Except.exists_mem_of_mapM_ok howns hitem
  refine ⟨own, hdemands, fun d hd => ?_⟩
  exact List.mem_flatten.2 ⟨_, hpart, List.mem_flatten.2 ⟨own, hown, hd⟩⟩

/-- What the lines demand, one of their items does. -/
theorem exists_item_of_demand (h : linesOwnDemands lines = .ok demands) {d : Demand}
    (hd : d ∈ demands) :
    ∃ l ∈ lines, ∃ item ∈ l, ∃ own, item.ownDemands = .ok own ∧ own ⊆ demands ∧ d ∈ own := by
  have hsub := h
  rw [linesOwnDemands_eq] at h
  obtain ⟨whole, hwhole, rfl⟩ := Except.map_eq_ok.1 h
  obtain ⟨part, hpart, hd⟩ := List.mem_flatten.1 hd
  obtain ⟨l, hl, hline⟩ := Except.exists_mem_of_mem_mapM_ok hwhole hpart
  rw [lineOwnDemands_eq] at hline
  obtain ⟨owns, howns, rfl⟩ := Except.map_eq_ok.1 hline
  obtain ⟨own, hown, hd⟩ := List.mem_flatten.1 hd
  obtain ⟨item, hitem, hdemands⟩ := Except.exists_mem_of_mem_mapM_ok howns hown
  obtain ⟨own', hown', hsub⟩ := exists_ownDemands hsub hl hitem
  rw [hdemands] at hown'
  cases hown'
  exact ⟨l, hl, item, hitem, own, hdemands, hsub, hd⟩

/-- A loop demands what its body does of other names, and an array. -/
theorem Item.ownDemands_loop_eq_ok {binder array : String} {body : List Line} :
    (Item.loop binder array body).ownDemands = .ok demands ↔ ∃ inner type,
      linesOwnDemands body = .ok inner ∧
        arrayType binder array (inner.filter (·.name == binder)) = .ok type ∧
          inner.filter (·.name != binder) ++ [⟨array, type⟩] = demands := by
  rw [Item.ownDemands, Except.bind_eq_ok]
  simp only [Except.bind_eq_ok, pure, Except.pure, Except.ok.injEq, exists_and_left]

end Own

private theorem appendList_append (done : Array Demand) (first rest : List Demand) :
    done ++ first ++ rest = done ++ (first ++ rest) :=
  Array.ext' (by simp)

mutual

/-- Collecting after other demands puts the own demands behind them, and fails as they do. -/
theorem Item.demands_eq (done : Array Demand) :
    ∀ item : Item, item.demands done = (fun own : List Demand => done ++ own) <$> item.ownDemands
  | .text _ => by simp [Item.demands, Item.ownDemands, Functor.map, Except.map]
  | .block e => by simp [Item.demands, Item.ownDemands, Functor.map, Except.map]
  | .loop binder array body => by
    rw [Item.demands, Item.ownDemands, linesDemands_eq #[] body]
    cases linesOwnDemands body with
    | error e => rfl
    | ok inner =>
      simp only [Functor.map, Except.map, bind, Except.bind, Array.toList_filter,
        Array.toList_appendList, List.nil_append]
      cases arrayType binder array (inner.filter (·.name == binder)) with
      | error e => rfl
      | ok type =>
        refine congrArg Except.ok (Array.ext' ?_)
        simp

theorem lineDemands_eq (done : Array Demand) :
    ∀ items : List Item,
      lineDemands done items = (fun own : List Demand => done ++ own) <$> lineOwnDemands items
  | [] => by simp [lineDemands, lineOwnDemands, Functor.map, Except.map]
  | item :: items => by
    rw [lineDemands, lineOwnDemands, Item.demands_eq done item]
    cases item.ownDemands with
    | error e => rfl
    | ok first =>
      simp only [Functor.map, Except.map, bind, Except.bind]
      rw [lineDemands_eq]
      cases lineOwnDemands items with
      | error e => rfl
      | ok rest => exact congrArg Except.ok (appendList_append done first rest)

theorem linesDemands_eq (done : Array Demand) :
    ∀ lines : List (List Item),
      linesDemands done lines = (fun own : List Demand => done ++ own) <$> linesOwnDemands lines
  | [] => by simp [linesDemands, linesOwnDemands, Functor.map, Except.map]
  | line :: lines => by
    rw [linesDemands, linesOwnDemands, lineDemands_eq done line]
    cases lineOwnDemands line with
    | error e => rfl
    | ok first =>
      simp only [Functor.map, Except.map, bind, Except.bind]
      rw [linesDemands_eq]
      cases linesOwnDemands lines with
      | error e => rfl
      | ok rest => exact congrArg Except.ok (appendList_append done first rest)

end

theorem Document.demands_eq (d : Document) : d.demands = linesOwnDemands d.lines := by
  rw [Document.demands, linesDemands_eq]
  cases linesOwnDemands d.lines with
  | error e => rfl
  | ok demands => simp [Functor.map, Except.map, bind, Except.bind, pure, Except.pure]

end Stencil
