import Stencil.Slot.Demand

/-! From the demands on each name to one slot. -/
namespace Stencil

/-- Puts a demand before groups of demands on one name each; equal names stand side by side. -/
def addToGroups (d : Demand) : List (String × List SlotType) → List (String × List SlotType)
  | (name, types) :: groups =>
    if d.name = name then (name, d.type :: types) :: groups
    else (d.name, [d.type]) :: (name, types) :: groups
  | [] => [(d.name, [d.type])]

/-- The types demanded of every name, sorted by name. -/
def groupByName (demands : List Demand) : List (String × List SlotType) :=
  (demands.mergeSort fun a b => decide (a.name ≤ b.name)).foldr addToGroups []

/-- The slot of one name. -/
def resolveGroup (group : String × List SlotType) : Except TypeError Slot :=
  let types := SlotType.sorted group.2
  match SlotType.resolve? types with
  | some type => .ok ⟨group.1, type⟩
  | none => .error (.unresolvable group.1 types)

/-- One slot for every name, sorted by name; the least name without a type is the failure. -/
def unify (demands : List Demand) : Except TypeError (List Slot) :=
  (groupByName demands).mapM resolveGroup

/-- What a caller must supply to fill the template. -/
def Document.slots (d : Document) : Except TypeError (List Slot) := do
  unify (← d.demands)

end Stencil
