import Stencil.Document.Basic
import Stencil.Slot.Basic

/-! The demands that a template makes of names, in the order of their uses. -/
namespace Stencil

mutual

/-- The demands of an expression where a value of type `expected` is wanted. -/
def Expr.demands (expected : SlotType) : Expr → List Demand
  | .slot name => [⟨name, expected⟩]
  | .number _ => []
  | .group inner => inner.demands expected
  | .binary _ lhs rhs => lhs.demands .num ++ rhs.demands .num
  | .call f args => argumentDemands f.argumentTypes args

/-- Arguments beyond the declared ones meet no demand. -/
def argumentDemands (declared : List SlotType) : List Expr → List Demand
  | [] => []
  | arg :: args => arg.demands (declared.headD .any) ++ argumentDemands declared.tail args

end

/-- The type of a loop's array, from the demands that the body makes of the binder. -/
def arrayType (binder array : String) (demands : List Demand) : Except TypeError SlotType :=
  let types := SlotType.sorted (demands.map Demand.type)
  match if types.isEmpty then some .any else SlotType.resolve? types with
  | none => .error (.mixedArray binder types)
  | some element =>
    match element.arrayOf? with
    | none => .error (.invalidArray array element)
    | some type => .ok type

mutual

/-- Adds the demands of an item. Those of a loop's body on its binder become one on its array. -/
def Item.demands (done : Array Demand) : Item → Except TypeError (Array Demand)
  | .text _ => .ok done
  | .block e => .ok (done ++ e.demands .any)
  | .loop binder array body => do
    let inner ← linesDemands #[] body
    let type ← arrayType binder array (inner.filter (·.name == binder)).toList
    return (done ++ inner.filter (·.name != binder)).push ⟨array, type⟩

def lineDemands (done : Array Demand) : List Item → Except TypeError (Array Demand)
  | [] => .ok done
  | item :: items => do lineDemands (← item.demands done) items

def linesDemands (done : Array Demand) : List (List Item) → Except TypeError (Array Demand)
  | [] => .ok done
  | line :: lines => do linesDemands (← lineDemands done line) lines

end

def Document.demands (d : Document) : Except TypeError (List Demand) := do
  return (← linesDemands #[] d.lines).toList

end Stencil
