import Stencil.Value.Number

/-! Values that fill the slots of a template, and the contexts that supply them. -/
namespace Stencil

inductive Value
  | number (value : Number)
  | string (value : String)
  | array (items : List Value)

inductive ValueKind
  | int
  | float
  | string
  | array
  deriving DecidableEq, Repr

def ValueKind.name : ValueKind → String
  | int => "int"
  | float => "float"
  | string => "string"
  | array => "array"

namespace Value

def kind : Value → ValueKind
  | number (.int _) => .int
  | number (.float _) => .float
  | string _ => .string
  | array _ => .array

def asNumber? : Value → Option Number
  | number n => some n
  | _ => none

def asArray? : Value → Option (List Value)
  | array items => some items
  | _ => none

mutual

/-- How a value reads in the filled template: a string as it is, an array in brackets. -/
def text : Value → String
  | number n => n.text
  | string s => s
  | array [] => "[]"
  | array (item :: items) => restText ("[" ++ item.text) items ++ "]"

/-- The remaining items of an array, each after a comma, appended to what precedes them. -/
def restText (done : String) : List Value → String
  | [] => done
  | item :: items => restText (done ++ ", " ++ item.text) items

end

end Value

/-- What a caller supplies: at most one value for a name. -/
structure Context where
  bindings : List (String × Value) := []
  unique : (bindings.map Prod.fst).Nodup := by decide

namespace Context

def empty : Context := {}

def get? (c : Context) (name : String) : Option Value := c.bindings.lookup name

/-- The bindings of all other names. -/
def erase (c : Context) (name : String) : Context where
  bindings := c.bindings.filter (·.1 ≠ name)
  unique := c.unique.sublist (List.filter_sublist.map _)

/-- Binds a name, in place of what it was bound to. -/
def insert (c : Context) (name : String) (value : Value) : Context where
  bindings := (name, value) :: (c.erase name).bindings
  unique := by
    have absent : name ∉ (c.erase name).bindings.map Prod.fst := by simp [erase]
    exact List.nodup_cons.2 ⟨absent, (c.erase name).unique⟩

@[simp] theorem get?_empty (name : String) : empty.get? name = none := rfl

@[simp] theorem get?_erase (c : Context) (name other : String) :
    (c.erase name).get? other = if other = name then none else c.get? other := by
  simp only [get?, erase]
  induction c.bindings with
  | nil => simp
  | cons binding bindings ih =>
    obtain ⟨bound, value⟩ := binding
    by_cases hb : bound = name <;> by_cases ho : other = bound <;> grind

@[simp] theorem get?_insert (c : Context) (name other : String) (value : Value) :
    (c.insert name value).get? other = if other = name then some value else c.get? other := by
  have later : (c.insert name value).get? other =
      if other = name then some value else (c.erase name).get? other := by
    by_cases h : other = name <;> grind [insert, get?]
  rw [later, get?_erase]
  split <;> rfl

/-- Binds names from left to right. -/
def insertAll (c : Context) (bindings : List (String × Value)) : Context :=
  bindings.foldl (fun c (name, value) => c.insert name value) c

end Context
end Stencil
