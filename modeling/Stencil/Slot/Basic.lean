import Stencil.Builtin

/-! Slots of a template and the types demanded of them. -/
namespace Stencil

inductive SlotType
  | string
  | num
  /-- No demand of its own; any other use refines it. -/
  | any
  | stringArray
  | numArray
  | anyArray
  deriving DecidableEq, Repr

namespace SlotType

/-- In the order in which types are listed. -/
def all : List SlotType := [.string, .num, .any, .stringArray, .numArray, .anyArray]

def name : SlotType → String
  | string => "String"
  | num => "Num"
  | any => "Any"
  | stringArray => "StringArray"
  | numArray => "NumArray"
  | anyArray => "AnyArray"

/-- The type of arrays over which a loop may bind items of this type. -/
def arrayOf? : SlotType → Option SlotType
  | num => some .numArray
  | any => some .anyArray
  | _ => none

theorem mem_all (t : SlotType) : t ∈ all := by cases t <;> decide

/-- The members of a collection, each once and in order. -/
def sorted (types : List SlotType) : List SlotType := all.filter (types.contains ·)

/-- The one type that meets all demands of a sorted collection. -/
def resolve? : List SlotType → Option SlotType
  | [t] => some t
  | [.num, .any] => some .num
  | _ => none

end SlotType

/-- The types demanded of the arguments of a call, from the first on. -/
def Builtin.argumentTypes : Builtin → List SlotType
  | roundUp | roundDown | minimum | maximum => [.num, .num]

theorem Builtin.length_argumentTypes (f : Builtin) : f.argumentTypes.length = f.arity := by
  cases f <;> rfl

/-- One use of a name, and the type that the use demands. -/
structure Demand where
  name : String
  type : SlotType
  deriving DecidableEq, Repr

/-- A name that a caller must supply, and the type of what is supplied. -/
structure Slot where
  name : String
  type : SlotType
  deriving DecidableEq, Repr

def Slot.text (s : Slot) : String := s!"{s.name}: {s.type.name}"

inductive TypeError
  | mixedArray (binder : String) (types : List SlotType)
  | invalidArray (array : String) (element : SlotType)
  | unresolvable (name : String) (types : List SlotType)
  deriving DecidableEq, Repr

private def listText (types : List SlotType) : String :=
  "\x7b" ++ ", ".intercalate (types.map SlotType.name) ++ "\x7d"

def TypeError.message : TypeError → String
  | mixedArray binder types =>
    s!"Type error: iterand '{binder}' is used with incompatible types {listText types}"
  | invalidArray array element =>
    s!"Type error: cannot iterate '{array}' over elements of type {element.name}"
  | unresolvable name types =>
    s!"Type error: slot '{name}' is used with incompatible types {listText types}"

end Stencil
