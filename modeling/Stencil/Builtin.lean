/-! The functions that an expression may call. -/
namespace Stencil

inductive Builtin
  | roundUp
  | roundDown
  | minimum
  | maximum
  deriving DecidableEq, Repr

namespace Builtin

def all : List Builtin := [.roundUp, .roundDown, .minimum, .maximum]

def name : Builtin → String
  | roundUp => "RoundUp"
  | roundDown => "RoundDown"
  | minimum => "Minimum"
  | maximum => "Maximum"

def ofName? (text : String) : Option Builtin := all.find? (·.name == text)

theorem ofName?_name (f : Builtin) : ofName? f.name = some f := by cases f <;> decide

/-- How many arguments a call must have. -/
def arity : Builtin → Nat
  | roundUp | roundDown | minimum | maximum => 2

end Builtin
end Stencil
