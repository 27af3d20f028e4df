import Stencil.Toml.Read
import Stencil.Value.Basic

/-! Contexts written as TOML documents. -/
namespace Stencil

namespace Toml

mutual

/-- The value of a string, a number, or an array of values; nothing else can fill a slot. -/
def Node.value? : Node → Option Value
  | .string text => some (.string text)
  | .integer n => some (.number (.int n))
  | .float x => some (.number (.float x))
  | .array items => (values? items).map .array
  | _ => none

def values? : List Node → Option (List Value)
  | [] => some []
  | node :: nodes => do
    let value ← node.value?
    let values ← values? nodes
    return value :: values

end

end Toml

/-- The context that a TOML document gives: one binding for each of its keys. -/
def Context.ofToml? (text : String) : Option Context := do
  let entries ← Toml.read? text
  let bindings ← entries.mapM fun (name, node) => do return (name, ← node.value?)
  return Context.empty.insertAll bindings

end Stencil
