import Stencil.Limits
import Stencil.Toml.Read

/-! The limits in a project file. -/
namespace Stencil

namespace Toml

/-- Sets a limit to the number that a node holds. -/
def setLimit (limits : Limits) (limit : Limit) : Node → Option Limits
  | .integer n => n.toInt.toNat?.map fun value => limits.set value limit
  | _ => none

/-- Sets the limit that a key names. There is no other key. -/
def setNamed (limits : Limits) (key : String) (node : Node) : Option Limits := do
  let limit ← Limit.all.find? (·.key = key)
  setLimit limits limit node

/-- A table sets the limits that it names; an array sets all of them, in their order. -/
def Node.limits? : Node → Option Limits
  | .inline entries | .table _ entries =>
    entries.foldlM (fun limits (key, node) => setNamed limits key node) {}
  | .array items =>
    if items.length < Limit.all.length then none
    else (Limit.all.zip items).foldlM (fun limits (limit, node) => setLimit limits limit node) {}
  | _ => none

end Toml

/-- The limits of a project file, not yet checked. Keys other than `limits` are for others. -/
def Limits.ofToml (text : String) : Except LimitError Limits :=
  let limits? : Option Limits := do
    match (← Toml.read? text).lookup "limits" with
    | none => return {}
    | some node => node.limits?
  match limits? with
  | some limits => .ok limits
  | none => .error .malformed

/-- The limits of a project file, each in its range. -/
def Limits.ofProject (text : String) : Except LimitError Limits := do
  let limits ← ofToml text
  limits.validate
  return limits

end Stencil
