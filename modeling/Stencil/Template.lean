import Stencil.Parse.Document
import Stencil.Render.Basic
import Stencil.Slot.Unify

/-! Compiled templates: a tree together with the slots that a caller must fill. -/
namespace Stencil

inductive CompileError
  | parse (error : ParseError)
  | type (error : TypeError)
  deriving DecidableEq

def CompileError.message : CompileError → String
  | parse e => e.message
  | type e => e.message

/-- A source text whose names can be given types. -/
structure Template where
  source : String
  document : Document
  slots : List Slot
  slots_eq : document.slots = .ok slots

namespace Template

/-- Reads a source, then infers its slots. -/
def compile (limits : Limits) (source : String) : Except CompileError Template := do
  let document ← (parse limits source).mapError .parse
  match slots_eq : document.slots with
  | .ok slots => return { source, document, slots, slots_eq }
  | .error e => .error (.type e)

def fill (template : Template) (context : Context) : Except EvalError String :=
  template.document.render context

end Template
end Stencil
