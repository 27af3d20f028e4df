import Stencil.Assignment
import Stencil.Template
import Stencil.Toml.Context
import Stencil.Toml.Limits

/-! A working session: limits, one context, and templates by name. -/
namespace Stencil

structure Session where
  limits : Limits := {}
  context : Context := .empty
  templates : List (String × Template) := []

namespace Session

inductive Command
  | compile (name source : String)
  | fill (name : String)
  | set (name : String) (value : Value)
  | unset (name : String)
  | assign (argument : String)
  | addToml (text : String)
  | setLimits (text : String)

inductive Answer
  | template (template : Template)
  | text (text : String)
  | noTemplate
  | context (context : Context)
  | limits (limits : Limits)

inductive Error
  | compile (error : CompileError)
  | eval (error : EvalError)
  | assignment (error : AssignmentError)
  | toml
  | limits (error : LimitError)

def withContext (s : Session) (context : Context) : Answer × Session :=
  (.context context, { s with context })

/-- What a command answers, and the session after it. -/
def perform (s : Session) : Command → Except Error (Answer × Session)
  | .compile name source => do
    let template ← (Template.compile s.limits source).mapError .compile
    return (.template template, { s with templates := (name, template) :: s.templates })
  | .fill name =>
    match s.templates.lookup name with
    | none => return (.noTemplate, s)
    | some template => do
      let text ← (template.fill s.context).mapError .eval
      return (.text text, s)
  | .set name value => return s.withContext (s.context.insert name value)
  | .unset name => return s.withContext (s.context.erase name)
  | .assign argument => do
    let (name, value) ← (Assignment.read argument).mapError .assignment
    return s.withContext (s.context.insert name value)
  | .addToml text =>
    match Context.ofToml? text with
    | none => .error .toml
    | some added => return s.withContext (s.context.insertAll added.bindings)
  | .setLimits text => do
    let limits ← (Limits.ofProject text).mapError .limits
    return (.limits limits, { s with limits })

/-- A failed command changes nothing. -/
def step (s : Session) (command : Command) : Except Error Answer × Session :=
  match s.perform command with
  | .ok (answer, s) => (.ok answer, s)
  | .error e => (.error e, s)

/-- What commands answer that are given one after the other, and the session after them. -/
def run (s : Session) : List Command → List (Except Error Answer) × Session
  | [] => ([], s)
  | command :: commands =>
    let (answer, s) := s.step command
    let (answers, s) := s.run commands
    (answer :: answers, s)

end Session
end Stencil
