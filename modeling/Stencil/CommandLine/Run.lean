import Stencil.CommandLine.Request
import Stencil.Document.Outline
import Stencil.Template
import Stencil.Toml.Context
import Stencil.Toml.Limits

/-! Runs requests against a file system, which is a parameter. -/
namespace Stencil.CommandLine

/-- What stands at a path. -/
inductive File
  | missing
  /-- A directory, for one. -/
  | unreadable
  | text (content : String)

inductive Failure
  | limits
  | file (path : String)
  | values
  | lexical (error : LexError)
  | parse (error : ParseError)
  | compile (error : CompileError)
  | eval (error : EvalError)

def Failure.message : Failure → String
  | limits => "the project file gives no valid limits"
  | file path => s!"Failed to read {path}"
  | values => "the file of values gives no context"
  | lexical e => e.message
  | parse e => e.message
  | compile e => e.message
  | eval e => e.message

inductive Outcome
  | success (output : String)
  | failure (failure : Failure)
  | misuse

variable {m : Type → Type} [Monad m]

/-- The limits of a project. Without a project file they are the defaults. -/
def limitsOf (read : String → m File) (path : String) : ExceptT Failure m Limits := do
  match ← read path with
  | .missing => return {}
  | .unreadable => throw .limits
  | .text content => ExceptT.mk (pure ((Limits.ofProject content).mapError fun _ => .limits))

def contentOf (read : String → m File) (path : String) : ExceptT Failure m String := do
  match ← read path with
  | .text content => return content
  | _ => throw (.file path)

/-- Each text on a line of its own. -/
def onLines (texts : List String) : String :=
  texts.foldl (fun output text => output ++ text ++ "\n") ""

def compiled (limits : Limits) (source : String) : ExceptT Failure m Template :=
  ExceptT.mk (pure ((Template.compile limits source).mapError .compile))

/-- The context of a file of values, or none without such a file. -/
def contextOf (read : String → m File) : Option String → ExceptT Failure m Context
  | none => return .empty
  | some path => do
    match Context.ofToml? (← contentOf read path) with
    | some context => return context
    | none => throw .values

/-- What a request prints. Limits are read before the template, and the template is compiled
before the values are read. -/
def Request.output (read : String → m File) (r : Request) : ExceptT Failure m String := do
  let limits ← limitsOf read r.configFile
  let source ← contentOf read r.templateFile
  match r.action with
  | .tokens =>
    match scan limits .literal source with
    | .ok tokens => return onLines (tokens.map Token.describe)
    | .error e => throw (.lexical e)
  | .tree =>
    match parse limits source with
    | .ok document => return onLines [document.outline.text]
    | .error e => throw (.parse e)
  | .slots => return onLines ((← compiled limits source).slots.map Slot.text)
  | .fill valuesFile? assignments =>
    let template ← compiled limits source
    let context ← contextOf read valuesFile?
    match template.fill (context.insertAll assignments) with
    | .ok text => return onLines [text]
    | .error e => throw (.eval e)

/-- Runs the program on its arguments. -/
def run (read : String → m File) (arguments : List String) : m Outcome := do
  match request arguments with
  | none => return .misuse
  | some r =>
    match ← (r.output read).run with
    | .ok output => return .success output
    | .error failure => return .failure failure

end Stencil.CommandLine
