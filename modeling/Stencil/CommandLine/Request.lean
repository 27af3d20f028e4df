import Stencil.Assignment

/-! What the arguments of the program ask for. -/
namespace Stencil.CommandLine

inductive Action
  | tokens
  | tree
  | slots
  /-- Fills the template from a file of values and from assignments, which win over the file. -/
  | fill (valuesFile? : Option String) (assignments : List (String × Value))

structure Request where
  action : Action
  templateFile : String
  configFile : String := "project.toml"

inductive Flag
  | config
  | values
  deriving DecidableEq

/-- The flag that a text names. -/
def Flag.ofText? : String → Option Flag
  | "--config" => some .config
  | "--values" => some .values
  | _ => none

/-- An argument in its role. -/
inductive Word
  | operand (text : String)
  | flag (flag : Flag) (value : String)
  /-- Two dashes: no flags from here on. -/
  | divider

/-- Whether an argument is an operand, or the value of a flag before it. A dash alone is. -/
def isPlain (argument : String) : Bool := argument.toList.head? ≠ some '-' || argument = "-"

def splitAtEquals (argument : String) : String × Option String :=
  let cs := argument.toList
  let value? := match cs.dropWhile (· ≠ '=') with
    | [] => none
    | _ :: value => some (.ofList value)
  (.ofList (cs.takeWhile (· ≠ '=')), value?)

/-- Gives each argument its role. A flag has its value after an equals sign or in the next
argument. -/
def words : List String → Option (List Word)
  | [] => some []
  | argument :: rest =>
    if argument = "--" then some (.divider :: rest.map .operand)
    else if isPlain argument then (words rest).map (.operand argument :: ·)
    else
      match splitAtEquals argument, rest with
      | (name, some value), rest => do
        let flag ← Flag.ofText? name
        (words rest).map (.flag flag value :: ·)
      | (name, none), value :: rest => do
        let flag ← Flag.ofText? name
        if isPlain value then (words rest).map (.flag flag value :: ·) else none
      | (_, none), [] => none

namespace Word

def operand? : Word → Option String
  | operand text => some text
  | _ => none

def value? (flag : Flag) : Word → Option String
  | .flag f value => if f = flag then some value else none
  | _ => none

def isFlag : Word → Bool
  | flag .. => true
  | _ => false

end Word

/-- A file name. -/
def fileName (text : String) : Option String := if text.isEmpty then none else some text

/-- The file that a flag names, if any. No flag is given twice. -/
def fileOf (flag : Flag) (words : List Word) : Option (Option String) :=
  match words.filterMap (Word.value? flag) with
  | [] => some none
  | [value] => (fileName value).map some
  | _ => none

/-- What a command does with its operands and with the file of values. -/
def action (command : String) (arguments : List String) (valuesFile? : Option String) :
    Option Action :=
  match command, arguments, valuesFile? with
  | "lex", [], none => some .tokens
  | "ast", [], none => some .tree
  | "type", [], none => some .slots
  | "eval", arguments, valuesFile? => do
    let assignments ← arguments.mapM fun argument => (Assignment.read argument).toOption
    return .fill valuesFile? assignments
  | _, _, _ => none

/-- The request in the arguments, unless they are misused. The project file may be named before
the command or after it, where it counts more. -/
def request (arguments : List String) : Option Request := do
  let words ← words arguments
  let outer := words.takeWhile Word.isFlag
  match words.dropWhile Word.isFlag with
  | .operand command :: inner =>
    guard ((outer.filterMap (Word.value? .values)).isEmpty)
    let outerConfig? ← fileOf .config outer
    let innerConfig? ← fileOf .config inner
    let valuesFile? ← fileOf .values inner
    match inner.filterMap Word.operand? with
    | [] => none
    | file :: arguments =>
      let templateFile ← fileName file
      let action ← action command arguments valuesFile?
      return {
        action, templateFile
        configFile := (innerConfig? <|> outerConfig?).getD "project.toml" }
  | _ => none

end Stencil.CommandLine
