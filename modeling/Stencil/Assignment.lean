import Stencil.Text.Blank
import Stencil.Value.Basic

/-! Values given as `NAME:VALUE`. -/
namespace Stencil

inductive AssignmentError
  | noSeparator (argument : String)
  | noName (argument : String)
  deriving DecidableEq, Repr

def AssignmentError.message : AssignmentError → String
  | noSeparator argument => s!"expected KEY:VALUE, found '{argument}'"
  | noName argument => s!"missing slot name in '{argument}'"

namespace Assignment

/-- A text that reads as a number is one, any other a string. -/
def readScalar (text : List Char) : Value :=
  match Decimal.readInt64? text, Decimal.readFloat? text with
  | some n, _ => .number (.int n)
  | none, some x => .number (.float x)
  | none, none => .string (.ofList text)

/-- What stands between brackets at both ends of a text. -/
def insideBrackets? : List Char → Option (List Char)
  | '[' :: rest => if rest.getLast? = some ']' then some rest.dropLast else none
  | _ => none

/-- A text in brackets is an array of scalars between commas, without the blanks around them. -/
def readValue (text : List Char) : Value :=
  match insideBrackets? text with
  | none => readScalar text
  | some inner =>
    if inner.all Text.isBlank then .array []
    else .array ((inner.splitOn ',').map fun item => readScalar (Text.trim item))

/-- A name up to the first colon, and the value that the rest reads as. -/
def read (argument : String) : Except AssignmentError (String × Value) :=
  let text := argument.toList
  let name := text.takeWhile (· ≠ ':')
  match text.dropWhile (· ≠ ':') with
  | [] => .error (.noSeparator argument)
  | _ :: rest =>
    if name.isEmpty then .error (.noName argument)
    else .ok (.ofList name, readValue rest)

end Assignment
end Stencil
