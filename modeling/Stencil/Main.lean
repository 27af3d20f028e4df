import Stencil.CommandLine.Run

/-! The program: answers one command line. -/
namespace Stencil.CommandLine

/-- What stands at a path of the file system. -/
def readPath (path : String) : IO File := do
  try
    let _ ← IO.FS.realPath path
  catch _ => return .missing
  try return .text (← IO.FS.readFile path)
  catch _ => return .unreadable

def usage : String := "usage: lex|ast|type FILE, or eval FILE [KEY:VALUE]... [--values FILE]; " ++
  "each may have --config FILE"

/-- Prints what a command line asks for, or why not, and gives the exit code. -/
def report (arguments : List String) : IO UInt32 := do
  match ← run readPath arguments with
  | .success output =>
    IO.print output
    return 0
  | .failure failure =>
    IO.eprintln s!"Error: {failure.message}"
    return 1
  | .misuse =>
    IO.eprintln usage
    return 2

end Stencil.CommandLine

def main (arguments : List String) : IO UInt32 := Stencil.CommandLine.report arguments
