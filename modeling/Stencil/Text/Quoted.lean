import Stencil.Text.Visible

/-! Quoted text: delimiters, line ends and invisible characters are escaped, all else stands. -/
namespace Stencil.Text

/-- The code point in braces, in hexadecimal. -/
def codePointEscape (c : Char) : List Char :=
  ['\\', 'u', '{'] ++ Nat.toDigits 16 c.toNat ++ ['}']

/-- One character inside `quote` marks. A combining mark is escaped when it has no character
before it to combine with (`initial`). -/
def escape (quote : Char) (initial : Bool) (c : Char) : List Char :=
  match c with
  | '\x00' => ['\\', '0']
  | '\t' => ['\\', 't']
  | '\r' => ['\\', 'r']
  | '\n' => ['\\', 'n']
  | '\\' => ['\\', '\\']
  | _ =>
    if c = quote then ['\\', c]
    else if unprintable.has c || ignorable.has c || initial && combining.has c then
      codePointEscape c
    else [c]

/-- A text between double quotes. -/
def quoted (s : String) : String :=
  let body := match s.toList with
    | [] => []
    | c :: rest => escape '"' true c ++ rest.flatMap (escape '"' false)
  String.ofList ('"' :: body ++ ['"'])

/-- A character between single quotes. -/
def quotedChar (c : Char) : String :=
  String.ofList ('\'' :: escape '\'' true c ++ ['\''])

end Stencil.Text
