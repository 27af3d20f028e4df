import Stencil.Limits
import Stencil.Text.Quoted
import Stencil.Value.Number

/-! Tokens of a template, and what is not a token. -/
namespace Stencil

inductive TokenKind
  | openBlock
  | closeBlock
  | plus
  | minus
  | star
  | slash
  | leftParen
  | rightParen
  | comma
  | dot
  /-- Literal text outside a block, a name inside. -/
  | text
  | number (value : Number)
  | foreachWord
  | inWord
  | endforeachWord
  | newline
  | endOfFile
  deriving DecidableEq

def TokenKind.name : TokenKind → String
  | openBlock => "'\x7b\x7b'"
  | closeBlock => "'\x7d\x7d'"
  | plus => "'+'"
  | minus => "'-'"
  | star => "'*'"
  | slash => "'/'"
  | leftParen => "'('"
  | rightParen => "')'"
  | comma => "','"
  | dot => "'.'"
  | text => "text"
  | number _ => "number"
  | foreachWord => "'foreach'"
  | inWord => "'in'"
  | endforeachWord => "'endforeach'"
  | newline => "newline"
  | endOfFile => "end of file"

/-- A kind with the text that it stands for and the place of its first byte, both from 1. -/
structure Token where
  kind : TokenKind
  lexeme : String
  line : Nat
  column : Nat
  deriving DecidableEq

namespace Token

def describe (t : Token) : String :=
  s!"{t.line}:{t.column}:{t.kind.name} {Text.quoted t.lexeme}"

/-- Every token but the last takes part of the text. -/
def weight (t : Token) : Nat := if t.kind = .endOfFile then 0 else 1

end Token

inductive LexError
  | unexpectedCharacter (character : Char) (line : Nat)
  | inputTooLarge (bytes max : Nat)
  | tooManyTokens (max line : Nat)
  | identifierTooLong (bytes max line : Nat)
  | numberOutOfRange (text : String) (line : Nat)
  deriving DecidableEq

def LexError.message : LexError → String
  | unexpectedCharacter c line =>
    s!"Lexical error at line {line}: unexpected character {Text.quotedChar c}"
  | inputTooLarge bytes max => s!"Input too large: {bytes} bytes (max: {max} bytes)"
  | tooManyTokens max line =>
    s!"Lexical error at line {line}: token limit exceeded (max: {max})"
  | identifierTooLong bytes max line =>
    s!"Lexical error at line {line}: identifier too long: {bytes} bytes (max: {max} bytes)"
  | numberOutOfRange text line => s!"Lexical error at line {line}: number out of range: {text}"

end Stencil
