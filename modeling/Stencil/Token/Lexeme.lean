import Stencil.Token.Basic

/-! Cutting the first lexeme off a text, without regard to where it stands. -/
namespace Stencil

/-- Outside a block all characters are literal; inside one, blanks separate words. -/
inductive Mode
  | literal
  | block
  deriving DecidableEq, Repr

/-- A blank that is no line end. -/
def isSpace (c : Char) : Bool :=
  c == ' ' || c == '\t' || c == '\r' || c == '\x0b' || c == '\x0c'

/-- A visible ASCII character. -/
def isGraphic (c : Char) : Bool := '!' ≤ c && c ≤ '~'

/-- A character that stands alone inside a block. -/
def isSeparator (c : Char) : Bool := c == '(' || c == ')' || c == ','

/-- Whether the text starts with a doubled brace. -/
def startsDelimiter : List Char → Bool
  | '{' :: '{' :: _ => true
  | '}' :: '}' :: _ => true
  | _ => false

namespace Mode

/-- The characters that lengthen a run. -/
def continues : Mode → Char → Bool
  | literal, c => isGraphic c || isSpace c
  | block, c => isGraphic c && !isSeparator c

end Mode

inductive Lexeme
  | endOfFile
  | newline
  | openBlock
  | closeBlock
  | run (chars : List Char)
  | invalid (c : Char)
  deriving DecidableEq

/-- Moves characters to the end of the reversed `run` while they lengthen it and no delimiter
starts. -/
def splitRun (mode : Mode) (run : List Char) : List Char → List Char × List Char
  | [] => (run.reverse, [])
  | c :: cs =>
    if startsDelimiter (c :: cs) || !mode.continues c then (run.reverse, c :: cs)
    else splitRun mode (c :: run) cs

/-- The first lexeme and what follows it. A run takes its first character whatever comes next,
so that a single brace before a doubled one is a run of its own. -/
def cutLexeme (mode : Mode) : List Char → Lexeme × List Char
  | [] => (.endOfFile, [])
  | '\n' :: rest => (.newline, rest)
  | '{' :: '{' :: rest => (.openBlock, rest)
  | '}' :: '}' :: rest => (.closeBlock, rest)
  | c :: rest =>
    if !(isGraphic c || isSpace c) then (.invalid c, c :: rest)
    else if mode = .block && isSeparator c then (.run [c], rest)
    else
      let (run, rest) := splitRun mode [c] rest
      (.run run, rest)

theorem length_splitRun_le (mode : Mode) (run cs : List Char) :
    (splitRun mode run cs).2.length ≤ cs.length := by
  induction cs generalizing run with
  | nil => simp [splitRun]
  | cons c cs ih =>
    simp only [splitRun]
    split
    · exact Nat.le_refl _
    · exact Nat.le_succ_of_le (ih _)

/-- Every lexeme but the end and an invalid character takes part of the text. -/
def Lexeme.weight : Lexeme → Nat
  | endOfFile | invalid _ => 0
  | newline | openBlock | closeBlock | run _ => 1

theorem length_cutLexeme_le (mode : Mode) (cs : List Char) :
    (cutLexeme mode cs).1.weight + (cutLexeme mode cs).2.length ≤ cs.length := by
  unfold cutLexeme
  split
  · simp [Lexeme.weight]
  · simp [Lexeme.weight]; omega
  · simp [Lexeme.weight]; omega
  · simp [Lexeme.weight]; omega
  · rename_i c rest _ _ _
    split
    · simp [Lexeme.weight]
    · split
      · simp [Lexeme.weight]; omega
      · have := length_splitRun_le mode [c] rest
        simp [Lexeme.weight]; omega

/-- An optional minus, digits, a point and digits. -/
def floatLiteral? (run : List Char) : Option Float :=
  let negative := run.head? == some '-'
  let unsigned := if negative then run.drop 1 else run
  let whole := unsigned.takeWhile Char.isDigit
  match unsigned.dropWhile Char.isDigit with
  | '.' :: fraction =>
    if whole.isEmpty || fraction.isEmpty || !fraction.all Char.isDigit then none
    else some (Decimal.nearestFloat negative (Decimal.digitsValue (whole ++ fraction))
      (-fraction.length))
  | _ => none

/-- The kinds of the runs that are neither numbers nor names. -/
def reserved? : String → Option TokenKind
  | "+" => some .plus
  | "-" => some .minus
  | "*" => some .star
  | "/" => some .slash
  | "(" => some .leftParen
  | ")" => some .rightParen
  | "," => some .comma
  | "." => some .dot
  | "foreach" => some .foreachWord
  | "in" => some .inWord
  | "endforeach" => some .endforeachWord
  | _ => none

/-- What a run inside a block stands for. -/
def wordKind (limits : Limits) (line : Nat) (run : List Char) : Except LexError TokenKind :=
  match reserved? (.ofList run), floatLiteral? run with
  | some kind, _ => .ok kind
  | none, some x => .ok (.number (.float x))
  | none, none =>
    if run.all Char.isDigit then
      match Decimal.readInt64? run with
      | some n => .ok (.number (.int n))
      | none => .error (.numberOutOfRange (.ofList run) line)
    else if limits.identifierLength < run.length then
      .error (.identifierTooLong run.length limits.identifierLength line)
    else .ok .text

theorem wordKind_ne_endOfFile (limits : Limits) (line : Nat) (run : List Char) :
    wordKind limits line run ≠ .ok .endOfFile := by
  unfold wordKind reserved?
  grind

end Stencil
