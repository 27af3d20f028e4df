import Stencil.Token.Feed

/-! Reading tokens with one token in view. -/
namespace Stencil

/-- What would have been accepted where another token stands. -/
inductive Expectation
  | token (kind : TokenKind)
  | lineItem
  | operand
  | argumentEnd
  | lineEndAfterLoopStart
  | lineEndAfterLoopEnd
  deriving DecidableEq

def Expectation.text : Expectation → String
  | token kind => kind.name
  | lineItem => "text, '\x7b\x7b' or newline"
  | operand => "one of text, number, '('"
  | argumentEnd => "',' or ')'"
  | lineEndAfterLoopStart => "newline after the 'foreach' block"
  | lineEndAfterLoopEnd => "newline after the 'endforeach' block"

/-- Where a loop may not start. -/
inductive LoopPlace
  | afterContent
  | insideExpression
  deriving DecidableEq

inductive SyntaxError.Cause
  | unexpected (expectation : Expectation)
  | nestedLoop
  | unterminatedLoop (binder : String)
  | misplacedLoop (place : LoopPlace)
  | strayLoopEnd
  | missingArgument (function : Builtin)
  | unknownFunction (name : String)
  | tooDeep (limit : Nat)
  deriving DecidableEq

/-- A cause and the token where it was found. -/
structure SyntaxError where
  cause : SyntaxError.Cause
  found : Token
  deriving DecidableEq

namespace SyntaxError

/-- A found token as an error shows it: a word or number with its text. -/
def foundText (t : Token) : String :=
  match t.kind with
  | .text | .number _ => s!"{t.kind.name} '{t.lexeme}'"
  | kind => kind.name

def reason (e : SyntaxError) : String :=
  match e.cause with
  | .unexpected expectation => s!"Expected {expectation.text}, found {foundText e.found}"
  | .nestedLoop => "Loops cannot be nested: 'foreach' inside a 'foreach' body"
  | .unterminatedLoop binder =>
    s!"Reached end of file before 'endforeach' closing the loop over '{binder}'"
  | .misplacedLoop .afterContent => "A 'foreach' block must be the only content of its line"
  | .misplacedLoop .insideExpression =>
    "'foreach' can only open a block at the start of a line"
  | .strayLoopEnd => "Found 'endforeach' without a matching 'foreach'"
  | .missingArgument f => s!"Expected an argument after ',' in call to {f.name}, found ')'"
  | .unknownFunction name => s!"Unknown function '{name}'"
  | .tooDeep limit =>
    s!"Expression nesting too deep: {limit} levels (max {limit}). Consider simplifying."

def message (e : SyntaxError) : String :=
  s!"Parse error at line {e.found.line}, column {e.found.column}: {e.reason}"

end SyntaxError

inductive ParseError
  | lexical (error : LexError)
  | syntactic (error : SyntaxError)
  deriving DecidableEq

def ParseError.message : ParseError → String
  | lexical e => e.message
  | syntactic e => e.message

/-- The token in view, and where those after it come from. -/
structure ParseState (σ : Type) where
  current : Token
  feed : σ

instance {σ : Type} [TokenFeed σ] : Sized (ParseState σ) :=
  ⟨fun s => s.current.weight + size s.feed⟩

abbrev Parser (σ : Type) [TokenFeed σ] : Type → Type := Reader (ParseState σ) ParseError

namespace Parser

variable {σ α : Type} [TokenFeed σ]

theorem size_eq (s : ParseState σ) : size s = s.current.weight + size s.feed := rfl

/-- The token in view. -/
def current : Parser σ Token := ⟨fun s => (.ok s.current, s), fun _ => Nat.le_refl _⟩

@[simp] theorem run_current (s : ParseState σ) :
    (current : Parser σ Token).run s = (.ok s.current, s) := rfl

/-- The kind of the token in view. -/
def kind : Parser σ TokenKind := ⟨fun s => (.ok s.current.kind, s), fun _ => Nat.le_refl _⟩

@[simp] theorem run_kind (s : ParseState σ) :
    (kind : Parser σ TokenKind).run s = (.ok s.current.kind, s) := rfl

/-- Fails at a given token. -/
def failAt (t : Token) (cause : SyntaxError.Cause) : Parser σ α :=
  Reader.fail (.syntactic ⟨cause, t⟩)

/-- Fails at the token in view. -/
def failHere (cause : SyntaxError.Cause) : Parser σ α :=
  ⟨fun s => (.error (.syntactic ⟨cause, s.current⟩), s), fun _ => Nat.le_refl _⟩

@[simp] theorem run_failHere (cause : SyntaxError.Cause) (s : ParseState σ) :
    (failHere cause : Parser σ α).run s = (.error (.syntactic ⟨cause, s.current⟩), s) := rfl

/-- Fails at the token in view unless its kind is accepted. -/
def require (accepted : TokenKind → Bool) (cause : SyntaxError.Cause) : Parser σ Unit where
  run s :=
    if accepted s.current.kind then (.ok (), s)
    else (.error (.syntactic ⟨cause, s.current⟩), s)
  size_run_le s := by split <;> exact Nat.le_refl _

theorem run_require (accepted : TokenKind → Bool) (cause : SyntaxError.Cause)
    (s : ParseState σ) : (require accepted cause : Parser σ Unit).run s =
      if accepted s.current.kind then (.ok (), s)
      else (.error (.syntactic ⟨cause, s.current⟩), s) := rfl

theorem run_require_eq_ok {accepted : TokenKind → Bool} {cause : SyntaxError.Cause}
    {s s' : ParseState σ} {u : Unit} :
    (require accepted cause : Parser σ Unit).run s = (.ok u, s') ↔
      accepted s.current.kind ∧ s' = s := by
  rw [run_require]
  split <;> rename_i h <;> simp [h, eq_comm]

/-- Brings the next token into view. -/
def advance : Parser σ Unit where
  run s :=
    match TokenFeed.next s.feed with
    | (.ok t, feed) => (.ok (), ⟨t, feed⟩)
    | (.error e, feed) => (.error (.lexical e), { s with feed })
  size_run_le s := by
    have bound := TokenFeed.size_next_le s.feed
    have strict := @TokenFeed.weight_add_size_next_le _ _ s.feed
    split <;> rename_i h <;> rw [h] at bound strict
    · have := strict rfl; simp only [size_eq] at *; omega
    · simp only [size_eq] at *; omega

theorem size_advance_lt {s s' : ParseState σ} (proper : s.current.kind ≠ .endOfFile)
    (ok : (advance : Parser σ Unit).run s = (.ok (), s')) : size s' < size s := by
  have strict := @TokenFeed.weight_add_size_next_le _ _ s.feed
  simp only [advance] at ok
  split at ok <;> rename_i h <;> rw [h] at strict
  · have := strict rfl
    simp only [Prod.mk.injEq, true_and] at ok
    simp only [← ok, size_eq, Token.weight, proper, if_false] at *
    omega
  · simp at ok

def setMode (mode : Mode) : Parser σ Unit where
  run s := (.ok (), { s with feed := TokenFeed.setMode mode s.feed })
  size_run_le s := by
    have := TokenFeed.size_setMode_le mode s.feed
    simp only [size_eq]; omega

theorem size_setMode_le {mode : Mode} {s s' : ParseState σ}
    (ok : (setMode mode : Parser σ Unit).run s = (.ok (), s')) :
    size s' ≤ size s ∧ s'.current = s.current := by
  have bound := (setMode mode).size_run_le s
  rw [ok] at bound
  simp only [setMode, Prod.mk.injEq, true_and] at ok
  exact ⟨bound, by rw [← ok]⟩

/-- The token after the one in view, read as inside a block; it is given again when the parser
advances, whatever the mode is then. -/
def lookahead : Parser σ Token where
  run s :=
    match TokenFeed.next (TokenFeed.setMode .block s.feed) with
    | (.ok t, feed) =>
      (.ok t, { s with feed := TokenFeed.setMode .literal (TokenFeed.unread t feed) })
    | (.error e, feed) => (.error (.lexical e), { s with feed })
  size_run_le s := by
    have enter := TokenFeed.size_setMode_le .block s.feed
    have bound := TokenFeed.size_next_le (TokenFeed.setMode .block s.feed)
    have strict := @TokenFeed.weight_add_size_next_le _ _ (TokenFeed.setMode .block s.feed)
    split <;> rename_i h <;> rw [h] at bound strict
    · rename_i t feed
      have := strict rfl
      have := TokenFeed.size_unread_le t feed
      have := TokenFeed.size_setMode_le .literal (TokenFeed.unread t feed)
      simp only [size_eq] at *; omega
    · simp only [size_eq] at *; omega

/-- Fails unless a token of the given kind is in view. -/
def requireKind (expected : TokenKind) : Parser σ Unit :=
  require (· == expected) (.unexpected (.token expected))

/-- Moves past a token of a given kind. -/
def expect (expected : TokenKind) : Parser σ Token := do
  requireKind expected
  let t ← current
  advance
  return t

/-- Moves past the opening braces into a block. -/
def enterBlock : Parser σ Unit := do
  setMode .block
  advance

/-- Moves past the closing braces into literal text. -/
def closeBlock : Parser σ Unit := do
  requireKind .closeBlock
  setMode .literal
  advance

theorem size_enterBlock_lt {s s' : ParseState σ} (proper : s.current.kind ≠ .endOfFile)
    (ok : (enterBlock : Parser σ Unit).run s = (.ok (), s')) : size s' < size s := by
  rw [enterBlock, Reader.run_bind] at ok
  split at ok <;> rename_i h
  · have entered := size_setMode_le h
    exact Nat.lt_of_lt_of_le (size_advance_lt (by rw [entered.2]; exact proper) ok) entered.1
  · simp at ok

end Parser
end Stencil
