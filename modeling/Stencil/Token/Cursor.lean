import Stencil.Reader
import Stencil.Token.Lexeme

/-! A cursor walks over a template and gives its tokens one by one. -/
namespace Stencil

/-- The text with each line end of two characters made one. `done` is the reversed beginning. -/
def joinLineEnds (done : List Char) : List Char → List Char
  | [] => done.reverse
  | '\r' :: '\n' :: rest => joinLineEnds ('\n' :: done) rest
  | c :: rest => joinLineEnds (c :: done) rest

/-- What is left of a template, the place of its first character, and how many tokens have been
given. Every character passed is ASCII, so that columns count characters and bytes alike. -/
structure Cursor where
  limits : Limits
  rest : List Char
  line : Nat := 1
  column : Nat := 1
  mode : Mode := .literal
  given : Nat := 0

namespace Cursor

/-- A cursor at the start of a source that is not too large. -/
def ofSource (limits : Limits) (source : String) : Except LexError Cursor :=
  if limits.inputSize < source.utf8ByteSize then
    .error (.inputTooLarge source.utf8ByteSize limits.inputSize)
  else .ok { limits, rest := joinLineEnds [] source.toList }

def setMode (mode : Mode) (s : Cursor) : Cursor := { s with mode }

/-- Blanks before a lexeme count for nothing inside a block. -/
def skipSpaces (s : Cursor) : Cursor :=
  match s.mode with
  | .literal => s
  | .block =>
    { s with
      rest := s.rest.dropWhile isSpace
      column := s.column + (s.rest.takeWhile isSpace).length }

/-- Moves over a lexeme within its line. -/
def pass (s : Cursor) (lexeme rest : List Char) : Cursor :=
  { s with rest, column := s.column + lexeme.length }

/-- Moves over a line end. -/
def passLine (s : Cursor) (rest : List Char) : Cursor :=
  { s with rest, line := s.line + 1, column := 1 }

/-- The token of a lexeme, which starts where the cursor stands and ends where `after` does. -/
def give (s : Cursor) (kind : TokenKind) (lexeme : List Char) (after : Cursor) :
    Except LexError Token × Cursor :=
  (.ok { kind, lexeme := .ofList lexeme, line := s.line, column := s.column },
    { after with given := s.given + 1 })

/-- What a run stands for in the mode of the cursor. -/
def runKind (s : Cursor) (run : List Char) : Except LexError TokenKind :=
  match s.mode with
  | .literal => .ok .text
  | .block => wordKind s.limits s.line run

/-- The token where the cursor stands. A failure gives no token; an invalid character stays
where it is, while a refused run has been passed. -/
def step (s : Cursor) : Except LexError Token × Cursor :=
  match cutLexeme s.mode s.rest with
  | (.endOfFile, _) => s.give .endOfFile [] s
  | (.newline, rest) => s.give .newline ['\n'] (s.passLine rest)
  | (.openBlock, rest) => s.give .openBlock ['{', '{'] (s.pass ['{', '{'] rest)
  | (.closeBlock, rest) => s.give .closeBlock ['}', '}'] (s.pass ['}', '}'] rest)
  | (.invalid c, _) => (.error (.unexpectedCharacter c s.line), s)
  | (.run run, rest) =>
    match s.runKind run with
    | .ok kind => s.give kind run (s.pass run rest)
    | .error e => (.error e, s.pass run rest)

/-- The next token, while the number of tokens allows one more. -/
def next (s : Cursor) : Except LexError Token × Cursor :=
  if s.limits.tokenCount ≤ s.given then
    (.error (.tooManyTokens s.limits.tokenCount s.line), s)
  else s.skipSpaces.step

instance : Sized Cursor := ⟨fun s => s.rest.length⟩

theorem size_eq (s : Cursor) : size s = s.rest.length := rfl

theorem size_skipSpaces_le (s : Cursor) : size s.skipSpaces ≤ size s := by
  unfold skipSpaces
  split
  · exact Nat.le_refl _
  · exact (List.dropWhile_sublist _).length_le

theorem runKind_ne_endOfFile (s : Cursor) (run : List Char) :
    s.runKind run ≠ .ok .endOfFile := by
  unfold runKind
  split
  · simp
  · exact wordKind_ne_endOfFile _ _ _

theorem size_step_le (s : Cursor) : size s.step.2 ≤ size s := by
  have cut := length_cutLexeme_le s.mode s.rest
  unfold step
  split <;> rename_i h <;> simp only [h, Lexeme.weight] at cut
  · exact Nat.le_refl _
  · simp only [give, passLine, size_eq]; omega
  · simp only [give, pass, size_eq]; omega
  · simp only [give, pass, size_eq]; omega
  · exact Nat.le_refl _
  · split
    · simp only [give, pass, size_eq]; omega
    · simp only [pass, size_eq]; omega

theorem weight_add_size_step_le (s : Cursor) {t : Token} (ok : s.step.1 = .ok t) :
    t.weight + size s.step.2 ≤ size s := by
  have cut := length_cutLexeme_le s.mode s.rest
  revert ok
  unfold step
  split <;> rename_i h <;> simp only [h, Lexeme.weight] at cut
  · intro ok; simp [give] at ok; simp [← ok, give, Token.weight, size_eq]
  · intro ok; simp [give] at ok; simp [← ok, give, Token.weight, passLine, size_eq]; omega
  · intro ok; simp [give] at ok; simp [← ok, give, Token.weight, pass, size_eq]; omega
  · intro ok; simp [give] at ok; simp [← ok, give, Token.weight, pass, size_eq]; omega
  · intro ok; simp at ok
  · rename_i run rest
    split
    · rename_i kind known
      intro ok
      have proper : kind ≠ .endOfFile := fun e => s.runKind_ne_endOfFile run (e ▸ known)
      simp [give] at ok
      simp [← ok, give, Token.weight, pass, size_eq, proper]; omega
    · intro ok; simp at ok

theorem size_next_le (s : Cursor) : size s.next.2 ≤ size s := by
  unfold next
  split
  · exact Nat.le_refl _
  · exact Nat.le_trans s.skipSpaces.size_step_le s.size_skipSpaces_le

theorem weight_add_size_next_le (s : Cursor) {t : Token} (ok : s.next.1 = .ok t) :
    t.weight + size s.next.2 ≤ size s := by
  unfold next at ok ⊢
  split
  · rename_i h; simp [h] at ok
  · rename_i h
    rw [if_neg h] at ok
    exact Nat.le_trans (s.skipSpaces.weight_add_size_step_le ok) s.size_skipSpaces_le

/-- All tokens up to the end of the text, after those in the reversed `done`. -/
def tokens (done : List Token) (s : Cursor) : Except LexError (List Token) :=
  match _h : s.next with
  | (.error e, _) => .error e
  | (.ok t, s') =>
    if _end : t.kind = .endOfFile then .ok (t :: done).reverse else tokens (t :: done) s'
termination_by size s
decreasing_by
  have := s.weight_add_size_next_le (t := t) (by rw [_h])
  rw [_h] at this
  simp only [Token.weight, _end, if_false] at this
  omega

end Cursor

/-- All tokens of a source, read in one mode. -/
def scan (limits : Limits) (mode : Mode) (source : String) : Except LexError (List Token) := do
  (← Cursor.ofSource limits source).setMode mode |>.tokens []

/-- A cursor whose tokens may be asked for until the end of the text or a failure. -/
structure TokenStream where
  cursor : Cursor
  finished : Bool := false

/-- The next token or failure, and nothing after the last. -/
def TokenStream.next? (s : TokenStream) : Option (Except LexError Token) × TokenStream :=
  if s.finished then (none, s)
  else
    let (answer, cursor) := s.cursor.next
    let finished := match answer with
      | .ok t => t.kind == .endOfFile
      | .error _ => true
    (some answer, { cursor, finished })

end Stencil
