/-! Strings of TOML, in four forms: quotes or apostrophes, on one line or in threes over several. -/
namespace Stencil.Toml

/-- A character that stands for itself inside a string. -/
def isPlain (c : Char) : Bool := c == '\t' || (' ' ≤ c && c ≤ '~') || '\x80' ≤ c

def hexDigit? (c : Char) : Option Nat :=
  if c.isDigit then some (c.toNat - '0'.toNat)
  else if 'a' ≤ c ∧ c ≤ 'f' then some (c.toNat - 'a'.toNat + 10)
  else if 'A' ≤ c ∧ c ≤ 'F' then some (c.toNat - 'A'.toNat + 10)
  else none

/-- The character whose code point the digits give. -/
def codePoint? (digits : List Char) : Option Char := do
  let n ← digits.foldlM (fun n c => return 16 * n + (← hexDigit? c)) 0
  if n.isValidChar then some (Char.ofNat n) else none

/-- Characters after a backslash that stand for one character. -/
def shortEscape? : Char → Option Char
  | 'b' => some '\x08'
  | 't' => some '\t'
  | 'n' => some '\n'
  | 'f' => some '\x0c'
  | 'r' => some '\r'
  | '"' => some '"'
  | '\\' => some '\\'
  | _ => none

/-- The character that an escape after a backslash stands for, and what follows it. -/
def escape? : List Char → Option (Char × List Char)
  | 'u' :: a :: b :: c :: d :: rest => do return (← codePoint? [a, b, c, d], rest)
  | 'U' :: a :: b :: c :: d :: e :: f :: g :: h :: rest => do
    return (← codePoint? [a, b, c, d, e, f, g, h], rest)
  | c :: rest => do return (← shortEscape? c, rest)
  | [] => none

theorem length_escape?_lt {cs rest : List Char} {c : Char} (h : escape? cs = some (c, rest)) :
    rest.length < cs.length := by
  unfold escape? at h
  split at h
  · simp only [bind, Option.bind_eq_some_iff, pure, Option.some.injEq, Prod.mk.injEq] at h
    obtain ⟨_, _, _, rfl⟩ := h
    simp; omega
  · simp only [bind, Option.bind_eq_some_iff, pure, Option.some.injEq, Prod.mk.injEq] at h
    obtain ⟨_, _, _, rfl⟩ := h
    simp; omega
  · simp only [bind, Option.bind_eq_some_iff, pure, Option.some.injEq, Prod.mk.injEq] at h
    obtain ⟨_, _, _, rfl⟩ := h
    simp
  · simp at h

/-- White space after a backslash at the end of a line is left out: up to the line end
(`opening`), and from there up to the next text (`open`). -/
inductive Gap
  | none
  | opening
  | open
  deriving DecidableEq

structure Quotation where
  /-- A quote, inside which a backslash escapes, or an apostrophe. -/
  mark : Char
  multiline : Bool

namespace Quotation

/-- A line end, in the text or in a gap. -/
def passLine (gap : Gap) (done : List Char) : Gap × List Char :=
  if gap = .none then (.none, '\n' :: done) else (.open, done)

/-- The rest of a string after the reversed `done`, and what follows its closing marks. Before
the three closing marks of a string of several lines, two more may belong to it. -/
def body (q : Quotation) (gap : Gap) (done : List Char) : List Char →
    Option (List Char × List Char)
  | [] => none
  | '\r' :: '\n' :: rest =>
    if q.multiline then q.body (passLine gap done).1 (passLine gap done).2 rest else none
  | c :: rest =>
    if c = '\n' then
      if q.multiline then q.body (passLine gap done).1 (passLine gap done).2 rest else none
    else if (c = ' ' ∨ c = '\t') ∧ gap ≠ .none then q.body gap done rest
    else if gap = .opening then none
    else if c = q.mark then
      if q.multiline then
        let marks := rest.takeWhile (· = q.mark)
        if marks.length < 2 then q.body .none (c :: done) rest
        else
          let own := min (marks.length - 2) 2
          some ((List.replicate own c ++ done).reverse, rest.drop (own + 2))
      else some (done.reverse, rest)
    else if c = '\\' ∧ q.mark = '"' then
      match _h : escape? rest with
      | some (c, rest') => q.body .none (c :: done) rest'
      | none => if q.multiline then q.body .opening done rest else none
    else if isPlain c then q.body .none (c :: done) rest
    else none
termination_by cs => cs.length
decreasing_by all_goals grind [→ length_escape?_lt]

theorem length_body_le (q : Quotation) (gap : Gap) (done cs : List Char)
    {text rest : List Char} (h : q.body gap done cs = some (text, rest)) :
    rest.length ≤ cs.length := by
  fun_induction q.body gap done cs <;> grind [→ length_escape?_lt]

end Quotation
end Stencil.Toml
