import Stencil.Parse.Expression

/-! Reading templates line by line. A loop takes a line of its own and the lines of its body. -/
namespace Stencil

namespace Parser

variable {σ : Type} [TokenFeed σ]

/-- What follows opening braces: an expression, or what `onLoop` makes of a loop. -/
def blockItem (limit : Nat) (onLoop : Parser σ Item) : Parser σ Item := do
  match ← kind with
  | .endforeachWord => failHere .strayLoopEnd
  | .foreachWord => onLoop
  | _ =>
    let e ← expression limit
    closeBlock
    return .block e

/-- One item, unless the line ends. `onLoop` is told whether the line was empty before. -/
def lineStep (limit : Nat) (onLoop : Bool → Parser σ Item) (items : List Item) :
    Parser σ (List Item ⊕ Line) := do
  let t ← current
  match t.kind with
  | .newline | .endOfFile => return .inr items.reverse
  | .openBlock =>
    enterBlock
    let item ← blockItem limit (onLoop items.isEmpty)
    return .inl (item :: items)
  | .text =>
    advance
    return .inl (.text t.lexeme :: items)
  | _ => failHere (.unexpected .lineItem)

theorem lineStep_shrinks (limit : Nat) (onLoop : Bool → Parser σ Item) :
    Reader.Shrinks (lineStep limit onLoop) := by
  intro items items' s s' ok
  simp only [lineStep, Reader.run_bind_eq_ok, run_current] at ok
  obtain ⟨t, s₁, seen, ok⟩ := ok
  cases seen
  split at ok
  · cases ok
  · cases ok
  · rename_i opened
    simp only [Reader.run_bind_eq_ok] at ok
    obtain ⟨_, s₂, entered, item, s₃, read, ok⟩ := ok
    cases ok
    have := size_enterBlock_lt (by rw [opened]; decide) entered
    have := Reader.size_le_of_run read
    omega
  · rename_i literal
    simp only [Reader.run_bind_eq_ok] at ok
    obtain ⟨_, s₂, moved, ok⟩ := ok
    cases ok
    exact size_advance_lt (by rw [literal]; decide) moved
  · cases ok

/-- The items up to the end of the line, which stays in view. -/
def line (limit : Nat) (onLoop : Bool → Parser σ Item) : Parser σ Line :=
  .repeatFrom [] (lineStep limit onLoop) (lineStep_shrinks limit onLoop)

/-- A line inside a loop, where no loop may start. -/
def bodyLine (limit : Nat) : Parser σ Line := line limit fun _ => failHere .nestedLoop

/-- Whether the line in view is the end of a loop; if so, the parser moves past its block. -/
def loopEnd : Parser σ Bool := do
  if (← kind) = .openBlock then
    let inside ← lookahead
    match inside.kind with
    | .endforeachWord =>
      enterBlock
      advance
      closeBlock
      require (fun k => k == .newline || k == .endOfFile) (.unexpected .lineEndAfterLoopEnd)
      return true
    | .foreachWord => failAt inside .nestedLoop
    | _ => return false
  else return false

/-- One line of a loop's body, unless the loop ends. -/
def bodyStep (limit : Nat) (binder : String) (lines : List Line) :
    Parser σ (List Line ⊕ List Line) := do
  if ← loopEnd then return .inr lines.reverse
  else
    require (· != .endOfFile) (.unterminatedLoop binder)
    let l ← bodyLine limit
    require (· != .endOfFile) (.unterminatedLoop binder)
    advance
    return .inl (l :: lines)

theorem bodyStep_shrinks (limit : Nat) (binder : String) :
    Reader.Shrinks (bodyStep (σ := σ) limit binder) := by
  intro lines lines' s s' ok
  simp only [bodyStep, Reader.run_bind_eq_ok] at ok
  obtain ⟨ended, s₁, looked, ok⟩ := ok
  split at ok
  · cases ok
  · simp only [Reader.run_bind_eq_ok, run_require_eq_ok] at ok
    obtain ⟨_, _, ⟨_, rfl⟩, l, s₂, read, _, _, ⟨more, rfl⟩, _, s₃, moved, ok⟩ := ok
    cases ok
    have := Reader.size_le_of_run looked
    have := Reader.size_le_of_run read
    have := size_advance_lt (by simpa using more) moved
    omega

/-- A loop from its first keyword to the block that ends it. -/
def loop (limit : Nat) : Parser σ Item := do
  let _ ← expect .foreachWord
  let binder ← expect .text
  let _ ← expect .inWord
  let array ← expect .text
  closeBlock
  require (· == .newline) (.unexpected .lineEndAfterLoopStart)
  advance
  let body ← Reader.repeatFrom [] (bodyStep limit binder.lexeme) (bodyStep_shrinks limit _)
  return .loop binder.lexeme array.lexeme body

/-- A line outside a loop, where a loop may start if nothing precedes it. -/
def topLine (limit : Nat) : Parser σ Line := line limit fun atStart =>
  if atStart then loop limit else failHere (.misplacedLoop .afterContent)

/-- One line, and whether the template goes on after it. A line end at the very end of the text
is followed by an empty line. -/
def documentStep (limit : Nat) (lines : List Line) : Parser σ (List Line ⊕ List Line) := do
  let l ← topLine limit
  if (← kind) = .endOfFile then return .inr (l :: lines).reverse
  else
    let _ ← expect .newline
    if (← kind) = .endOfFile then return .inr ([] :: l :: lines).reverse
    else return .inl (l :: lines)

theorem documentStep_shrinks (limit : Nat) :
    Reader.Shrinks (documentStep (σ := σ) limit) := by
  intro lines lines' s s' ok
  simp only [documentStep, expect, requireKind, Reader.run_bind_eq_ok, run_kind] at ok
  obtain ⟨l, s₁, read, k, s₂, seen, ok⟩ := ok
  cases seen
  split at ok
  · cases ok
  · simp only [Reader.run_bind_eq_ok, run_require_eq_ok, run_current, run_kind] at ok
    obtain ⟨_, s₂, ⟨_, _, ⟨atEnd, rfl⟩, _, _, seen, _, s₃, moved, passed⟩, _, _, seen', ok⟩ := ok
    cases seen; cases passed; cases seen'
    have := Reader.size_le_of_run read
    have := size_advance_lt (by rw [beq_iff_eq.1 atEnd]; decide) moved
    split at ok <;> cases ok
    omega

/-- A whole template; the empty text has no lines. -/
def document (limit : Nat) : Parser σ Document := do
  if (← kind) = .endOfFile then return ⟨[]⟩
  else return ⟨← Reader.repeatFrom [] (documentStep limit) (documentStep_shrinks limit)⟩

end Parser

/-- Reads a template off a feed. -/
def parseFeed {σ : Type} [TokenFeed σ] (depthLimit : Nat) (feed : σ) :
    Except ParseError Document :=
  match TokenFeed.next feed with
  | (.ok t, feed) => ((Parser.document depthLimit).run ⟨t, feed⟩).1
  | (.error e, _) => .error (.lexical e)

/-- Reads the template of a source text. -/
def parse (limits : Limits) (source : String) : Except ParseError Document :=
  match Cursor.ofSource limits source with
  | .ok cursor => parseFeed limits.expressionDepth ({ cursor } : Buffered)
  | .error e => .error (.lexical e)

end Stencil
