import Mathlib.Data.Set.Defs
import Stencil.Proofs.Document.Height
import Stencil.Proofs.Parse.Grammar
import Stencil.Proofs.Token.Spaced

/-! How high the expressions are that a bound on depth lets through. The bound counts what is open
around one operand; where a chain goes on behind an operand in parentheses, the count starts at what
was open before them, so that the height is bounded by a square and not by the bound itself. -/
namespace Stencil

/-- The heights of the expressions of all templates that are read within a bound on depth. -/
def acceptedHeights (depth : Nat) : Set Nat :=
  fun h => ∃ limits source d, limits.expressionDepth = depth ∧ parse limits source = .ok d ∧
    ∃ e ∈ d.exprs, e.height = h

theorem lt_of_mem_acceptedHeights {depth h : Nat} (hmem : h ∈ acceptedHeights depth) :
    h < depth * depth := by
  obtain ⟨limits, source, d, rfl, hparse, e, he, rfl⟩ := hmem
  obtain ⟨_, _, hshaped, _⟩ := parse_ok_iff_within.1 hparse
  exact (hshaped.exprs e he).height_lt

/-- The symbols of which towers are made. -/
def towerSymbols : List Symbol :=
  [⟨.leftParen, ""⟩, ⟨.rightParen, ""⟩, ⟨.star, ""⟩, ⟨.plus, ""⟩, ⟨.number (.int 1), ""⟩]

def towerWord (x : Symbol) : List Char :=
  match x.kind with
  | .leftParen => ['(']
  | .rightParen => [')']
  | .star => ['*']
  | .plus => ['+']
  | _ => ['1']

theorem towerWord_spells (limits : Limits) {x : Symbol} (hx : x ∈ towerSymbols) :
    Spells limits (towerWord x) x ∧ '\r' ∉ towerWord x := by
  simp only [towerSymbols, List.mem_cons, List.not_mem_nil, or_false] at hx
  rcases hx with rfl | rfl | rfl | rfl | rfl
  all_goals exact ⟨⟨⟨_, _, rfl, rfl⟩, fun _ => rfl, fun _ => rfl, rfl⟩, by simp [towerWord]⟩

theorem chain_symbols_subset {op : Operator} {e : Expr} (hop : op = .multiply ∨ op = .add)
    (he : ∀ x ∈ e.symbols, x ∈ towerSymbols) (n : Nat) :
    ∀ x ∈ (e.chain op n).symbols, x ∈ towerSymbols := by
  induction n with
  | zero => exact he
  | succ n ih =>
    intro x hx
    rw [Expr.chain, Expr.symbols, List.mem_append] at hx
    rcases hx with hx | hx
    · exact ih x hx
    · simp only [Expr.symbols, List.mem_cons, List.not_mem_nil, or_false] at hx
      rcases hop with rfl | rfl <;> rcases hx with rfl | rfl <;> simp [towerSymbols, Operator.kind]

theorem tower_symbols_subset (n : Nat) : ∀ x ∈ (Expr.tower n).symbols, x ∈ towerSymbols := by
  induction n with
  | zero => simp [Expr.tower, Expr.symbols, towerSymbols]
  | succ n ih =>
    refine chain_symbols_subset (.inr rfl) (chain_symbols_subset (.inl rfl) ?_ _) _
    intro x hx
    simp only [Expr.symbols, List.mem_cons, List.mem_append, List.not_mem_nil, or_false] at hx
    rcases hx with (rfl | hx) | rfl
    · simp [towerSymbols]
    · exact ih x hx
    · simp [towerSymbols]

theorem exists_parse_tower (n : Nat) : ∃ limits source, limits.expressionDepth = n + 1 ∧
    parse limits source = .ok ⟨[[.block (.tower n)]]⟩ := by
  have hsubset := tower_symbols_subset n
  let source := blockSource ((Expr.tower n).symbols.map towerWord)
  let limits : Limits := {
    inputSize := source.utf8ByteSize
    tokenCount := (Expr.tower n).symbols.length + 3
    expressionDepth := n + 1 }
  obtain ⟨tokens, htokens, hsymbols⟩ := tokensAhead_blockSource limits
    (fun x hx => (towerWord_spells limits (hsubset x hx)).1)
    (fun x hx => (towerWord_spells limits (hsubset x hx)).2) (Nat.le_refl _) (Nat.le_refl _)
  refine ⟨limits, source, rfl, parse_ok_iff_within.2 ⟨tokens, htokens, ⟨by simp, ?_⟩, ?_⟩⟩
  · rw [List.forall_mem_singleton]
    left
    rw [List.forall_mem_singleton]
    exact Expr.tower_within n
  · rw [hsymbols]
    simp [Document.symbols, linesSymbols, lineSymbols, Item.symbols]

theorem mem_acceptedHeights {depth h : Nat} (hpos : 0 < depth) (hh : h + 1 = depth * depth) :
    h ∈ acceptedHeights depth := by
  obtain ⟨n, rfl⟩ := Nat.exists_eq_add_one.2 hpos
  obtain ⟨limits, source, hdepth, hparse⟩ := exists_parse_tower n
  have hheight := Expr.tower_height n
  refine ⟨limits, source, _, hdepth, hparse, .tower n, ?_, by omega⟩
  simp [Document.exprs, linesExprs, lineExprs, Item.exprs]

/-- A bound on depth lets expressions through up to a height of its square less one, and that height
is reached. Only the bounds zero and one are bounds on the height. -/
theorem acceptedHeights_bounded (depth : Nat) :
    (∀ h ∈ acceptedHeights depth, h + 1 ≤ depth * depth) ∧
      (0 < depth → depth * depth - 1 ∈ acceptedHeights depth) ∧
      ((∀ h ∈ acceptedHeights depth, h ≤ depth) ↔ depth ≤ 1) := by
  refine ⟨fun h => lt_of_mem_acceptedHeights, fun hpos => ?_, fun hbound => ?_,
    fun hle h hmem => ?_⟩
  · have hsquare : 0 < depth * depth := Nat.mul_pos hpos hpos
    exact mem_acceptedHeights hpos (by omega)
  · by_contra hlt
    have hsquare : 2 * depth ≤ depth * depth := Nat.mul_le_mul_right _ (by omega)
    have hhigh := hbound _ (mem_acceptedHeights (h := depth * depth - 1) (by omega) (by omega))
    omega
  · have hlt := lt_of_mem_acceptedHeights hmem
    have hsquare : depth * depth ≤ 1 * depth := Nat.mul_le_mul_right _ hle
    omega

end Stencil
