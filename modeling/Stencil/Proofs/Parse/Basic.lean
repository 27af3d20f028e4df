import Stencil.Parse.Document
import Stencil.Proofs.Reader

/-! What a successful step of the reader says of its bound on depth and of the token in view. -/
namespace Stencil

/-- A feed that gives a token returned to it back, whatever the mode was in between. -/
class LawfulTokenFeed (σ : Type) [TokenFeed σ] : Prop where
  next_unread : ∀ (t : Token) (s : σ),
    (TokenFeed.next (TokenFeed.setMode .block (TokenFeed.setMode .literal
      (TokenFeed.unread t s)))).1 = .ok t

/-- Kinds in front of which a line ends. -/
def TokenKind.EndsLine (k : TokenKind) : Prop := k = .newline ∨ k = .endOfFile

namespace Parser

variable {σ : Type} [TokenFeed σ] {s s' : ParseState σ}

theorem run_require_ok {accepted : TokenKind → Bool} {cause : SyntaxError.Cause}
    (h : accepted s.current.kind) :
    (require accepted cause : Parser σ Unit).run s = (.ok (), s) := by
  rw [run_require, if_pos h]

theorem pos_of_factor_ok {limit depth : Nat} {e : Expr}
    (h : (factor limit depth).run s = (.ok e, s')) : 0 < depth := by
  cases depth with
  | zero => rw [factor] at h; cases h
  | succ depth => exact Nat.succ_pos depth

theorem pos_of_product_ok {limit depth : Nat} {e : Expr}
    (h : (product limit depth).run s = (.ok e, s')) : 0 < depth := by
  rw [product, Reader.run_bind_eq_ok] at h
  obtain ⟨_, _, hfactor, _⟩ := h
  exact pos_of_factor_ok hfactor

theorem kind_of_line_ok {limit : Nat} {onLoop : Bool → Parser σ Item} {l : Line}
    (ok : (line limit onLoop).run s = (.ok l, s')) :
    s'.current.kind.EndsLine := by
  refine Reader.repeatFrom_ok_induction
    (P := fun _ _ _ s' => s'.current.kind.EndsLine) _ ?_ ?_ ok
  · intro items s l s' hlast
    unfold lineStep at hlast
    rw [Reader.run_bind_ok (run_current s)] at hlast
    split at hlast
    · rename_i hk
      cases hlast
      exact .inl hk
    · rename_i hk
      cases hlast
      exact .inr hk
    · simp only [Reader.run_bind_eq_ok] at hlast
      obtain ⟨_, _, _, _, _, _, hlast⟩ := hlast
      cases hlast
    · simp only [Reader.run_bind_eq_ok] at hlast
      obtain ⟨_, _, _, hlast⟩ := hlast
      cases hlast
    · cases hlast
  · exact fun _ _ _ _ _ _ _ h => h

theorem current_of_lookahead {t : Token}
    (ok : (lookahead : Parser σ Token).run s = (.ok t, s')) : s'.current = s.current := by
  unfold lookahead at ok
  dsimp only at ok
  split at ok
  · cases ok
    rfl
  · cases ok

/-- A token looked at is the one that comes into view next. -/
theorem current_of_reread [LawfulTokenFeed σ] {t : Token} {s'' : ParseState σ}
    (hlook : (lookahead : Parser σ Token).run s = (.ok t, s'))
    (henter : (enterBlock : Parser σ Unit).run s' = (.ok (), s'')) : s''.current = t := by
  unfold lookahead at hlook
  dsimp only at hlook
  split at hlook
  · rename_i t' feed _
    cases hlook
    have hnext := LawfulTokenFeed.next_unread t feed
    have hadvance : (advance : Parser σ Unit).run
        ⟨s.current, TokenFeed.setMode .block (TokenFeed.setMode .literal
          (TokenFeed.unread t feed))⟩ = (.ok (), s'') := henter
    unfold advance at hadvance
    dsimp only at hadvance
    split at hadvance
    · rename_i h
      rw [h] at hnext
      cases hnext
      cases hadvance
      rfl
    · cases hadvance
  · cases hlook

end Parser

end Stencil
