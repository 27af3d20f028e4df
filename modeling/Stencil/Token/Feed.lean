import Stencil.Token.Cursor

/-! Sources of tokens that take tokens back. -/
namespace Stencil

/-- Gives tokens one by one in a changeable mode, and gives a returned token again first. -/
class TokenFeed (σ : Type) extends Sized σ where
  next : σ → Except LexError Token × σ
  unread : Token → σ → σ
  setMode : Mode → σ → σ
  size_next_le : ∀ s, size (next s).2 ≤ size s
  weight_add_size_next_le : ∀ {s t}, (next s).1 = .ok t → t.weight + size (next s).2 ≤ size s
  size_unread_le : ∀ t s, size (unread t s) ≤ t.weight + size s
  size_setMode_le : ∀ mode s, size (setMode mode s) ≤ size s

/-- A cursor behind the tokens that have been returned to it, the last one first. -/
structure Buffered where
  pending : List Token := []
  cursor : Cursor

namespace Buffered

def next (s : Buffered) : Except LexError Token × Buffered :=
  match s.pending with
  | t :: pending => (.ok t, { s with pending })
  | [] =>
    let (answer, cursor) := s.cursor.next
    (answer, { s with cursor })

def unread (t : Token) (s : Buffered) : Buffered := { s with pending := t :: s.pending }

def setMode (mode : Mode) (s : Buffered) : Buffered := { s with cursor := s.cursor.setMode mode }

def pendingSize : List Token → Nat
  | [] => 0
  | t :: ts => t.weight + pendingSize ts

instance : TokenFeed Buffered where
  size s := pendingSize s.pending + size s.cursor
  next := next
  unread := unread
  setMode := setMode
  size_next_le s := by
    unfold next
    split <;> rename_i h
    · simp only [h, pendingSize]; omega
    · simpa [h, pendingSize] using s.cursor.size_next_le
  weight_add_size_next_le {s t} ok := by
    unfold next at ok ⊢
    split <;> rename_i h <;> simp only [h] at ok
    · injection ok with ok; simp only [h, ok, pendingSize]; omega
    · simpa [h, pendingSize] using s.cursor.weight_add_size_next_le ok
  size_unread_le t s := by simp only [unread, pendingSize]; omega
  size_setMode_le mode s := Nat.le_refl _

end Buffered
end Stencil
