import Stencil.Proofs.Except
import Stencil.Token.Feed

/-! All tokens of a text cut in advance, by a cursor that switches its mode at doubled braces. -/
namespace Stencil

def Mode.after (mode : Mode) : TokenKind → Mode
  | .openBlock => .block
  | .closeBlock => .literal
  | _ => mode

/-- The cursor in the mode that holds behind a token. -/
def Cursor.switch (t : Token) (s : Cursor) : Cursor := s.setMode (s.mode.after t.kind)

/-- The tokens before the last, and the last or the failure in its place, given for ever. -/
structure Lexed where
  tokens : List Token := []
  last : Except LexError Token
  last_weight : ∀ t, last = .ok t → t.weight = 0

namespace Lexed

def next (l : Lexed) : Except LexError Token × Lexed :=
  match l.tokens with
  | t :: tokens => (.ok t, { l with tokens })
  | [] => (l.last, l)

def unread (t : Token) (l : Lexed) : Lexed := { l with tokens := t :: l.tokens }

theorem pendingSize_next_le (l : Lexed) :
    Buffered.pendingSize l.next.2.tokens ≤ Buffered.pendingSize l.tokens := by
  unfold next
  split <;> rename_i h
  · simp only [h, Buffered.pendingSize]; omega
  · exact Nat.le_refl _

/-- A token that was given is not pending any more. -/
theorem weight_add_pendingSize_next_le {l : Lexed} {t : Token} (ok : l.next.1 = .ok t) :
    t.weight + Buffered.pendingSize l.next.2.tokens ≤ Buffered.pendingSize l.tokens := by
  unfold next at ok ⊢
  split <;> rename_i h <;> simp only [h] at ok
  · cases ok; simp only [h, Buffered.pendingSize]; omega
  · exact Nat.le_of_eq (by rw [l.last_weight t ok, Nat.zero_add])

instance : TokenFeed Lexed where
  size l := Buffered.pendingSize l.tokens
  next := next
  unread := unread
  setMode _ l := l
  size_next_le := pendingSize_next_le
  weight_add_size_next_le := weight_add_pendingSize_next_le
  size_unread_le _ _ := Nat.le_refl _
  size_setMode_le _ _ := Nat.le_refl _

theorem kind_of_last {l : Lexed} {t : Token} (h : l.last = .ok t) : t.kind = .endOfFile := by
  have hweight := l.last_weight t h
  unfold Token.weight at hweight
  split at hweight
  · assumption
  · cases hweight

theorem next_of_nil {l : Lexed} (h : l.tokens = []) : l.next = (l.last, l) := by
  unfold next
  split
  · rename_i h'
    cases h.symm.trans h'
  · rfl

/-- What the feed gives, in order. -/
def answers (l : Lexed) : List (Except LexError Token) := l.tokens.map .ok ++ [l.last]

end Lexed

/-- All that a cursor gives if it is switched right behind every doubled brace. -/
def Cursor.lex (s : Cursor) : Lexed :=
  match _h : s.next with
  | (.error e, _) => { last := .error e, last_weight := by simp }
  | (.ok t, s') =>
    if hend : t.kind = .endOfFile then
      { last := .ok t, last_weight := by intro t' h; cases h; simp [Token.weight, hend] }
    else (lex (s'.switch t)).unread t
termination_by size s
decreasing_by
  have := s.weight_add_size_next_le (t := t) (by rw [_h])
  rw [_h] at this
  simp only [Token.weight, hend, if_false] at this
  exact Nat.lt_of_lt_of_le (Nat.lt_add_of_pos_left Nat.one_pos) this

namespace Cursor

variable {s s' : Cursor}

theorem lex_of_error {e : LexError} (h : s.next = (.error e, s')) :
    s.lex.tokens = [] ∧ s.lex.last = .error e := by
  rw [lex]
  split <;> rename_i h' <;> rw [h] at h' <;> cases h'
  exact ⟨rfl, rfl⟩

theorem lex_of_end {t : Token} (h : s.next = (.ok t, s')) (hend : t.kind = .endOfFile) :
    s.lex.tokens = [] ∧ s.lex.last = .ok t := by
  rw [lex]
  split <;> rename_i h' <;> rw [h] at h' <;> cases h'
  rw [dif_pos hend]
  exact ⟨rfl, rfl⟩

theorem lex_of_ok {t : Token} (h : s.next = (.ok t, s')) (hend : t.kind ≠ .endOfFile) :
    s.lex = (s'.switch t).lex.unread t := by
  rw [lex]
  split <;> rename_i h' <;> rw [h] at h' <;> cases h'
  rw [dif_neg hend]

theorem next_of_lex_cons {t : Token} {tokens : List Token} (h : s.lex.tokens = t :: tokens) :
    ∃ s', s.next = (.ok t, s') ∧ t.kind ≠ .endOfFile ∧ (s'.switch t).lex.tokens = tokens ∧
      (s'.switch t).lex.last = s.lex.last := by
  rcases hnext : s.next with ⟨e | t', s'⟩
  · rw [(lex_of_error hnext).1] at h
    cases h
  · by_cases hend : t'.kind = .endOfFile
    · rw [(lex_of_end hnext hend).1] at h
      cases h
    · rw [lex_of_ok hnext hend] at h ⊢
      cases h
      exact ⟨s', rfl, hend, rfl, rfl⟩

theorem next_of_lex_nil {last : Token} (h : s.lex.tokens = []) (hlast : s.lex.last = .ok last) :
    ∃ s', s.next = (.ok last, s') := by
  rcases hnext : s.next with ⟨e | t, s'⟩
  · rw [(lex_of_error hnext).2] at hlast
    cases hlast
  · by_cases hend : t.kind = .endOfFile
    · rw [(lex_of_end hnext hend).2] at hlast
      cases hlast
      exact ⟨s', rfl⟩
    · rw [lex_of_ok hnext hend] at h
      cases h

/-- The end of the text is the last token and no other. -/
theorem kind_of_mem_lex {s : Cursor} {t : Token} (h : t ∈ s.lex.tokens) : t.kind ≠ .endOfFile := by
  rcases hnext : s.next with ⟨e | t', s'⟩
  · rw [(lex_of_error hnext).1] at h
    cases h
  · by_cases hend : t'.kind = .endOfFile
    · rw [(lex_of_end hnext hend).1] at h
      cases h
    · rw [lex_of_ok hnext hend] at h
      rcases List.mem_cons.1 h with rfl | h
      · exact hend
      · have hless := s.weight_add_size_next_le (by rw [hnext])
        rw [hnext, Token.weight, if_neg hend] at hless
        have hlt : size (s'.switch t') < size s :=
          Nat.lt_of_lt_of_le (Nat.lt_add_of_pos_left Nat.one_pos) hless
        exact kind_of_mem_lex h
termination_by size s

@[simp] theorem setMode_setMode (mode mode' : Mode) (s : Cursor) :
    (s.setMode mode).setMode mode' = s.setMode mode' := rfl

theorem setMode_mode (s : Cursor) : s.setMode s.mode = s := rfl

theorem switch_of_plain {t : Token} (ho : t.kind ≠ .openBlock) (hc : t.kind ≠ .closeBlock)
    (s : Cursor) : s.switch t = s := by
  unfold switch Mode.after
  split
  · contradiction
  · contradiction
  · exact setMode_mode s

theorem mode_step (s : Cursor) : s.step.2.mode = s.mode := by
  unfold step
  split <;> try rfl
  split <;> rfl

theorem mode_next (s : Cursor) : s.next.2.mode = s.mode := by
  unfold next
  split
  · rfl
  · rw [mode_step]
    unfold skipSpaces
    split <;> rfl

theorem limits_skipSpaces (s : Cursor) : s.skipSpaces.limits = s.limits := by
  obtain ⟨_, _, _, _, mode, _⟩ := s
  cases mode <;> rfl

theorem limits_step (s : Cursor) : s.step.2.limits = s.limits := by
  unfold step
  split <;> try rfl
  split <;> rfl

theorem limits_next (s : Cursor) : s.next.2.limits = s.limits := by
  unfold next
  split
  · rfl
  · rw [limits_step, limits_skipSpaces]

end Cursor

/-- All tokens of a source, if its cursor is switched right behind every doubled brace. -/
def tokensAhead (limits : Limits) (source : String) : Except LexError (List Token) := do
  let cursor ← Cursor.ofSource limits source
  let last ← cursor.lex.last
  return cursor.lex.tokens ++ [last]

theorem tokensAhead_eq_ok {limits : Limits} {source : String} {tokens : List Token} :
    tokensAhead limits source = .ok tokens ↔ ∃ cursor last,
      Cursor.ofSource limits source = .ok cursor ∧ cursor.lex.last = .ok last ∧
        tokens = cursor.lex.tokens ++ [last] := by
  unfold tokensAhead
  constructor
  · intro h
    obtain ⟨cursor, hcursor, h⟩ := Except.bind_eq_ok.1 h
    obtain ⟨last, hlast, h⟩ := Except.bind_eq_ok.1 h
    cases h
    exact ⟨cursor, last, hcursor, hlast, rfl⟩
  · rintro ⟨cursor, last, hcursor, hlast, rfl⟩
    exact Except.bind_eq_ok.2 ⟨cursor, hcursor, Except.bind_eq_ok.2 ⟨last, hlast, rfl⟩⟩

end Stencil
