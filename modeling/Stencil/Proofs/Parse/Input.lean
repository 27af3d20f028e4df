import Stencil.Proofs.Document.Symbols
import Stencil.Proofs.Parse.Basic
import Stencil.Proofs.Token.Lexed

/-! What the reader has in front of it when all tokens were cut in advance: the tokens through the
end of the text, and their symbols. -/
namespace Stencil

/-- Tokens through the first end of the text. -/
def tokensThroughEnd : List Token → List Token
  | [] => []
  | t :: tokens => t :: if t.kind = .endOfFile then [] else tokensThroughEnd tokens

/-- The symbols of tokens through the first end of the text. -/
def symbolsThroughEnd : List Token → List Symbol
  | [] => []
  | t :: tokens => t.symbol :: if t.kind = .endOfFile then [] else symbolsThroughEnd tokens

theorem map_symbol_tokensThroughEnd (tokens : List Token) :
    (tokensThroughEnd tokens).map Token.symbol = symbolsThroughEnd tokens := by
  induction tokens with
  | nil => rfl
  | cons t tokens ih =>
    rw [tokensThroughEnd, symbolsThroughEnd, List.map_cons]
    split
    · rfl
    · rw [ih]

theorem tokensThroughEnd_append {tokens more : List Token} (h : ∀ t ∈ tokens, t.kind ≠ .endOfFile) :
    tokensThroughEnd (tokens ++ more) = tokens ++ tokensThroughEnd more := by
  induction tokens with
  | nil => rfl
  | cons t tokens ih =>
    rw [List.forall_mem_cons] at h
    rw [List.cons_append, tokensThroughEnd, if_neg h.1, ih h.2, List.cons_append]

instance : LawfulTokenFeed Lexed := ⟨fun _ _ => rfl⟩

namespace Lexed

/-- All tokens that the feed gives before it fails. -/
def proper (l : Lexed) : List Token :=
  l.tokens ++ match l.last with
    | .ok t => [t]
    | .error _ => []

theorem tokens_of_next {l l' : Lexed} {t : Token} (h : l.next = (.ok t, l')) :
    tokensThroughEnd l.proper = tokensThroughEnd (t :: l'.proper) := by
  obtain ⟨tokens, last, hlast⟩ := l
  cases tokens with
  | cons t' tokens =>
    cases h
    rfl
  | nil =>
    cases last with
    | error e => cases h
    | ok t' =>
      cases h
      -- the last token is given again and again, and nothing counts behind the first time
      have hend : t.kind = .endOfFile := kind_of_last (l := ⟨[], .ok t, hlast⟩) rfl
      simp only [proper, List.nil_append, tokensThroughEnd, hend, if_true]

theorem symbols_of_next {l l' : Lexed} {t : Token} (h : l.next = (.ok t, l')) :
    symbolsThroughEnd l.proper = symbolsThroughEnd (t :: l'.proper) := by
  rw [← map_symbol_tokensThroughEnd, ← map_symbol_tokensThroughEnd, tokens_of_next h]

theorem next_of_symbols {l : Lexed} {y : Symbol} {rest : List Symbol}
    (h : symbolsThroughEnd l.proper = y :: rest) : ∃ t l', l.next = (.ok t, l') := by
  obtain ⟨tokens, last, hlast⟩ := l
  cases tokens with
  | cons t tokens => exact ⟨t, _, rfl⟩
  | nil =>
    cases last with
    | error e => cases h
    | ok t => exact ⟨t, _, rfl⟩

end Lexed

/-- The end of the text comes last, so that all tokens count. -/
theorem Cursor.tokensThroughEnd_lex (s : Cursor) : tokensThroughEnd s.lex.proper = s.lex.proper := by
  rw [Lexed.proper, tokensThroughEnd_append fun _ ht => kind_of_mem_lex ht]
  cases s.lex.last with
  | error e => rfl
  | ok last =>
    dsimp only
    rw [tokensThroughEnd, tokensThroughEnd, ite_self]

namespace ParseState

/-- The symbol in view and those after it. -/
def input (s : ParseState Lexed) : List Symbol := symbolsThroughEnd (s.current :: s.feed.proper)

/-- The token in view and those after it. -/
def tokens (s : ParseState Lexed) : List Token := tokensThroughEnd (s.current :: s.feed.proper)

theorem map_symbol_tokens (s : ParseState Lexed) : s.tokens.map Token.symbol = s.input :=
  map_symbol_tokensThroughEnd _

variable {s : ParseState Lexed} {x y : Symbol} {rest : List Symbol}

theorem tokens_eq_cons (s : ParseState Lexed) : ∃ tokens, s.tokens = s.current :: tokens :=
  ⟨_, rfl⟩

theorem tokens_of_next {t t' : Token} {l l' : Lexed} (hk : t.kind ≠ .endOfFile)
    (hnext : l.next = (.ok t', l')) : tokens ⟨t, l⟩ = t :: tokens ⟨t', l'⟩ := by
  rw [tokens, tokensThroughEnd, if_neg hk, Lexed.tokens_of_next hnext, tokens]

theorem input_eq_cons (s : ParseState Lexed) : ∃ xs, s.input = s.current.symbol :: xs :=
  ⟨_, rfl⟩

theorem symbol_of_input (h : s.input = x :: rest) : s.current.symbol = x :=
  (List.cons.inj h).1

theorem kind_of_input (h : s.input = x :: rest) : s.current.kind = x.kind := by
  rw [← symbol_of_input h, Token.symbol_kind]

theorem input_of_proper (hk : s.current.kind ≠ .endOfFile) :
    s.input = s.current.symbol :: symbolsThroughEnd s.feed.proper := by
  rw [input, symbolsThroughEnd, if_neg hk]

theorem input_of_end (hk : s.current.kind = .endOfFile) : s.input = [⟨.endOfFile, ""⟩] := by
  rw [input, symbolsThroughEnd, if_pos hk, Token.symbol_of_kind hk (by simp)]

/-- Only the end of the text has nothing behind it. -/
theorem kind_ne_of_input (h : s.input = x :: y :: rest) : s.current.kind ≠ .endOfFile := by
  intro hend
  rw [input, symbolsThroughEnd, if_pos hend] at h
  cases h

end ParseState

namespace Parser

variable {s s' : ParseState Lexed} {x y : Symbol} {rest : List Symbol}

theorem advance_tokens (hk : s.current.kind ≠ .endOfFile)
    (h : (advance : Parser Lexed Unit).run s = (.ok (), s')) :
    s.tokens = s.current :: s'.tokens := by
  unfold advance at h
  dsimp only at h
  split at h
  · rename_i t l hnext
    cases h
    exact ParseState.tokens_of_next hk hnext
  · cases h

theorem advance_sound (hk : s.current.kind ≠ .endOfFile)
    (h : (advance : Parser Lexed Unit).run s = (.ok (), s')) :
    s.input = s.current.symbol :: s'.input := by
  rw [← s.map_symbol_tokens, advance_tokens hk h, List.map_cons, s'.map_symbol_tokens]

theorem advance_complete (h : s.input = x :: rest) (hrest : rest ≠ []) :
    ∃ s', (advance : Parser Lexed Unit).run s = (.ok (), s') ∧ s'.input = rest := by
  obtain ⟨y, rest, rfl⟩ := List.exists_cons_of_ne_nil hrest
  have hk := ParseState.kind_ne_of_input h
  have hbehind := ParseState.input_of_proper hk
  rw [h] at hbehind
  obtain ⟨t, l, hnext⟩ := Lexed.next_of_symbols (List.cons.inj hbehind).2.symm
  have hnext' : TokenFeed.next s.feed = (.ok t, l) := hnext
  have hrun : (advance : Parser Lexed Unit).run s = (.ok (), ⟨t, l⟩) := by
    unfold advance
    dsimp only
    rw [hnext']
  refine ⟨_, hrun, ?_⟩
  rw [advance_sound hk hrun] at h
  exact (List.cons.inj h).2

theorem advance_kind_sound {k : TokenKind} (hk : s.current.kind = k)
    (hproper : k ≠ .endOfFile ∧ k ≠ .text)
    (h : (advance : Parser Lexed Unit).run s = (.ok (), s')) : s.input = ⟨k, ""⟩ :: s'.input := by
  rw [← Token.symbol_of_kind hk hproper.2]
  exact advance_sound (by rw [hk]; exact hproper.1) h

theorem advance_text_sound (hk : s.current.kind = .text)
    (h : (advance : Parser Lexed Unit).run s = (.ok (), s')) :
    s.input = ⟨.text, s.current.lexeme⟩ :: s'.input := by
  rw [← Token.symbol_of_text hk]
  exact advance_sound (by rw [hk]; simp) h

theorem expect_sound {k : TokenKind} {t : Token} (hk : k ≠ .endOfFile)
    (h : (expect k : Parser Lexed Token).run s = (.ok t, s')) :
    t.kind = k ∧ s.input = t.symbol :: s'.input := by
  simp only [expect, requireKind, Reader.run_bind_eq_ok, run_require_eq_ok, run_current] at h
  obtain ⟨_, _, ⟨hkind, rfl⟩, _, _, hcurrent, _, s₁, hadvance, h⟩ := h
  cases hcurrent
  cases h
  rw [beq_iff_eq] at hkind
  exact ⟨hkind, advance_sound (by rw [hkind]; exact hk) hadvance⟩

theorem expect_complete (h : s.input = x :: rest) (hrest : rest ≠ []) :
    ∃ t s', (expect x.kind : Parser Lexed Token).run s = (.ok t, s') ∧ t.symbol = x ∧
      s'.input = rest := by
  obtain ⟨s', hadvance, hinput⟩ := advance_complete h hrest
  have hk := ParseState.kind_of_input h
  refine ⟨s.current, s', ?_, ParseState.symbol_of_input h, hinput⟩
  unfold expect requireKind
  rw [Reader.run_bind_ok (run_require_ok (by simpa using hk)), Reader.run_bind_ok (run_current s),
    Reader.run_bind_ok hadvance]
  rfl

/-- The mode is nothing to a feed of tokens that were cut in advance. -/
theorem run_enterBlock (s : ParseState Lexed) :
    (enterBlock : Parser Lexed Unit).run s = (advance : Parser Lexed Unit).run s := rfl

theorem closeBlock_sound (h : (closeBlock : Parser Lexed Unit).run s = (.ok (), s')) :
    s.input = ⟨.closeBlock, ""⟩ :: s'.input := by
  unfold closeBlock requireKind at h
  rw [Reader.run_bind_eq_ok] at h
  obtain ⟨_, _, hkind, h⟩ := h
  obtain ⟨hk, rfl⟩ := run_require_eq_ok.1 hkind
  exact advance_kind_sound (beq_iff_eq.1 hk) (by simp) h

theorem closeBlock_complete (h : s.input = ⟨.closeBlock, ""⟩ :: rest) (hrest : rest ≠ []) :
    ∃ s', (closeBlock : Parser Lexed Unit).run s = (.ok (), s') ∧ s'.input = rest := by
  obtain ⟨s', hadvance, hinput⟩ := advance_complete h hrest
  have hk := ParseState.kind_of_input h
  refine ⟨s', ?_, hinput⟩
  unfold closeBlock requireKind
  rw [Reader.run_bind_ok (run_require_ok (by simpa using hk))]
  exact hadvance

/-- A look ahead leaves the tokens as they are, and answers with the one behind the token in view. -/
theorem lookahead_tokens {t : Token} (hk : s.current.kind ≠ .endOfFile)
    (h : (lookahead : Parser Lexed Token).run s = (.ok t, s')) :
    s'.tokens = s.tokens ∧ ∃ tokens, s.tokens = s.current :: t :: tokens := by
  unfold lookahead at h
  dsimp only at h
  split at h
  · rename_i t' l hnext
    cases h
    have htokens : s.tokens = s.current :: ParseState.tokens ⟨t, l⟩ :=
      ParseState.tokens_of_next hk hnext
    have hsame : ParseState.tokens ⟨s.current, l.unread t⟩ =
        s.current :: ParseState.tokens ⟨t, l⟩ := ParseState.tokens_of_next hk rfl
    exact ⟨hsame.trans htokens.symm, _, htokens⟩
  · cases h

theorem lookahead_sound {t : Token} (hk : s.current.kind ≠ .endOfFile)
    (h : (lookahead : Parser Lexed Token).run s = (.ok t, s')) :
    s'.input = s.input ∧ ∃ xs, s.input = s.current.symbol :: t.symbol :: xs := by
  obtain ⟨hsame, tokens, htokens⟩ := lookahead_tokens hk h
  rw [← s.map_symbol_tokens, ← s'.map_symbol_tokens, hsame, htokens]
  exact ⟨rfl, _, rfl⟩

theorem lookahead_complete (h : s.input = x :: y :: rest) :
    ∃ t s', (lookahead : Parser Lexed Token).run s = (.ok t, s') ∧ t.symbol = y ∧
      s'.input = s.input := by
  have hk := ParseState.kind_ne_of_input h
  have hbehind := ParseState.input_of_proper hk
  rw [h] at hbehind
  obtain ⟨t, l, hnext⟩ := Lexed.next_of_symbols (List.cons.inj hbehind).2.symm
  have hnext' : TokenFeed.next (TokenFeed.setMode .block s.feed) = (.ok t, l) := hnext
  have hrun : (lookahead : Parser Lexed Token).run s = (.ok t, ⟨s.current, l.unread t⟩) := by
    unfold lookahead
    dsimp only
    rw [hnext']
    rfl
  obtain ⟨hinput, xs, hxs⟩ := lookahead_sound hk hrun
  rw [h] at hxs
  exact ⟨t, _, hrun, (List.cons.inj (List.cons.inj hxs).2).1.symm, hinput⟩

end Parser
end Stencil
