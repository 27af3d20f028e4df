import Stencil.Proofs.Parse.Grammar
import Stencil.Proofs.Parse.Limits
import Stencil.Proofs.Token.Cut

/-! What a bound on the number of tokens lets through. Every token is counted once, when it is cut,
and the end of the text counts, too; a token that the reader returns and asks for again does not. -/
namespace Stencil

/-- How many line ends are among some tokens. -/
def lineEnds (tokens : List Token) : Nat := (tokens.map Token.kind).count .newline

theorem lineEnds_cons (t : Token) (tokens : List Token) :
    lineEnds (t :: tokens) = (if t.kind = .newline then 1 else 0) + lineEnds tokens := by
  rw [lineEnds, List.map_cons, List.count_cons, Nat.add_comm]
  simp [lineEnds]

namespace Cursor

variable {s s' : Cursor} {t last : Token} {m : Nat}

/-- The same cursor within another bound on the number of tokens. -/
def counted (m : Nat) (s : Cursor) : Cursor := s.within { s.limits with tokenCount := m }

theorem counted_switch (t : Token) (s : Cursor) :
    (s.switch t).counted m = (s.counted m).switch t := rfl

theorem step_counted (m : Nat) (s : Cursor) :
    (s.counted m).step = (s.step.1, s.step.2.counted m) := by
  have hlimits : s.step.2.counted m = s.step.2.within { s.limits with tokenCount := m } := by
    rw [counted, limits_step]
  rw [hlimits]
  refine step_within_of_runKind fun run _ _ => ?_
  obtain ⟨limits, cs, line, column, mode, given⟩ := s
  cases mode <;> rfl

/-- A bound on the number of tokens matters only once it is reached. -/
theorem next_counted (hgiven : s.given < m) (h : s.next = (.ok t, s')) :
    (s.counted m).next = (.ok t, s'.counted m) := by
  have hroom : ¬ (s.counted m).limits.tokenCount ≤ (s.counted m).given := Nat.not_le.2 hgiven
  have hskip : (s.counted m).skipSpaces = s.skipSpaces.counted m := by
    rw [counted, skipSpaces_within, counted, limits_skipSpaces]
  have hstep : s.skipSpaces.step = (.ok t, s') := by
    unfold next at h
    split at h
    · cases h
    · exact h
  rw [next, if_neg hroom, hskip, step_counted, hstep]

theorem next_counted_of_le (h : m ≤ s.given) :
    (s.counted m).next.1 = .error (.tooManyTokens m s.line) := by
  have hfull : (s.counted m).limits.tokenCount ≤ (s.counted m).given := h
  rw [next, if_pos hfull]
  rfl

/-- Only a line end is given as one. -/
theorem kind_newline_iff {limits : Limits} {mode : Mode} {x : Lexeme}
    (h : x.GivenAs limits mode t) : t.kind = .newline ↔ x = .newline := by
  have hkind := h.kind 0
  cases x with
  | newline => exact iff_of_true (Except.ok.inj hkind).symm rfl
  | run run =>
    refine iff_of_false (fun hline => ?_) (by simp)
    rw [hline] at hkind
    cases mode with
    | literal => cases hkind
    | block => exact wordKind_ne_newline hkind
  | _ =>
    refine iff_of_false (fun hline => ?_) (by simp)
    rw [hline] at hkind
    cases hkind

/-- Every token counts, and every line end starts a line. -/
theorem next_given (h : s.next = (.ok t, s')) :
    s'.given = s.given + 1 ∧ s'.line = s.line + if t.kind = .newline then 1 else 0 := by
  obtain ⟨x, rest, -, ht, hmoves⟩ := moves_of_next h
  simp only [kind_newline_iff ht]
  exact ⟨hmoves.given_eq, hmoves.line_eq⟩

/-- Where there is room for all tokens, a bound on their number does not matter. -/
theorem lex_counted (hlast : s.lex.last = .ok last) (hroom : s.given + s.lex.tokens.length < m) :
    (s.counted m).lex.tokens = s.lex.tokens ∧ (s.counted m).lex.last = .ok last := by
  generalize htokens : s.lex.tokens = tokens at hroom
  induction tokens generalizing s with
  | nil =>
    obtain ⟨s', hnext⟩ := next_of_lex_nil htokens hlast
    exact lex_of_end (next_counted hroom hnext) (Lexed.kind_of_last hlast)
  | cons t tokens ih =>
    obtain ⟨s', hnext, hend, htokens', hlast'⟩ := next_of_lex_cons htokens
    obtain ⟨hgiven, -⟩ := next_given hnext
    rw [List.length_cons] at hroom
    have hroom' : (s'.switch t).given + tokens.length < m := by
      change s'.given + tokens.length < m
      omega
    have hnext' := next_counted (m := m) (by omega) hnext
    obtain ⟨hrest, hrestLast⟩ := ih (hlast'.trans hlast) htokens' hroom'
    rw [lex_of_ok hnext' hend, ← counted_switch]
    exact ⟨congrArg (t :: ·) hrest, hrestLast⟩

theorem lex_counted_full (h : m ≤ s.given) :
    (s.counted m).lex.tokens = [] ∧ (s.counted m).lex.last = .error (.tooManyTokens m s.line) := by
  rcases hnext : (s.counted m).next with ⟨answer, s'⟩
  have herror := next_counted_of_le h
  rw [hnext] at herror
  subst herror
  exact lex_of_error hnext

/-- Where there is no room for all tokens, as many are cut as there is room for, and the failure tells
the line behind them. -/
theorem lex_counted_of_le (hlast : s.lex.last = .ok last)
    (hfull : m ≤ s.given + s.lex.tokens.length) :
    (s.counted m).lex.tokens = s.lex.tokens.take (m - s.given) ∧
      (s.counted m).lex.last = .error (.tooManyTokens m
        (s.line + lineEnds (s.lex.tokens.take (m - s.given)))) := by
  generalize htokens : s.lex.tokens = tokens at hfull ⊢
  induction tokens generalizing s with
  | nil =>
    rw [List.take_nil]
    exact lex_counted_full hfull
  | cons t tokens ih =>
    by_cases hgiven : m ≤ s.given
    · rw [Nat.sub_eq_zero_of_le hgiven]
      exact lex_counted_full hgiven
    · obtain ⟨s', hnext, hend, htokens', hlast'⟩ := next_of_lex_cons htokens
      obtain ⟨hgiven', hline⟩ := next_given hnext
      have hswitch : (s'.switch t).given = s.given + 1 := hgiven'
      have hroom : m - s.given = m - (s'.switch t).given + 1 := by omega
      have hfull' : m ≤ (s'.switch t).given + tokens.length := by
        rw [List.length_cons] at hfull
        omega
      obtain ⟨hrest, hrestLast⟩ := ih (hlast'.trans hlast) htokens' hfull'
      have hnext' := next_counted (Nat.not_le.1 hgiven) hnext
      have hlines : (s'.switch t).line + lineEnds (tokens.take (m - (s'.switch t).given)) =
          s.line + lineEnds (t :: tokens.take (m - (s'.switch t).given)) := by
        rw [lineEnds_cons, ← Nat.add_assoc]
        exact congrArg (· + _) hline
      rw [lex_of_ok hnext' hend, ← counted_switch, hroom, List.take_succ_cons, ← hlines]
      exact ⟨congrArg (t :: ·) hrest, hrestLast⟩

end Cursor

/-- A feed and one with more tokens, up to the failure that the first one ends with. -/
def shortened (failure : LexError) : Comparison Lexed Lexed where
  Rel _ f g := f.last = .error failure ∧ f.tokens <+: g.tokens
  Stop _ _ := True
  Cut e := e = .lexical failure

theorem shortened_answer {failure : LexError} {f g : Lexed} (hlast : f.last = .error failure)
    (hinitial : f.tokens <+: g.tokens) {Next : Token → Lexed → Lexed → Prop}
    (h : ∀ (t : Token) (f' g' : Lexed), f'.last = .error failure → f'.tokens <+: g'.tokens →
      Next t f' g') :
    (shortened failure).Answer Next (TokenFeed.next f) (TokenFeed.next g) := by
  obtain ⟨tokens, last, hweight⟩ := f
  obtain ⟨tokens', last', hweight'⟩ := g
  cases tokens with
  | nil =>
    have hnext : TokenFeed.next (⟨[], last, hweight⟩ : Lexed) =
        (.error failure, ⟨[], last, hweight⟩) := congrArg (·, _) hlast
    rw [hnext]
    exact .cut rfl
  | cons t tokens =>
    obtain ⟨more, rfl⟩ := hinitial
    exact .ok (h t ⟨tokens, last, hweight⟩ ⟨tokens ++ more, last', hweight'⟩ hlast
      (List.prefix_append tokens more))

def shortenedSimulation (failure : LexError) : Simulation Lexed Lexed where
  toComparison := shortened failure
  stop _ := trivial
  advance h _ := shortened_answer h.1 h.2 fun _ _ _ hlast hinitial => ⟨hlast, hinitial⟩
  enter h _ := shortened_answer h.1 h.2 fun _ _ _ hlast hinitial => ⟨hlast, hinitial⟩
  leave h _ := shortened_answer h.1 h.2 fun _ _ _ hlast hinitial => ⟨hlast, hinitial⟩
  lookahead h _ := shortened_answer h.1 h.2 fun t _ _ hlast hinitial =>
    ⟨hlast, (List.prefix_cons_inj t).2 hinitial⟩

/-- Tokens that end with a failure are read up to it, or like any tokens that go on. -/
theorem parseFeed_shortened {failure : LexError} {f g : Lexed} (hlast : f.last = .error failure)
    (hinitial : f.tokens <+: g.tokens) (depth : Nat) :
    parseFeed depth f = .error (.lexical failure) ∨ parseFeed depth g = parseFeed depth f := by
  have hanswer : (shortened failure).Answer (shortened failure).Rel (TokenFeed.next f)
      (TokenFeed.next g) :=
    shortened_answer hlast hinitial fun _ _ _ hlast' hinitial' => ⟨hlast', hinitial'⟩
  have hbudget : (shortenedSimulation failure).Budget depth depth depth depth := .refl depth depth
  rcases Simulation.parseFeed_agree hbudget hanswer with ⟨e, herror, rfl⟩ | hsame
  · exact .inl herror
  · exact .inr hsame

section TokenCount

variable {limits : Limits} {source : String} {d : Document} {cursor : Cursor} {last : Token}
  {m : Nat}

theorem Cursor.ofSource_counted (h : Cursor.ofSource limits source = .ok cursor) (m : Nat) :
    Cursor.ofSource { limits with tokenCount := m } source = .ok (cursor.counted m) ∧
      cursor.given = 0 ∧ cursor.line = 1 := by
  obtain ⟨hsize, rfl⟩ := Cursor.ofSource_ok_iff.1 h
  exact ⟨Cursor.ofSource_ok_iff.2 ⟨hsize, rfl⟩, rfl, rfl⟩

theorem parse_of_room (h : parse limits source = .ok d)
    (hcursor : Cursor.ofSource limits source = .ok cursor) (hlast : cursor.lex.last = .ok last)
    (hroom : cursor.lex.tokens.length < m) :
    parse { limits with tokenCount := m } source = .ok d := by
  obtain ⟨hcounted, hgiven, -⟩ := Cursor.ofSource_counted hcursor m
  obtain ⟨htokens, hlast'⟩ := cursor.lex_counted (m := m) hlast (by omega)
  have hahead : tokensAhead { limits with tokenCount := m } source =
      .ok (cursor.lex.tokens ++ [last]) :=
    tokensAhead_eq_ok.2 ⟨_, last, hcounted, hlast', by rw [htokens]⟩
  have hahead₀ : tokensAhead limits source = .ok (cursor.lex.tokens ++ [last]) :=
    tokensAhead_eq_ok.2 ⟨_, last, hcursor, hlast, rfl⟩
  obtain ⟨tokens, htokens₀, hshaped, hsymbols⟩ := parse_ok_iff_within.1 h
  rw [hahead₀] at htokens₀
  cases htokens₀
  exact parse_ok_iff_within.2 ⟨_, hahead, hshaped, hsymbols⟩

/-- What is read has been cut to its end. -/
theorem exists_last_of_parse (h : parse limits source = .ok d)
    (hcursor : Cursor.ofSource limits source = .ok cursor) : ∃ last, cursor.lex.last = .ok last := by
  obtain ⟨_, hall, -⟩ := parse_ok_iff_within.1 h
  obtain ⟨cursor', last, hcursor', hlast, -⟩ := tokensAhead_eq_ok.1 hall
  rw [hcursor] at hcursor'
  cases hcursor'
  exact ⟨last, hlast⟩

theorem parse_of_full (h : parse limits source = .ok d)
    (hcursor : Cursor.ofSource limits source = .ok cursor) (hlast : cursor.lex.last = .ok last)
    (hfull : m ≤ cursor.lex.tokens.length) :
    parse { limits with tokenCount := m } source =
      .error (.lexical (.tooManyTokens m (1 + lineEnds (cursor.lex.tokens.take m)))) := by
  obtain ⟨hcounted, hgiven, hline⟩ := Cursor.ofSource_counted hcursor m
  obtain ⟨htokens, hfailure⟩ := cursor.lex_counted_of_le (m := m) hlast (by omega)
  rw [hgiven, Nat.sub_zero] at htokens hfailure
  rw [hline] at hfailure
  have hinitial : (cursor.counted m).lex.tokens <+: cursor.lex.tokens :=
    htokens ▸ List.take_prefix m cursor.lex.tokens
  rcases parseFeed_shortened hfailure hinitial limits.expressionDepth with herror | hsame
  · rw [parse_eq_lexed hcounted]
    exact herror
  · -- a reading that is not cut short would have seen the end of the text
    have hread : parse { limits with tokenCount := m } source = .ok d := by
      rw [parse_eq_lexed hcounted, ← h, parse_eq_lexed hcursor]
      exact hsame.symm
    obtain ⟨last', hend⟩ := exists_last_of_parse hread hcounted
    rw [hfailure] at hend
    cases hend

end TokenCount

/-- A template is read within a bound that all of its tokens keep to, and is cut short at the bound
within any other. -/
theorem parse_tokenCount {limits : Limits} {source : String} {d : Document}
    (h : parse limits source = .ok d) :
    ∃ tokens, tokensAhead limits source = .ok tokens ∧ ∀ m,
      parse { limits with tokenCount := m } source =
        if tokens.length ≤ m then .ok d
        else .error (.lexical (.tooManyTokens m (1 + lineEnds (tokens.take m)))) := by
  obtain ⟨tokens, htokens, -⟩ := parse_ok_iff_within.1 h
  refine ⟨tokens, htokens, fun m => ?_⟩
  obtain ⟨cursor, last, hcursor, hlast, rfl⟩ := tokensAhead_eq_ok.1 htokens
  rw [List.length_append, List.length_singleton]
  split
  · rename_i hroom
    exact parse_of_room h hcursor hlast hroom
  · rename_i hover
    have hfull : m ≤ cursor.lex.tokens.length := Nat.le_of_lt_succ (Nat.not_le.1 hover)
    rw [List.take_append_of_le_length hfull]
    exact parse_of_full h hcursor hlast hfull

/-- One line inside a loop, before and behind which the reader looks ahead, in three lines of 21
tokens: all of them are enough, and one less is not. -/
theorem loopSource_parse_tokenCount : parse {} loopSource = .ok loopTemplate ∧
    parse { tokenCount := 21 } loopSource = .ok loopTemplate ∧
    parse { tokenCount := 20 } loopSource = .error (.lexical (.tooManyTokens 20 3)) ∧
    parse { tokenCount := 8 } loopSource = .error (.lexical (.tooManyTokens 8 2)) := by
  have hparse : parse {} loopSource = .ok loopTemplate := by with_unfolding_all rfl
  obtain ⟨tokens, htokens, hcount⟩ := parse_tokenCount hparse
  have hkinds : (tokensAhead {} loopSource).map (List.map Token.kind) = .ok
      [.openBlock, .foreachWord, .text, .inWord, .text, .closeBlock, .newline,
        .openBlock, .leftParen, .text, .plus, .number (.int 1), .rightParen, .star,
        .number (.int 2), .closeBlock, .newline, .openBlock, .endforeachWord, .closeBlock,
        .endOfFile] := by with_unfolding_all rfl
  rw [htokens] at hkinds
  have hall := Except.ok.inj hkinds
  have hlength : tokens.length = 21 := by
    rw [← List.length_map Token.kind, hall]
    rfl
  refine ⟨hparse, ?_, ?_, ?_⟩
  · exact (hcount 21).trans (if_pos (by omega))
  · refine (hcount 20).trans ((if_neg (by omega)).trans ?_)
    rw [lineEnds, List.map_take, hall]
    rfl
  · refine (hcount 8).trans ((if_neg (by omega)).trans ?_)
    rw [lineEnds, List.map_take, hall]
    rfl

end Stencil
