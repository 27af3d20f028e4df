import Stencil.Proofs.Document.Symbols
import Stencil.Proofs.Token.Coverage
import Stencil.Proofs.Token.Lexed

/-! What a cursor that switches itself gives of a text: the symbols of the lexemes that it cuts off,
one after the other, as long as the number of tokens allows it. -/
namespace Stencil

theorem wordKind_proper {limits : Limits} {line : Nat} {run : List Char} {k : TokenKind}
    (h : wordKind limits line run = .ok k) :
    k ≠ .openBlock ∧ k ≠ .closeBlock ∧ k ≠ .endOfFile := by
  unfold wordKind reserved? at h
  grind

/-- A longer bound on names lets no fewer words through, and lines only show in failures. -/
theorem wordKind_mono {limits limits' : Limits} {line : Nat} {run : List Char} {k : TokenKind}
    (hle : limits.identifierLength ≤ limits'.identifierLength)
    (h : wordKind limits line run = .ok k) (line' : Nat) : wordKind limits' line' run = .ok k := by
  unfold wordKind at h ⊢
  split at h
  · exact h
  · exact h
  · split at h
    · rename_i hdigits
      rw [if_pos hdigits]
      split at h
      · exact h
      · cases h
    · rename_i hdigits
      rw [if_neg hdigits]
      split at h
      · cases h
      · rename_i hlength
        rw [if_neg (Nat.not_lt.2 (Nat.le_trans (Nat.not_lt.1 hlength) hle))]
        exact h

/-- What a lexeme stands for on a line, or how it fails there. -/
def Lexeme.kind (limits : Limits) (mode : Mode) (line : Nat) : Lexeme → Except LexError TokenKind
  | .endOfFile => .ok .endOfFile
  | .newline => .ok .newline
  | .openBlock => .ok .openBlock
  | .closeBlock => .ok .closeBlock
  | .invalid c => .error (.unexpectedCharacter c line)
  | .run chars =>
    match mode with
    | .literal => .ok .text
    | .block => wordKind limits line chars

/-- A lexeme is given as a token of its text and of what it stands for. -/
structure Lexeme.GivenAs (limits : Limits) (mode : Mode) (x : Lexeme) (t : Token) : Prop where
  kind : ∀ line, x.kind limits mode line = .ok t.kind
  lexeme : t.lexeme = .ofList x.chars

/-- The symbol that a lexeme stands for in a mode, if it stands for one. -/
def Lexeme.symbol? (limits : Limits) (mode : Mode) : Lexeme → Option Symbol
  | .endOfFile => some ⟨.endOfFile, ""⟩
  | .newline => some ⟨.newline, ""⟩
  | .openBlock => some ⟨.openBlock, ""⟩
  | .closeBlock => some ⟨.closeBlock, ""⟩
  | .invalid _ => none
  | .run chars =>
    match mode with
    | .literal => some ⟨.text, .ofList chars⟩
    | .block =>
      match wordKind limits 0 chars with
      | .ok k => some ⟨k, if k = .text then .ofList chars else ""⟩
      | .error _ => none

namespace Lexeme

variable {limits limits' : Limits} {mode : Mode} {x : Lexeme} {y : Symbol} {run : List Char}
  {k : TokenKind} {t : Token} {line : Nat}

/-- Lines only show in failures. -/
theorem kind_line (h : x.kind limits mode line = .ok k) (line' : Nat) :
    x.kind limits mode line' = .ok k := by
  cases x with
  | run run =>
    cases mode with
    | literal => exact h
    | block => exact wordKind_mono (Nat.le_refl _) h line'
  | invalid c => cases h
  | _ => exact h

theorem GivenAs.symbol?_eq (h : x.GivenAs limits mode t) :
    x.symbol? limits mode = some t.symbol := by
  obtain ⟨hkind, hlexeme⟩ := h
  have hk := hkind 0
  obtain ⟨k, lexeme, line, column⟩ := t
  cases x with
  | invalid c => cases hk
  | run run =>
    dsimp only at hlexeme
    subst hlexeme
    cases mode with
    | literal =>
      cases hk
      rfl
    | block =>
      have hword : wordKind limits 0 run = .ok k := hk
      rw [symbol?, hword]
      rfl
  | _ =>
    cases hk
    rfl

/-- A lexeme that fails has no symbol. -/
theorem symbol?_eq_none {e : LexError} (h : x.kind limits mode line = .error e) :
    x.symbol? limits mode = none := by
  cases x with
  | invalid c => rfl
  | run run =>
    cases mode with
    | literal => cases h
    | block =>
      have hword : wordKind limits line run = .error e := h
      rw [symbol?]
      cases hk : wordKind limits 0 run with
      | error e => rfl
      | ok k =>
        rw [wordKind_mono (Nat.le_refl _) hk line] at hword
        cases hword
  | _ => cases h

theorem symbol?_mono (hle : limits.identifierLength ≤ limits'.identifierLength)
    (h : x.symbol? limits mode = some y) : x.symbol? limits' mode = some y := by
  cases x with
  | run run =>
    cases mode with
    | literal => exact h
    | block =>
      simp only [symbol?] at h ⊢
      split at h
      · rename_i k hk
        rw [wordKind_mono hle hk 0]
        exact h
      · cases h
  | _ => exact h

theorem eq_closeBlock_of_symbol? (h : x.symbol? limits mode = some ⟨.closeBlock, ""⟩) :
    x = .closeBlock := by
  cases x with
  | closeBlock => rfl
  | run run =>
    cases mode with
    | literal => cases h
    | block =>
      simp only [symbol?] at h
      split at h
      · rename_i k hk
        cases h
        exact absurd rfl (wordKind_proper hk).2.1
      · cases h
  | _ => cases h

theorem eq_endOfFile_of_symbol? (h : x.symbol? limits mode = some y) (hk : y.kind = .endOfFile) :
    x = .endOfFile := by
  cases x with
  | endOfFile => rfl
  | run run =>
    cases mode with
    | literal =>
      cases h
      cases hk
    | block =>
      simp only [symbol?] at h
      split at h
      · rename_i k hkind
        cases h
        exact absurd hk (wordKind_proper hkind).2.2
      · cases h
  | invalid c => cases h
  | _ =>
    cases h
    cases hk

end Lexeme

namespace Cursor

/-- Where a cursor stands, but for line and column. -/
structure At (limits : Limits) (mode : Mode) (given : Nat) (rest : List Char) (s : Cursor) :
    Prop where
  limits_eq : s.limits = limits
  mode_eq : s.mode = mode
  given_eq : s.given = given
  rest_eq : s.rest = rest

variable {s s' s'' : Cursor} {limits : Limits} {mode mode' mode'' : Mode} {given : Nat}
  {cs rest rest' : List Char} {x : Lexeme} {y : Symbol} {xs ys : List Symbol}

theorem skipSpaces_at (s : Cursor) :
    s.skipSpaces.At s.limits s.mode s.given (s.mode.skip s.rest) := by
  obtain ⟨_, _, _, _, mode, _⟩ := s
  cases mode <;> exact ⟨rfl, rfl, rfl, rfl⟩

theorem line_skipSpaces (s : Cursor) : s.skipSpaces.line = s.line := by
  obtain ⟨_, _, _, _, mode, _⟩ := s
  cases mode <;> rfl

/-- A cursor that gives the token of a lexeme counts it, and stands behind the lexeme then. -/
structure Moves (s : Cursor) (x : Lexeme) (rest : List Char) (s' : Cursor) : Prop where
  at_rest : x ≠ .endOfFile → s'.At s.limits s.mode (s.given + 1) rest
  given_eq : s'.given = s.given + 1
  line_eq : s'.line = s.line + if x = .newline then 1 else 0

/-- A step gives the lexeme in front of the cursor as a token, or fails as the lexeme does. -/
theorem step_cases (s : Cursor) (hcut : cutLexeme s.mode s.rest = (x, rest)) :
    (∃ t s', s.step = (.ok t, s') ∧ x.GivenAs s.limits s.mode t ∧ s.Moves x rest s') ∨
    ∃ e s', s.step = (.error e, s') ∧ x.kind s.limits s.mode s.line = .error e := by
  obtain ⟨limits, cs, line, column, mode, given⟩ := s
  unfold step
  rw [hcut]
  cases x with
  | invalid c => exact .inr ⟨_, _, rfl, rfl⟩
  | endOfFile =>
    exact .inl ⟨_, _, rfl, ⟨fun _ => rfl, rfl⟩, fun hproper => absurd rfl hproper, rfl, rfl⟩
  | run run =>
    have hrun : runKind ⟨limits, cs, line, column, mode, given⟩ run =
        (Lexeme.run run).kind limits mode line := by
      cases mode <;> rfl
    cases hkind : (Lexeme.run run).kind limits mode line with
    | ok k =>
      simp only [hrun, hkind]
      exact .inl ⟨_, _, rfl, ⟨Lexeme.kind_line hkind, rfl⟩, fun _ => ⟨rfl, rfl, rfl, rfl⟩, rfl, rfl⟩
    | error e =>
      simp only [hrun, hkind]
      exact .inr ⟨_, _, rfl, rfl⟩
  | _ => exact .inl ⟨_, _, rfl, ⟨fun _ => rfl, rfl⟩, fun _ => ⟨rfl, rfl, rfl, rfl⟩, rfl, rfl⟩

theorem next_cases (hgiven : s.given < s.limits.tokenCount)
    (hcut : cutLexeme s.mode (s.mode.skip s.rest) = (x, rest)) :
    (∃ t s', s.next = (.ok t, s') ∧ x.GivenAs s.limits s.mode t ∧ s.Moves x rest s') ∨
    ∃ e s', s.next = (.error e, s') ∧ x.kind s.limits s.mode s.line = .error e := by
  have hskip := s.skipSpaces_at
  rw [next, if_neg (Nat.not_le.2 hgiven)]
  rw [← hskip.rest_eq, ← hskip.mode_eq] at hcut
  rw [← hskip.mode_eq, ← hskip.limits_eq, ← s.line_skipSpaces]
  rcases s.skipSpaces.step_cases hcut with ⟨t, s', hstep, ht, hmoves⟩ | herror
  · refine .inl ⟨t, s', hstep, ht, ?_, ?_, ?_⟩
    · rw [← hskip.mode_eq, ← hskip.limits_eq, ← hskip.given_eq]
      exact hmoves.at_rest
    · rw [← hskip.given_eq]
      exact hmoves.given_eq
    · rw [← s.line_skipSpaces]
      exact hmoves.line_eq
  · exact .inr herror

/-- Where a lexeme stands for a symbol, the cursor gives it and moves behind the lexeme. -/
theorem next_of_cut (hat : s.At limits mode given cs) (hgiven : given < limits.tokenCount)
    (hcut : cutLexeme mode (mode.skip cs) = (x, rest)) (hx : x.symbol? limits mode = some y) :
    ∃ t s', s.next = (.ok t, s') ∧ t.symbol = y ∧
      (x ≠ .endOfFile → s'.At limits mode (given + 1) rest) := by
  obtain ⟨rfl, rfl, rfl, rfl⟩ := hat
  rcases next_cases hgiven hcut with ⟨t, s', hnext, ht, hmoves⟩ | ⟨e, s', -, herror⟩
  · rw [ht.symbol?_eq] at hx
    exact ⟨t, s', hnext, Option.some.inj hx, hmoves.at_rest⟩
  · rw [Lexeme.symbol?_eq_none herror] at hx
    cases hx

/-- A cursor that gives a token has cut it off as a lexeme. -/
theorem moves_of_next {t : Token} (h : s.next = (.ok t, s')) :
    ∃ x rest, cutLexeme s.mode (s.mode.skip s.rest) = (x, rest) ∧
      x.GivenAs s.limits s.mode t ∧ s.Moves x rest s' := by
  have hgiven : s.given < s.limits.tokenCount := by
    refine Nat.lt_of_not_le fun hfull => ?_
    rw [next, if_pos hfull] at h
    cases h
  rcases hcut : cutLexeme s.mode (s.mode.skip s.rest) with ⟨x, rest⟩
  rcases next_cases hgiven hcut with ⟨t', s'', hnext, ht, hmoves⟩ | ⟨e, s'', hnext, -⟩
  · rw [h] at hnext
    cases hnext
    exact ⟨x, rest, rfl, ht, hmoves⟩
  · rw [h] at hnext
    cases hnext

/-- A token that a cursor gives is the symbol of the lexeme in front of it. -/
theorem cut_of_next {t : Token} (h : s.next = (.ok t, s')) :
    ∃ x rest, cutLexeme s.mode (s.mode.skip s.rest) = (x, rest) ∧
      x.symbol? s.limits s.mode = some t.symbol ∧
      (x ≠ .endOfFile → s'.At s.limits s.mode (s.given + 1) rest) := by
  obtain ⟨x, rest, hcut, ht, hmoves⟩ := moves_of_next h
  exact ⟨x, rest, hcut, ht.symbol?_eq, hmoves.at_rest⟩

/-- Only where nothing is left but blanks is the end of the text given. -/
theorem kind_of_next_iff {t : Token} (h : s.next = (.ok t, s')) :
    t.kind = .endOfFile ↔ s.mode.skip s.rest = [] := by
  obtain ⟨x, rest, hcut, hx, -⟩ := cut_of_next h
  constructor
  · intro hend
    obtain rfl := x.eq_endOfFile_of_symbol? hx hend
    exact eq_nil_of_cutLexeme hcut
  · intro hnil
    rw [hnil] at hcut
    cases hcut
    rw [← Token.symbol_kind, ← Option.some.inj hx]

/-- A token other than the end of the text is the symbol of a lexeme that was cut off. -/
theorem cut_of_proper {t : Token} (h : s.next = (.ok t, s')) (hend : t.kind ≠ .endOfFile) :
    ∃ x, cutLexeme s.mode (s.mode.skip s.rest) = (x, s'.rest) ∧
      x.symbol? s.limits s.mode = some t.symbol ∧ s'.limits = s.limits ∧ s'.mode = s.mode := by
  obtain ⟨x, rest, hcut, hx, hs'⟩ := cut_of_next h
  have hproper : x ≠ .endOfFile := by
    rintro rfl
    exact hend ((kind_of_next_iff h).2 (eq_nil_of_cutLexeme hcut))
  obtain ⟨hlimits, hmode, -, rfl⟩ := hs' hproper
  exact ⟨x, hcut, hx, hlimits, hmode⟩

/-- A cursor gives symbols, none of which ends the text, and then what another one gives. -/
def Gives (s : Cursor) (xs : List Symbol) (s' : Cursor) : Prop :=
  ∃ tokens : List Token, tokens.map Token.symbol = xs ∧
    s.lex.tokens = tokens ++ s'.lex.tokens ∧ s.lex.last = s'.lex.last

theorem Gives.refl (s : Cursor) : s.Gives [] s :=
  ⟨[], rfl, rfl, rfl⟩

theorem Gives.trans (h : s.Gives xs s') (h' : s'.Gives ys s'') : s.Gives (xs ++ ys) s'' := by
  obtain ⟨tokens, rfl, htokens, hlast⟩ := h
  obtain ⟨tokens', rfl, htokens', hlast'⟩ := h'
  refine ⟨tokens ++ tokens', List.map_append, ?_, hlast.trans hlast'⟩
  rw [htokens, htokens', List.append_assoc]

theorem Gives.of_next {t : Token} (h : s.next = (.ok t, s')) (hend : t.kind ≠ .endOfFile) :
    s.Gives [t.symbol] (s'.switch t) := by
  refine ⟨[t], rfl, ?_, ?_⟩
  · rw [lex_of_ok h hend]
    rfl
  · rw [lex_of_ok h hend]
    rfl

end Cursor

/-- A cursor in front of the text `cs`, with room for more tokens, gives the symbols `xs`, and then
stands in front of the text `rest`. -/
def Reads (limits : Limits) (mode : Mode) (cs : List Char) (xs : List Symbol) (mode' : Mode)
    (rest : List Char) : Prop :=
  ∀ ⦃s : Cursor⦄ ⦃given : Nat⦄, s.At limits mode given cs → given + xs.length ≤ limits.tokenCount →
    ∃ s' : Cursor, s.Gives xs s' ∧ s'.At limits mode' (given + xs.length) rest

namespace Reads

variable {limits : Limits} {mode mode' mode'' : Mode} {cs rest rest' : List Char} {x : Lexeme}
  {y : Symbol} {xs ys : List Symbol}

theorem nil : Reads limits mode cs [] mode cs :=
  fun s _ hat _ => ⟨s, .refl s, hat⟩

theorem trans (h : Reads limits mode cs xs mode' rest)
    (h' : Reads limits mode' rest ys mode'' rest') :
    Reads limits mode cs (xs ++ ys) mode'' rest' := by
  intro s given hat hgiven
  rw [List.length_append] at hgiven
  obtain ⟨s₁, hgives, h₁⟩ := h hat (by omega)
  obtain ⟨s₂, hgives', h₂⟩ := h' h₁ (by omega)
  refine ⟨s₂, hgives.trans hgives', ?_⟩
  rw [List.length_append, ← Nat.add_assoc]
  exact h₂

theorem of_cut (hcut : cutLexeme mode (mode.skip cs) = (x, rest))
    (hx : x.symbol? limits mode = some y) (hend : y.kind ≠ .endOfFile) :
    Reads limits mode cs [y] (mode.after y.kind) rest := by
  intro s given hat hgiven
  obtain ⟨t, s', hnext, rfl, hs'⟩ := Cursor.next_of_cut hat hgiven hcut hx
  have hproper : x ≠ .endOfFile := by
    rintro rfl
    have hsymbol : ⟨.endOfFile, ""⟩ = t.symbol := Option.some.inj hx
    exact hend (by rw [← hsymbol])
  obtain ⟨hlimits, hmode, hgiven', hrest⟩ := hs' hproper
  refine ⟨_, .of_next hnext hend, hlimits, ?_, hgiven', hrest⟩
  rw [Cursor.switch, hmode]
  rfl

theorem newline : Reads limits .literal ('\n' :: rest) [⟨.newline, ""⟩] .literal rest :=
  of_cut (x := .newline) rfl rfl (by simp)

/-- Literal text is one token up to a line end or a block. -/
theorem literal {text : List Char} (hne : text ≠ [])
    (htext : ∀ c ∈ text, Mode.literal.continues c = true) (hplain : Undelimited text)
    (hrest : EndsBefore text rest) :
    Reads limits .literal (text ++ rest) [⟨.text, .ofList text⟩] .literal rest :=
  of_cut (x := .run text)
    (cutLexeme_run hne htext (hplain.append_take_one hrest.apart) hrest.stops) rfl (by simp)

end Reads

namespace Cursor

variable {s : Cursor} {limits : Limits}

theorem ofSource_ok_iff {source : String} :
    ofSource limits source = .ok s ↔ source.utf8ByteSize ≤ limits.inputSize ∧
      s = { limits, rest := joinLineEnds [] source.toList } := by
  rw [ofSource]
  split
  · rename_i hsize
    simp [Nat.not_le.2 hsize]
  · rename_i hsize
    simp [Nat.not_lt.1 hsize, eq_comm]

end Cursor

/-- A text that is read to its end once its line ends are joined gives these tokens and the end of
the text. -/
theorem tokensAhead_of_joined_reads {limits : Limits} {source : String} {xs : List Symbol}
    (hsize : source.utf8ByteSize ≤ limits.inputSize)
    (hreads : Reads limits .literal (joinLineEnds [] source.toList) xs .literal [])
    (hcount : xs.length < limits.tokenCount) :
    ∃ tokens, tokensAhead limits source = .ok tokens ∧
      tokens.map Token.symbol = xs ++ [⟨.endOfFile, ""⟩] := by
  have hcursor : Cursor.ofSource limits source =
      .ok { limits, rest := joinLineEnds [] source.toList } :=
    Cursor.ofSource_ok_iff.2 ⟨hsize, rfl⟩
  have hstart : Cursor.At limits .literal 0 (joinLineEnds [] source.toList)
      { limits, rest := joinLineEnds [] source.toList } := ⟨rfl, rfl, rfl, rfl⟩
  obtain ⟨s, ⟨tokens, rfl, htokens, hlast⟩, hs⟩ := hreads hstart (by omega)
  have hcut : cutLexeme .literal (Mode.literal.skip []) = (.endOfFile, []) := rfl
  obtain ⟨t, s', hnext, hsymbol, -⟩ := Cursor.next_of_cut hs (by omega) hcut rfl
  have hend : t.kind = .endOfFile := by rw [← Token.symbol_kind, hsymbol]
  obtain ⟨hnone, hlast'⟩ := Cursor.lex_of_end hnext hend
  refine ⟨tokens ++ [t], tokensAhead_eq_ok.2 ⟨_, t, hcursor, hlast.trans hlast', ?_⟩, ?_⟩
  · rw [htokens, hnone, List.append_nil]
  · rw [List.map_append, List.map_singleton, hsymbol]

theorem tokensAhead_of_reads {limits : Limits} {source : String} {xs : List Symbol}
    (hsize : source.utf8ByteSize ≤ limits.inputSize) (hjoined : Apart '\r' '\n' source.toList)
    (hreads : Reads limits .literal source.toList xs .literal [])
    (hcount : xs.length < limits.tokenCount) :
    ∃ tokens, tokensAhead limits source = .ok tokens ∧
      tokens.map Token.symbol = xs ++ [⟨.endOfFile, ""⟩] :=
  tokensAhead_of_joined_reads hsize (by rwa [joinLineEnds_of_apart hjoined]) hcount

end Stencil
