import Stencil.Proofs.Parse.Ahead
import Stencil.Proofs.Parse.Document

/-! Parsing against the grammar. A source is a template exactly if the tokens that doubled braces
ask for are the symbols of a canonical tree, and that tree is the only result. -/
namespace Stencil

theorem Cursor.lex_symbols {s : Cursor} {d : Document} :
    symbolsThroughEnd s.lex.proper = d.symbols ↔
      ∃ last, s.lex.last = .ok last ∧ d.symbols = (s.lex.tokens ++ [last]).map Token.symbol := by
  rw [← map_symbol_tokensThroughEnd, s.tokensThroughEnd_lex, Lexed.proper]
  cases s.lex.last with
  | error e =>
    rw [List.append_nil]
    constructor
    · intro h
      have hend := end_mem_linesSymbols d.lines
      rw [← Document.symbols, ← h] at hend
      obtain ⟨t, ht, hsymbol⟩ := List.mem_map.1 hend
      have hkind : t.kind = .endOfFile := by rw [← Token.symbol_kind, hsymbol]
      exact absurd hkind (kind_of_mem_lex ht)
    · rintro ⟨_, hne, -⟩
      cases hne
  | ok last =>
    constructor
    · intro h
      exact ⟨last, rfl, h.symm⟩
    · rintro ⟨_, heq, h⟩
      cases heq
      exact h.symm

theorem parseFeed_lexed_ok_iff {depth : Nat} {l : Lexed} {d : Document} :
    parseFeed depth l = .ok d ↔
      d.Shaped (·.Within 2 depth) ∧ symbolsThroughEnd l.proper = d.symbols := by
  unfold parseFeed
  split
  · rename_i t l' hnext
    rw [Parser.document_ok_iff, Lexed.symbols_of_next hnext, ParseState.input]
  · rename_i e l' hnext
    constructor
    · intro h
      cases h
    · rintro ⟨-, hsymbols⟩
      have hend := end_mem_linesSymbols d.lines
      rw [← Document.symbols, ← hsymbols] at hend
      obtain ⟨y, rest, hcons⟩ := List.exists_cons_of_ne_nil (List.ne_nil_of_mem hend)
      obtain ⟨t, l'', hok⟩ := Lexed.next_of_symbols hcons
      cases hnext.symm.trans hok

theorem parse_eq_lexed {limits : Limits} {source : String} {cursor : Cursor}
    (h : Cursor.ofSource limits source = .ok cursor) :
    parse limits source = parseFeed limits.expressionDepth cursor.lex := by
  rw [← parseRecorded_result, (parseRecorded_ahead limits source).1, parseAhead, h]

/-- Parsing succeeds exactly on the symbols of canonical trees that fit into the depth. -/
theorem parse_ok_iff_within {limits : Limits} {source : String} {d : Document} :
    parse limits source = .ok d ↔ ∃ tokens, tokensAhead limits source = .ok tokens ∧
      d.Shaped (·.Within 2 limits.expressionDepth) ∧ d.symbols = tokens.map Token.symbol := by
  constructor
  · intro h
    cases hcursor : Cursor.ofSource limits source with
    | error e =>
      rw [parse, hcursor] at h
      cases h
    | ok cursor =>
      rw [parse_eq_lexed hcursor, parseFeed_lexed_ok_iff, Cursor.lex_symbols] at h
      obtain ⟨hshaped, last, hlast, hsymbols⟩ := h
      exact ⟨_, tokensAhead_eq_ok.2 ⟨cursor, last, hcursor, hlast, rfl⟩, hshaped, hsymbols⟩
  · rintro ⟨tokens, htokens, hshaped, hsymbols⟩
    obtain ⟨cursor, last, hcursor, hlast, rfl⟩ := tokensAhead_eq_ok.1 htokens
    rw [parse_eq_lexed hcursor, parseFeed_lexed_ok_iff, Cursor.lex_symbols]
    exact ⟨hshaped, last, hlast, hsymbols⟩

theorem Document.Canonical.within_of_need {d : Document} (h : d.Canonical) {depth : Nat}
    (hneed : Expr.argumentNeed d.exprs < depth) : d.Shaped (·.Within 2 depth) := by
  obtain ⟨depth, rfl⟩ := Nat.exists_eq_add_one.2 (Nat.zero_lt_of_lt hneed)
  refine Document.Shaped.of_exprs h fun e he => ?_
  exact ⟨Document.Shaped.exprs h e he, e.rank_le_two, Expr.argumentNeed_lt_iff.1 hneed e he⟩

/-- Every tree of the grammar fits into some depth. -/
theorem Document.Canonical.within {d : Document} (h : d.Canonical) (depth : Nat) :
    ∃ depth', depth ≤ depth' ∧ d.Shaped (·.Within 2 depth') :=
  ⟨max depth (Expr.argumentNeed d.exprs + 1), Nat.le_max_left _ _,
    h.within_of_need (Nat.le_max_right _ _)⟩

theorem Document.Shaped.canonical {d : Document} {depth : Nat}
    (h : d.Shaped (·.Within 2 depth)) : d.Canonical :=
  h.of_exprs fun e he => (h.exprs e he).canonical

section Depth

variable {σ : Type} [TokenFeed σ]

/-- Reading one feed within two bounds on depth, of which the first may be too small. -/
def narrowed (σ : Type) (limit : Nat) : Comparison σ σ where
  Rel _ f g := f = g
  Stop _ _ := True
  Cut e := ∃ t, e = .syntactic ⟨.tooDeep limit, t⟩

theorem narrowed_answer {σ : Type} (limit : Nat) {Next : Token → σ → σ → Prop}
    (h : ∀ t f, Next t f f) (r : Except LexError Token × σ) :
    (narrowed σ limit).Answer Next r r := by
  obtain ⟨e | t, f⟩ := r
  · exact .error trivial
  · exact .ok (h t f)

def narrowedSimulation (limit : Nat) : Simulation σ σ where
  toComparison := narrowed σ limit
  stop _ := trivial
  advance := by
    rintro _ _ _ rfl -
    exact narrowed_answer limit (fun _ _ => rfl) _
  enter := by
    rintro _ _ _ rfl -
    exact narrowed_answer limit (fun _ _ => rfl) _
  leave := by
    rintro _ _ _ rfl -
    exact narrowed_answer limit (fun _ _ => rfl) _
  lookahead := by
    rintro _ _ _ rfl -
    refine narrowed_answer limit (fun _ _ => ?_) _
    rfl

/-- A smaller bound on depth either cuts the reading short or does not matter. -/
theorem parseFeed_narrowed [LawfulTokenFeed σ] {depth depth' : Nat} (h : depth ≤ depth')
    (feed : σ) :
    parseFeed depth feed = parseFeed depth' feed ∨
      ∃ t, parseFeed depth feed = .error (.syntactic ⟨.tooDeep depth, t⟩) := by
  have hbudget : (narrowedSimulation depth : Simulation σ σ).Budget depth depth depth' depth' :=
    .inr ⟨h, fun t => ⟨t, rfl⟩⟩
  have hanswer : (narrowed σ depth).Answer (narrowed σ depth).Rel (TokenFeed.next feed)
      (TokenFeed.next feed) := narrowed_answer depth (fun _ _ => rfl) _
  rcases Simulation.parseFeed_agree hbudget hanswer with ⟨e, herror, t, rfl⟩ | hsame
  · exact .inr ⟨t, herror⟩
  · exact .inl hsame.symm

end Depth

/-- Parsing succeeds exactly on the symbols of canonical trees, unless the bound on depth cuts it
short. Bounds on the text show in its tokens. -/
theorem parse_ok_iff_canonical {limits : Limits} {source : String}
    (h : ∀ t, parse limits source ≠ .error (.syntactic ⟨.tooDeep limits.expressionDepth, t⟩))
    (d : Document) :
    parse limits source = .ok d ↔ ∃ tokens, tokensAhead limits source = .ok tokens ∧
      d.Canonical ∧ d.symbols = tokens.map Token.symbol := by
  constructor
  · intro hok
    obtain ⟨tokens, htokens, hshaped, hsymbols⟩ := parse_ok_iff_within.1 hok
    exact ⟨tokens, htokens, hshaped.canonical, hsymbols⟩
  · rintro ⟨tokens, htokens, hcanonical, hsymbols⟩
    obtain ⟨depth, hle, hshaped⟩ := hcanonical.within limits.expressionDepth
    obtain ⟨cursor, last, hcursor, hlast, rfl⟩ := tokensAhead_eq_ok.1 htokens
    rw [parse_eq_lexed hcursor] at h ⊢
    have hwide : parseFeed depth cursor.lex = .ok d :=
      parseFeed_lexed_ok_iff.2 ⟨hshaped, Cursor.lex_symbols.2 ⟨last, hlast, hsymbols⟩⟩
    rcases parseFeed_narrowed hle cursor.lex with heq | ⟨t, hdeep⟩
    · rw [heq, hwide]
    · exact absurd hdeep (h t)

/-- A loop over one block, in which parentheses go against the ranks. -/
def loopSource : String :=
  "\x7b\x7b foreach x in xs \x7d\x7d\n\x7b\x7b (x + 1) * 2 \x7d\x7d\n\x7b\x7b endforeach \x7d\x7d"

def loopTemplate : Document :=
  ⟨[[.loop "x" "xs" [[.block (.binary .multiply
    (.group (.binary .add (.slot "x") (.number (.int 1)))) (.number (.int 2)))]]]]⟩

theorem loopSource_ok_iff :
    (∀ t, parse {} loopSource ≠ .error (.syntactic ⟨.tooDeep 256, t⟩)) ∧
      parse {} loopSource = .ok loopTemplate ∧
      ∃ tokens, tokensAhead {} loopSource = .ok tokens ∧ loopTemplate.Canonical ∧
        loopTemplate.symbols = tokens.map Token.symbol := by
  have hparse : parse {} loopSource = .ok loopTemplate := by with_unfolding_all rfl
  have hroom : ∀ t, parse {} loopSource ≠ .error (.syntactic ⟨.tooDeep 256, t⟩) := by
    intro t h
    rw [hparse] at h
    cases h
  exact ⟨hroom, hparse, (parse_ok_iff_canonical hroom loopTemplate).1 hparse⟩

end Stencil
