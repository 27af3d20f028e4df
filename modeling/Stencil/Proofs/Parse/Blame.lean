import Stencil.Proofs.Parse.Viable

/-! Syntax errors against the text. The token that an error tells is the first with which the source
cannot be gone on: all that stands in front of it can be completed to a template. -/
namespace Stencil

open Limits
open String (utf8Len)

namespace Cursor

variable {s : Cursor} {t : Token} {front back : List Token}

/-- Any token of a text is what a cursor behind those before it gives. -/
theorem exists_next_of_proper (h : s.lex.proper = front ++ t :: back) :
    ∃ s' s'' : Cursor, Cuts s.limits s.mode s.rest (front.map Token.symbol) s'.mode s'.rest ∧
      s'.next = (.ok t, s'') ∧
      ∀ text passed, s.Behind text passed → ∃ passed', s'.Behind text passed' := by
  have hcases : (∃ more, s.lex.tokens = front ++ t :: more) ∨
      s.lex.tokens = front ++ [] ∧ s.lex.last = .ok t := by
    unfold Lexed.proper at h
    cases hlast : s.lex.last with
    | error e =>
      rw [hlast, List.append_nil] at h
      exact .inl ⟨back, h⟩
    | ok last =>
      rw [hlast] at h
      rcases List.eq_nil_or_concat' back with rfl | ⟨more, t', rfl⟩
      · obtain ⟨hfront, htoken⟩ := List.append_inj' h rfl
        cases htoken
        exact .inr ⟨by rw [hfront, List.append_nil], rfl⟩
      · rw [← List.cons_append, ← List.append_assoc] at h
        exact .inl ⟨more, List.append_inj_left' h rfl⟩
  rcases hcases with ⟨more, htokens⟩ | ⟨htokens, hlast⟩
  · obtain ⟨s', hcuts, htokens', -, hbehind⟩ := exists_cuts_of_lex htokens
    obtain ⟨s'', hnext, -⟩ := next_of_lex_cons htokens'
    exact ⟨s', s'', hcuts, hnext, hbehind⟩
  · obtain ⟨s', hcuts, htokens', hlast', hbehind⟩ := exists_cuts_of_lex htokens
    obtain ⟨s'', hnext⟩ := next_of_lex_nil htokens' (hlast'.trans hlast)
    exact ⟨s', s'', hcuts, hnext, hbehind⟩

end Cursor

/-- Blanks inside a block are nothing in front of what follows. -/
theorem Cuts.blanks {limits : Limits} {mode : Mode} {blanks cs : List Char} {xs : List Symbol}
    (hblanks : ∀ c ∈ blanks, isSpace c = true) (hmode : blanks ≠ [] → mode = .block)
    (hhalts : mode.HaltsAt cs) (h : Cuts limits mode cs xs .literal []) :
    mode.HaltsAt (blanks ++ cs) ∧ Cuts limits mode (blanks ++ cs) xs .literal [] := by
  cases blanks with
  | nil => exact ⟨hhalts, h⟩
  | cons c blanks =>
    obtain rfl := hmode (by simp)
    constructor
    · refine .cons (Bool.eq_false_iff.2 fun hgoes => ?_)
      rw [Mode.continues, Bool.and_eq_true] at hgoes
      have hspace : isSpace c = true := hblanks c (List.mem_cons_self ..)
      rw [isSpace_eq_false_of_isGraphic hgoes.1] at hspace
      cases hspace
    · cases h with
      | cons hcut hx hend h =>
        refine .cons ?_ hx hend h
        rwa [Mode.skip, List.dropWhile_append_of_pos hblanks]

section Error

variable {limits : Limits} {source : String} {e : SyntaxError}

/-- What the reader tells of its failures holds of the tokens of the source. -/
theorem exists_tells_of_parse_error {E : SyntaxError → Prop}
    {V : SyntaxError.Cause → List Symbol → Prop} (h : parse limits source = .error (.syntactic e))
    (he : E e) (hV : ∀ s, Parser.Tells E s (Parser.document limits.expressionDepth) s V) :
    ∃ cursor front back, Cursor.ofSource limits source = .ok cursor ∧
      cursor.lex.proper = front ++ e.found :: back ∧ V e.cause (front.map Token.symbol) := by
  cases hcursor : Cursor.ofSource limits source with
  | error e' =>
    rw [parse, hcursor] at h
    cases h
  | ok cursor =>
    rw [parse_eq_lexed hcursor, parseFeed] at h
    split at h
    · rename_i t l hnext
      generalize hrun : (Parser.document limits.expressionDepth).run ⟨t, l⟩ = run at h
      obtain ⟨result, s'⟩ := run
      cases h
      obtain ⟨front, back, htokens, hfront⟩ := hV _ e s' hrun he
      refine ⟨cursor, front, back, rfl, ?_, hfront⟩
      rw [← htokens, ← cursor.tokensThroughEnd_lex, Lexed.tokens_of_next hnext, ParseState.tokens]
    · cases h

/-- The tokens in front of the one that an error tells begin a template. -/
theorem exists_begun_of_parse_error (h : parse limits source = .error (.syntactic e))
    (hcause : ∀ limit, e.cause ≠ .tooDeep limit) : ∃ cursor front back,
      Cursor.ofSource limits source = .ok cursor ∧ cursor.lex.proper = front ++ e.found :: back ∧
        TemplateBegun (front.map Token.symbol) :=
  exists_tells_of_parse_error h hcause (Parser.document_blames _)

/-- All tokens that a feed gives before it fails are among its answers, in order. -/
theorem Lexed.answers_proper (l : Lexed) : ∃ more, l.answers = l.proper.map .ok ++ more := by
  unfold answers proper
  cases l.last with
  | error e => exact ⟨[.error e], by rw [List.append_nil]⟩
  | ok last => exact ⟨[], by rw [List.append_nil, List.map_append, List.map_singleton]⟩

/-- A template that is begun by the symbols in front of a place in a text is begun by the text. -/
theorem exists_isTemplate_of_begun {passed blanks rest : List Char} {mode : Mode} {xs : List Symbol}
    (hcuts : Cuts limits .literal (passed ++ rest) xs mode rest)
    (hblanks : ∀ c ∈ blanks, isSpace c = true) (hmode : blanks ≠ [] → mode = .block)
    (hbegun : TemplateBegun xs) :
    ∃ w d, IsTemplate (.ofList (passed ++ blanks ++ w)) d := by
  obtain ⟨ys, hwhole, w, limits', hhalts, hrest⟩ := hbegun
  rw [← hcuts.mode_eq] at hhalts hrest
  obtain ⟨hhalts', hrest'⟩ := Cuts.blanks hblanks hmode hhalts hrest
  have hfront : Cuts limits .literal (passed ++ (blanks ++ w)) xs mode (blanks ++ w) :=
    hcuts.retarget hhalts'
  have hcut : IsCut (passed ++ (blanks ++ w)) (xs ++ ys) :=
    ⟨limits.sup limits', (hfront.mono (Nat.le_max_left _ _)).append
      (hrest'.mono (Nat.le_max_right _ _))⟩
  rw [← List.append_assoc] at hcut
  exact ⟨w, hwhole.exists_isTemplate hcut⟩

/-- A syntax error that is not about depth tells a token and its place, and all that stands in front
of it can be completed to a template. -/
theorem parse_error_viable (h : parse limits source = .error (.syntactic e))
    (hcause : ∀ limit, e.cause ≠ .tooDeep limit) :
    .ok e.found ∈ scannedAhead limits source ∧
      let text := joinLineEnds [] source.toList
      ∃ front back, text = front ++ e.found.lexeme.toList ++ back ∧
        byteAt? text e.found.line e.found.column = some (utf8Len front) ∧
        ∀ part, part <+: front → ∃ w d, Ample fun limits' =>
          parse limits' (.ofList part ++ w) = .ok d := by
  obtain ⟨cursor, front, back, hcursor, hproper, hbegun⟩ := exists_begun_of_parse_error h hcause
  obtain ⟨s', s'', hcuts, hnext, hbehind⟩ := Cursor.exists_next_of_proper hproper
  constructor
  · have hmem : e.found ∈ cursor.lex.proper := by
      rw [hproper]
      exact List.mem_append_right _ (List.mem_cons_self ..)
    obtain ⟨more, hmore⟩ := cursor.lex.answers_proper
    rw [scannedAhead, hcursor]
    change .ok e.found ∈ cursor.lex.answers
    rw [hmore]
    exact List.mem_append_left more (List.mem_map_of_mem hmem)
  · intro text
    obtain ⟨-, rfl⟩ := Cursor.ofSource_ok_iff.1 hcursor
    obtain ⟨passed, hpassed⟩ := hbehind text [] ⟨rfl, rfl, byteAt?_start _⟩
    obtain ⟨part, hcovers, -⟩ := hpassed.next
    have htoken : Cursor.Call.token? ⟨s'.mode, s'.next.1, s'.next.2.rest⟩ = some e.found := by
      rw [Cursor.Call.token?_eq_some, hnext]
    obtain ⟨hplace, hlexeme, -⟩ := hcovers.token htoken
    have htext : text = passed ++ part.blanks ++ e.found.lexeme.toList ++ s'.next.2.rest := by
      rw [← hlexeme, List.append_assoc passed, ← Cursor.Part.chars]
      exact hcovers.text_eq
    have hcut : Cuts limits .literal (passed ++ s'.rest) (front.map Token.symbol) s'.mode s'.rest := by
      rw [← hpassed.text_eq]
      exact hcuts
    refine ⟨passed ++ part.blanks, _, htext, hplace, ?_⟩
    obtain ⟨w, d, hd⟩ := exists_isTemplate_of_begun hcut hcovers.blanks hcovers.mode hbegun
    rintro beginning ⟨more, hmore⟩
    rw [← hmore, List.append_assoc, String.ofList_append] at hd
    exact ⟨_, d, (ample_parse_iff _).imp fun limits hlimits => (hlimits d).2 hd⟩

/-- A call of an unknown function, in parentheses that are open inside a loop that is, too. -/
def unknownCallSource : String :=
  "\x7b\x7b foreach x in xs \x7d\x7d\r\n\x7b\x7b (q(x) \x7d\x7d"

theorem unknownCallSource_parse_error_viable :
    parse {} unknownCallSource =
        .error (.syntactic ⟨.unknownFunction "q", ⟨.text, "q", 2, 5⟩⟩) ∧
      (∀ limit, SyntaxError.Cause.unknownFunction "q" ≠ .tooDeep limit) ∧
      ∃ w d, Ample fun limits =>
        parse limits ("\x7b\x7b foreach x in xs \x7d\x7d\n\x7b\x7b (" ++ w) = .ok d := by
  have hparse : parse {} unknownCallSource =
      .error (.syntactic ⟨.unknownFunction "q", ⟨.text, "q", 2, 5⟩⟩) := by with_unfolding_all rfl
  have hcause : ∀ limit, SyntaxError.Cause.unknownFunction "q" ≠ .tooDeep limit := by simp
  refine ⟨hparse, hcause, ?_⟩
  obtain ⟨-, front, back, htext, -, hcompletes⟩ := parse_error_viable hparse hcause
  -- the name is the only `q` of the text
  have hplace : ∀ n < 40, (joinLineEnds [] unknownCallSource.toList)[n]? = some 'q' → n = 26 := by
    decide
  have hq : (joinLineEnds [] unknownCallSource.toList)[front.length]? = some 'q' := by
    rw [htext]
    simp
  have hlength : front.length < 40 := by
    have hsum := congrArg List.length htext
    have hall : (joinLineEnds [] unknownCallSource.toList).length = 33 := by decide
    simp only [List.length_append] at hsum
    omega
  have hfront : front = (joinLineEnds [] unknownCallSource.toList).take 26 := by
    rw [← hplace _ hlength hq, htext, List.append_assoc, List.take_left]
  have hbeginning : String.ofList front = "\x7b\x7b foreach x in xs \x7d\x7d\n\x7b\x7b (" := by
    rw [hfront]
    rfl
  rw [← hbeginning]
  exact hcompletes front (List.prefix_refl front)

end Error

end Stencil
