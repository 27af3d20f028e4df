import Stencil.Proofs.Parse.Grammar
import Stencil.Proofs.Parse.Limits
import Stencil.Proofs.Token.Cut

/-! Parsing against the text. A source is a template within some limits exactly if its text is cut to
its end into the symbols of a canonical tree, and then it is that template in all larger limits. -/
namespace Stencil

open Limits

/-- Kinds that stand inside a block. -/
def TokenKind.Inner (k : TokenKind) : Prop :=
  k ≠ .openBlock ∧ k ≠ .closeBlock ∧ k ≠ .newline ∧ k ≠ .endOfFile

/-- Kinds that stand inside an expression. -/
def TokenKind.InExpression (k : TokenKind) : Prop :=
  k.Inner ∧ k ≠ .foreachWord ∧ k ≠ .endforeachWord

theorem Operator.kind_inExpression (op : Operator) : op.kind.InExpression := by
  cases op <;> simp [kind, TokenKind.InExpression, TokenKind.Inner]

namespace Expr

mutual

theorem symbols_inExpression : ∀ e : Expr, ∀ x ∈ e.symbols, x.kind.InExpression
  | slot name => by simp [symbols, TokenKind.InExpression, TokenKind.Inner]
  | number value => by simp [symbols, TokenKind.InExpression, TokenKind.Inner]
  | group inner => by
    have hinner := symbols_inExpression inner
    simpa [symbols, TokenKind.InExpression, TokenKind.Inner, or_imp, forall_and] using hinner
  | binary op lhs rhs => by
    have hlhs := symbols_inExpression lhs
    have hrhs := symbols_inExpression rhs
    rw [symbols, List.forall_mem_append, List.forall_mem_cons]
    exact ⟨hlhs, op.kind_inExpression, hrhs⟩
  | call f args => by
    have hargs := argumentSymbols_inExpression args
    simpa [symbols, TokenKind.InExpression, TokenKind.Inner, or_imp, forall_and] using hargs

theorem argumentSymbols_inExpression :
    ∀ args : List Expr, ∀ x ∈ argumentSymbols args, x.kind.InExpression
  | [] => by simp [argumentSymbols]
  | arg :: args => by
    have harg := symbols_inExpression arg
    have hargs := argumentSymbols_inExpression args
    rw [argumentSymbols, List.forall_mem_append]
    refine ⟨harg, ?_⟩
    split
    · simp
    · exact List.forall_mem_cons.2 ⟨by simp [TokenKind.InExpression, TokenKind.Inner], hargs⟩

end

theorem symbols_inner (e : Expr) : ∀ x ∈ e.symbols, x.kind.Inner :=
  fun x hx => (e.symbols_inExpression x hx).1

theorem argumentSymbols_inner (args : List Expr) : ∀ x ∈ argumentSymbols args, x.kind.Inner :=
  fun x hx => (argumentSymbols_inExpression args x hx).1

end Expr

theorem Mode.behind_of_inner {mode : Mode} {xs : List Symbol} (h : ∀ x ∈ xs, x.kind.Inner) :
    mode.behind xs = mode := by
  induction xs with
  | nil => rfl
  | cons x xs ih =>
    rw [List.forall_mem_cons] at h
    obtain ⟨hopen, hclose, -⟩ := h.1
    have hafter : mode.after x.kind = mode := by
      unfold Mode.after
      split <;> first | rfl | contradiction
    rw [Mode.behind_cons, hafter, ih h.2]

/-! Every block is closed at the end of a line. -/

mutual

theorem Item.behind_symbols : ∀ item : Item, Mode.literal.behind item.symbols = .literal
  | .text content => rfl
  | .block e => by
    rw [Item.symbols, Mode.behind_append, Mode.behind_cons, Mode.behind_cons,
      Mode.behind_of_inner e.symbols_inner]
    rfl
  | .loop binder array body => by
    have hbody := behind_bodySymbols body
    rw [Item.symbols, Mode.behind_append, Mode.behind_append]
    simp only [Mode.behind_cons, Mode.after, Mode.behind_nil, hbody]

theorem behind_lineSymbols : ∀ l : Line, Mode.literal.behind (lineSymbols l) = .literal
  | [] => rfl
  | item :: items => by
    rw [lineSymbols, Mode.behind_append, item.behind_symbols, behind_lineSymbols items]

theorem behind_bodySymbols : ∀ lines : List Line, Mode.literal.behind (bodySymbols lines) = .literal
  | [] => rfl
  | l :: lines => by
    rw [bodySymbols, Mode.behind_append, behind_lineSymbols l, Mode.behind_cons]
    exact behind_bodySymbols lines

end

/-- The lines of a template end with the text, outside of blocks. -/
theorem exists_linesSymbols (lines : List Line) :
    ∃ xs, linesSymbols lines = xs ++ [⟨.endOfFile, ""⟩] ∧ Mode.literal.behind xs = .literal := by
  induction lines with
  | nil => exact ⟨[], rfl, rfl⟩
  | cons l lines ih =>
    by_cases hnil : lines = []
    · subst hnil
      exact ⟨lineSymbols l, rfl, behind_lineSymbols l⟩
    · obtain ⟨xs, hsymbols, hxs⟩ := ih
      refine ⟨lineSymbols l ++ ⟨.newline, ""⟩ :: xs, ?_, ?_⟩
      · rw [linesSymbols_cons hnil, hsymbols, List.append_assoc, List.cons_append]
      · rw [Mode.behind_append, behind_lineSymbols, Mode.behind_cons]
        exact hxs

theorem Item.Inline.newline_not_mem {P : Expr → Prop} {item : Item} (h : item.Inline P) :
    ⟨.newline, ""⟩ ∉ item.symbols := by
  cases item with
  | text content => simp [Item.symbols]
  | block e =>
    have hinner : ⟨.newline, ""⟩ ∉ e.symbols := fun hmem => (e.symbols_inner _ hmem).2.2.1 rfl
    simp [Item.symbols, hinner]
  | loop binder array body => exact h.elim

theorem newline_not_mem_lineSymbols {P : Expr → Prop} {l : Line} (h : ∀ item ∈ l, item.Inline P) :
    ⟨.newline, ""⟩ ∉ lineSymbols l := by
  induction l with
  | nil => simp [lineSymbols]
  | cons item l ih =>
    rw [List.forall_mem_cons] at h
    rw [lineSymbols, List.mem_append, not_or]
    exact ⟨h.1.newline_not_mem, ih h.2⟩

/-- A source is a template within some limits. -/
def IsTemplate (source : String) (d : Document) : Prop := ∃ limits, parse limits source = .ok d

/-- A text is cut to its end into symbols. -/
def IsCut (cs : List Char) (xs : List Symbol) : Prop :=
  ∃ limits, Cuts limits .literal cs xs .literal []

namespace IsCut

variable {cs ds text rest : List Char} {xs ys : List Symbol}

theorem eq_nil_iff (h : IsCut cs xs) : cs = [] ↔ xs = [] := by
  obtain ⟨limits, h⟩ := h
  obtain ⟨text, rfl, hnil, -⟩ := h.exists_text
  rwa [List.append_nil]

theorem newline_mem_iff (h : IsCut cs xs) : '\n' ∈ cs ↔ ⟨.newline, ""⟩ ∈ xs := by
  obtain ⟨limits, h⟩ := h
  exact h.newline_mem_iff (List.append_nil cs).symm

theorem append_newline (h : IsCut cs xs) (h' : IsCut ds ys) :
    IsCut (cs ++ '\n' :: ds) (xs ++ ⟨.newline, ""⟩ :: ys) := by
  obtain ⟨limits, h⟩ := h
  obtain ⟨limits', h'⟩ := h'
  exact ⟨limits.sup limits', (h.mono (Nat.le_max_left _ _)).append_newline
    (h'.mono (Nat.le_max_right _ _))⟩

/-- A text is cut where its first line ends, if every block is closed there. -/
theorem newline_iff (htext : '\n' ∉ text) (hys : ⟨.newline, ""⟩ ∉ ys)
    (hmode : Mode.literal.behind ys = .literal) :
    IsCut (text ++ '\n' :: rest) (ys ++ ⟨.newline, ""⟩ :: xs) ↔ IsCut text ys ∧ IsCut rest xs := by
  constructor
  · rintro ⟨limits, h⟩
    obtain ⟨hline, hrest⟩ := (Cuts.newline_iff htext hys hmode).1 h
    exact ⟨⟨limits, hline⟩, limits, hrest⟩
  · rintro ⟨hline, hrest⟩
    exact hline.append_newline hrest

end IsCut

theorem parse_of_le_of_ok {limits limits' : Limits} (h : limits ≤ limits') {source : String}
    {d : Document} (hparse : parse limits source = .ok d) : parse limits' source = .ok d := by
  rcases parse_widened h source with ⟨e, he, -⟩ | hsame
  · rw [hparse] at he
    cases he
  · rw [hsame, hparse]

/-- Within large enough limits a source is the one template that it is within some limits. -/
theorem ample_parse_iff (source : String) :
    Ample fun limits => ∀ d, parse limits source = .ok d ↔ IsTemplate source d := by
  by_cases hsome : ∃ d, IsTemplate source d
  · obtain ⟨d, limits, hparse⟩ := hsome
    refine ⟨limits, fun limits' hle d' => ⟨fun h => ⟨limits', h⟩, ?_⟩⟩
    rintro ⟨limits'', hparse'⟩
    obtain ⟨hle', hle''⟩ := sup_le_iff.1 (fun limit => Nat.le_refl ((limits'.sup limits'').get limit))
    have hfirst := parse_of_le_of_ok hle' (parse_of_le_of_ok hle hparse)
    rw [parse_of_le_of_ok hle'' hparse'] at hfirst
    cases hfirst
    exact parse_of_le_of_ok hle hparse
  · refine .of_forall fun limits d => iff_of_false ?_ fun h => hsome ⟨d, h⟩
    exact fun h => hsome ⟨d, limits, h⟩

/-- A source that is a template is cut to its end into the symbols of its tree. -/
theorem cuts_of_parse {limits : Limits} {source : String} {d : Document}
    (h : parse limits source = .ok d) : d.Canonical ∧ ∃ xs, d.symbols = xs ++ [⟨.endOfFile, ""⟩] ∧
      Cuts limits .literal (joinLineEnds [] source.toList) xs .literal [] := by
  obtain ⟨tokens, htokens, hshaped, hsymbols⟩ := parse_ok_iff_within.1 h
  obtain ⟨cursor, last, hcursor, hlast, rfl⟩ := tokensAhead_eq_ok.1 htokens
  obtain ⟨xs, hxs, hmode⟩ := exists_linesSymbols d.lines
  have hlines : xs = cursor.lex.tokens.map Token.symbol := by
    rw [Document.symbols, hxs, List.map_append, List.map_singleton] at hsymbols
    exact List.append_inj_left' hsymbols rfl
  obtain ⟨s, hcuts, hnone, hlast', -⟩ := Cursor.exists_cuts_of_lex (List.append_nil _).symm
  obtain ⟨-, rfl⟩ := Cursor.ofSource_ok_iff.1 hcursor
  rw [← hlines] at hcuts
  obtain ⟨s', hnext⟩ := Cursor.next_of_lex_nil hnone (hlast'.trans hlast)
  have hrest := (Cursor.kind_of_next_iff hnext).1 (Lexed.kind_of_last hlast)
  have hliteral : s.mode = .literal := hcuts.mode_eq.trans hmode
  rw [hliteral] at hcuts hrest
  rw [show s.rest = [] from hrest] at hcuts
  exact ⟨hshaped.canonical, xs, hxs, hcuts⟩

/-- What a source is cut into, and the tree that this stands for, say whether it is a template. -/
theorem isTemplate_iff {source : String} {d : Document} :
    IsTemplate source d ↔ d.Canonical ∧ ∃ xs, d.symbols = xs ++ [⟨.endOfFile, ""⟩] ∧
      IsCut (joinLineEnds [] source.toList) xs := by
  constructor
  · rintro ⟨limits, hparse⟩
    obtain ⟨hd, xs, hsymbols, hcuts⟩ := cuts_of_parse hparse
    exact ⟨hd, xs, hsymbols, limits, hcuts⟩
  · rintro ⟨hd, xs, hsymbols, limits, hcuts⟩
    let least : Limits := {
      inputSize := source.utf8ByteSize
      tokenCount := xs.length + 1
      identifierLength := limits.identifierLength
      expressionDepth := Expr.argumentNeed d.exprs + 1 }
    have hlength : limits.identifierLength ≤ least.identifierLength := Nat.le_refl _
    have hleast : Cuts least .literal (joinLineEnds [] source.toList) xs .literal [] :=
      hcuts.mono hlength
    obtain ⟨tokens, htokens, htokenSymbols⟩ :=
      tokensAhead_of_joined_reads (Nat.le_refl _) hleast.reads (Nat.le_refl _)
    exact ⟨least, parse_ok_iff_within.2
      ⟨tokens, htokens, hd.within_of_need (Nat.le_refl _), hsymbols.trans htokenSymbols.symm⟩⟩

end Stencil
