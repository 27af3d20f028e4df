import Stencil.Proofs.Parse.Blame
import Stencil.Proofs.Parse.Due

/-! Why a loop keyword is refused. Where it opens a block, that depends on whether a loop is open
there. Anywhere else in a block it depends only on what is due at its place. -/
namespace Stencil

open Stencil.Parser (Tells Reaches Forward endSymbols)

/-- Whether a loop is open behind some symbols. -/
def insideLoop (inside : Bool) (xs : List Symbol) : Bool :=
  xs.foldl (fun inside x =>
    match x.kind with
    | .foreachWord => true
    | .endforeachWord => false
    | _ => inside) inside

theorem insideLoop_append (inside : Bool) (xs ys : List Symbol) :
    insideLoop inside (xs ++ ys) = insideLoop (insideLoop inside xs) ys := List.foldl_append

theorem insideLoop_of_inExpression {inside : Bool} {xs : List Symbol}
    (h : ∀ x ∈ xs, x.kind.InExpression) : insideLoop inside xs = inside := by
  induction xs with
  | nil => rfl
  | cons x xs ih =>
    obtain ⟨⟨-, hforeach, hend⟩, hxs⟩ := List.forall_mem_cons.1 h
    rw [insideLoop, List.foldl_cons]
    split
    · contradiction
    · contradiction
    · exact ih hxs

theorem Item.Inline.insideLoop {P : Expr → Prop} {item : Item} (h : item.Inline P) (inside : Bool) :
    insideLoop inside item.symbols = inside := by
  cases item with
  | text content => rfl
  | block e =>
    rw [Item.symbols, insideLoop_append]
    exact insideLoop_of_inExpression e.symbols_inExpression
  | loop binder array body => exact h.elim

theorem insideLoop_lineSymbols {P : Expr → Prop} {l : Line} (h : ∀ item ∈ l, item.Inline P)
    (inside : Bool) : insideLoop inside (lineSymbols l) = inside := by
  induction l with
  | nil => rfl
  | cons item l ih =>
    rw [List.forall_mem_cons] at h
    rw [lineSymbols, insideLoop_append, h.1.insideLoop, ih h.2]

/-- A loop is closed where it ends. -/
theorem insideLoop_loop (inside : Bool) (binder array : String) (body : List Line) :
    insideLoop inside (Item.loop binder array body).symbols = false := by
  rw [Item.symbols, insideLoop_append]
  rfl

theorem TopLine.insideLoop {P : Expr → Prop} {l : Line} (h : TopLine P l) :
    insideLoop false (lineSymbols l) = false := by
  rcases h with h | ⟨binder, array, body, rfl, -⟩
  · exact insideLoop_lineSymbols h false
  · rw [lineSymbols, insideLoop_append, insideLoop_loop]
    rfl

/-- Why a loop keyword is refused behind the symbols of its block. -/
structure Refusal (limit : Nat) (inside : Bool) (cause : SyntaxError.Cause) (xs : List Symbol) :
    Prop where
  inner : ∀ x ∈ xs, x.kind.Inner
  first : xs = [] → cause = if inside then .nestedLoop else .misplacedLoop .afterContent
  later : xs ≠ [] → Misread limit limit .operand cause xs

/-- Behind symbols that leave a block open, a loop keyword is refused for its place in that block. -/
def Stray (limit : Nat) (inside : Bool) (cause : SyntaxError.Cause) (xs : List Symbol) : Prop :=
  Mode.literal.behind xs = .block → ∃ before inner, xs = before ++ ⟨.openBlock, ""⟩ :: inner ∧
    Refusal limit (insideLoop inside before) cause inner

namespace Stray

variable {limit : Nat} {inside inside' : Bool} {cause : SyntaxError.Cause} {xs ys : List Symbol}

theorem of_literal (h : Mode.literal.behind xs = .literal) : Stray limit inside cause xs := by
  intro hblock
  rw [h] at hblock
  cases hblock

theorem append (xs : List Symbol) (h : Stray limit inside' cause ys)
    (hmode : Mode.literal.behind xs = .literal) (hinside : insideLoop inside xs = inside') :
    Stray limit inside cause (xs ++ ys) := by
  intro hblock
  rw [Mode.behind_append, hmode] at hblock
  obtain ⟨before, inner, rfl, hrefusal⟩ := h hblock
  refine ⟨xs ++ before, inner, (List.append_assoc _ _ _).symm, ?_⟩
  rwa [insideLoop_append, hinside]

/-- Right behind opening braces. -/
theorem first (h : cause = if inside then .nestedLoop else .misplacedLoop .afterContent) :
    Stray limit inside cause [⟨.openBlock, ""⟩] :=
  fun _ => ⟨[], [], rfl, by simp, fun _ => h, fun hne => absurd rfl hne⟩

theorem later (h : Misread limit limit .operand cause xs) (hne : xs ≠ []) :
    Stray limit inside cause (⟨.openBlock, ""⟩ :: xs) :=
  fun _ => ⟨[], xs, rfl, h.inner, fun hnil => absurd hnil hne, fun _ => h⟩

/-- Behind words with which no expression starts. -/
theorem behindWords (hinner : ∀ x ∈ xs, x.kind.Inner) (hne : xs ≠ [])
    (hdue : (Due.operand.behind xs).Complete) (expectation : Expectation) :
    Stray limit inside (.unexpected expectation) (⟨.openBlock, ""⟩ :: xs) :=
  later (.of_complete hinner hdue expectation) hne

end Stray

namespace Parser

variable {limit : Nat} {inside : Bool} {s s' : ParseState Lexed}

theorem blockItem_tells {onLoop : Parser Lexed Item}
    (hloop : Tells AtLoopWord s onLoop s fun c xs => Stray limit inside c (⟨.openBlock, ""⟩ :: xs)) :
    Tells AtLoopWord s (blockItem limit onLoop) s fun c xs =>
      Stray limit inside c (⟨.openBlock, ""⟩ :: xs) := by
  have hsum : Refuses limit limit (sum limit limit) := sum_refuses limit limit
  unfold blockItem expression
  refine .of_run_eq (Reader.run_bind_ok (run_kind s) _) ?_
  split
  · rename_i hk
    exact .failHere fun hword => absurd hword (not_atLoopWord hk (by simp))
  · exact hloop
  · rename_i hk
    refine (((hsum.tells s).later hk).mono fun _ _ hxs => .later hxs.2 hxs.1).bind fun e s₁ hok => ?_
    refine .behind (hsum.reaches hok)
      (.closeBlock_bind (fun _ => ?_) fun s₂ => .of_ok (Reader.run_pure _ s₂))
    obtain ⟨x, xs, hsymbols, -⟩ := e.symbols_eq_cons
    have hne : e.symbols ≠ [] := by simp [hsymbols]
    rw [List.append_nil]
    exact .behindWords e.symbols_inner hne (Due.complete_symbols _ e) _

section Line

variable {onLoop : Bool → Parser Lexed Item}

theorem lineStep_tells (items : List Item)
    (hloop : ∀ s, Tells AtLoopWord s (onLoop items.isEmpty) s fun c xs =>
      Stray limit inside c (⟨.openBlock, ""⟩ :: xs)) :
    Tells AtLoopWord s (lineStep limit onLoop items) s (Stray limit inside) := by
  unfold lineStep
  refine .of_run_eq (Reader.run_bind_ok (run_current s) _) ?_
  split
  · exact .of_ok (Reader.run_pure _ s)
  · exact .of_ok (Reader.run_pure _ s)
  · rename_i hopen
    refine .enterBlock_bind hopen fun s₁ _ => ?_
    exact (blockItem_tells (hloop s₁)).bind fun item s₂ _ => .of_ok (Reader.run_pure _ s₂)
  · exact Tells.advance.bind fun _ s₁ _ => .of_ok (Reader.run_pure _ s₁)
  · exact .failHere fun _ => .of_literal rfl

theorem line_tells (hforward : ∀ atStart, Forward (onLoop atStart))
    (hloop : ∀ atStart s, Tells AtLoopWord s (onLoop atStart) s fun c xs =>
      Stray limit inside c (⟨.openBlock, ""⟩ :: xs))
    (hsound : ∀ {atStart s item s'}, (onLoop atStart).run s = (.ok item, s') →
      ⟨.openBlock, ""⟩ :: s.input = item.symbols ++ s'.input ∧
        insideLoop inside item.symbols = inside) (s : ParseState Lexed) :
    Tells AtLoopWord s (line limit onLoop) s (Stray limit inside) := by
  refine .repeatFrom (I := fun _ => True) (fun items s _ => lineStep_tells items (hloop _))
    (fun items s items' s₁ _ hok => ⟨trivial, ?_⟩) trivial
  have hstep : Forward (lineStep limit onLoop items) :=
    ⟨fun h => Simulation.lineStep_agree (.refl limit limit) h
      (fun atStart _ _ _ h _ => (hforward atStart).agree h) items⟩
  obtain ⟨item, -, hitem⟩ := lineStep_item_sound hok
  have hread : s.input = item.symbols ++ s₁.input ∧ insideLoop inside item.symbols = inside := by
    rcases hitem with ⟨hinline, hinput⟩ | ⟨s₂, hinput, hrun⟩
    · exact ⟨hinput, hinline.insideLoop inside⟩
    · rw [hinput]
      exact hsound hrun
  exact ⟨_, .of_sound hstep hok hread.1, fun _ ys hys => hys.append _ item.behind_symbols hread.2⟩

end Line

section Loop

theorem bodyLine_tells (limit : Nat) (s : ParseState Lexed) :
    Tells AtLoopWord s (bodyLine limit) s (Stray limit true) := by
  unfold bodyLine
  refine line_tells (fun _ => failHere_forward _) (fun _ s => ?_) (fun hfail => ?_) s
  · exact .failHere fun _ => .first rfl
  · exact absurd hfail failHere_ne_ok

theorem loopEnd_tells (s : ParseState Lexed) :
    Tells AtLoopWord s loopEnd s (Stray limit true) := by
  unfold loopEnd
  refine .of_run_eq (Reader.run_bind_ok (run_kind s) _) ?_
  split
  · rename_i hopen
    refine Tells.lookahead.bind fun inside s₁ hlook => ?_
    have hcurrent : s₁.current.kind = .openBlock := by rw [current_of_lookahead hlook, hopen]
    obtain ⟨hsame, back, htokens⟩ := lookahead_tokens (by simp [hopen]) hlook
    split
    · rename_i hword
      have hreach : Reaches s [] s₁ := ⟨[], hsame.symm, rfl⟩
      refine .behind hreach (.enterBlock_bind hcurrent fun s₂ henter => ?_)
      have hinside : s₂.current.kind = .endforeachWord := by
        rw [current_of_reread hlook henter, hword]
      refine .advance_bind (Token.symbol_of_kind hinside (by simp)) (by simp) fun s₃ _ => ?_
      refine .closeBlock_bind (fun _ => ?_) fun s₄ => ?_
      · exact .behindWords (by simp [TokenKind.Inner]) (by simp) (.inr rfl) _
      · exact .require_bind (fun _ _ => .of_literal rfl) fun _ => .of_ok (Reader.run_pure _ s₄)
    · refine .failAt [s.current] htokens fun _ => ?_
      rw [List.map_singleton, Token.symbol_of_kind hopen (by simp)]
      exact .first rfl
    · exact .of_ok (Reader.run_pure _ s₁)
  · exact .of_ok (Reader.run_pure _ s)

theorem bodyStep_tells (binder : String) (lines : List Line) (s : ParseState Lexed) :
    Tells AtLoopWord s (bodyStep limit binder lines) s (Stray limit true) := by
  unfold bodyStep
  refine (loopEnd_tells s).bind fun ended s₁ hended => ?_
  cases ended with
  | true => exact .of_ok (Reader.run_pure _ s₁)
  | false =>
    rw [if_neg (by simp)]
    refine .behind (loopEnd_reaches hended) (.require_bind (fun _ _ => .of_literal rfl) fun _ => ?_)
    refine (bodyLine_tells limit s₁).bind fun l s₂ hline => ?_
    obtain ⟨hreach, -⟩ := bodyLine_reaches hline
    refine .behind hreach (.require_bind (fun _ _ => .of_literal ?_) fun _ => ?_)
    · rw [List.append_nil]
      exact behind_lineSymbols l
    · exact Tells.advance.bind fun _ s₃ _ => .of_ok (Reader.run_pure _ s₃)

theorem body_tells (binder : String) (s : ParseState Lexed) :
    Tells AtLoopWord s (Reader.repeatFrom [] (bodyStep limit binder) (bodyStep_shrinks limit binder))
      s (Stray limit true) := by
  refine .repeatFrom (I := fun _ => True) (fun lines s _ => bodyStep_tells binder lines s)
    (fun lines s lines' s₁ _ hok => ⟨trivial, ?_⟩) trivial
  obtain ⟨l, hl, hreach⟩ := bodyStep_reaches hok
  refine ⟨_, hreach, fun _ ys hys => hys.append _ ?_ ?_⟩
  · rw [Mode.behind_append, behind_lineSymbols]
    rfl
  · rw [insideLoop_append, insideLoop_lineSymbols hl]
    rfl

theorem loop_tells (limit : Nat) (s : ParseState Lexed) :
    Tells AtLoopWord s (loop limit) s fun c xs => Stray limit false c (⟨.openBlock, ""⟩ :: xs) := by
  unfold loop
  refine .expect_bind (by simp [TokenKind.Plain]) (fun hword hne => absurd hword hne)
    fun t₁ s₁ h₁ => ?_
  rw [Token.symbol_of_kind h₁ (by simp)]
  refine .expect_bind (by simp [TokenKind.Plain]) (fun _ _ => ?_) fun binder s₂ h₂ => ?_
  · exact .behindWords (by simp [TokenKind.Inner]) (by simp) (.inr rfl) _
  rw [Token.symbol_of_text h₂]
  refine .expect_bind (by simp [TokenKind.Plain]) (fun _ _ => ?_) fun t₃ s₃ h₃ => ?_
  · exact .behindWords (by simp [TokenKind.Inner]) (by simp) (.inl rfl) _
  rw [Token.symbol_of_kind h₃ (by simp)]
  refine .expect_bind (by simp [TokenKind.Plain]) (fun _ _ => ?_) fun array s₄ h₄ => ?_
  · exact .behindWords (by simp [TokenKind.Inner]) (by simp) (.inr rfl) _
  rw [Token.symbol_of_text h₄]
  refine .closeBlock_bind (fun _ => ?_) fun s₅ => ?_
  · exact .behindWords (by simp [TokenKind.Inner]) (by simp) (.inl rfl) _
  refine .require_bind (fun _ _ => .of_literal rfl) fun hline => ?_
  refine .advance_bind (Token.symbol_of_kind (beq_iff_eq.1 hline) (by simp)) (by simp) fun s₆ _ => ?_
  refine ((body_tells binder.lexeme s₆).mono fun _ ys hys => ?_).bind fun body s₇ _ =>
    .of_ok (Reader.run_pure _ s₇)
  exact hys.append [_, _, _, _, _, _, _] rfl rfl

end Loop

section Template

theorem topLine_tells (limit : Nat) (s : ParseState Lexed) :
    Tells AtLoopWord s (topLine limit) s (Stray limit false) := by
  unfold topLine
  refine line_tells (topLine_forward limit) (fun atStart s => ?_)
    (fun {atStart s item s'} hok => ?_) s
  · cases atStart with
    | true => exact loop_tells limit s
    | false => exact .failHere fun _ => .first rfl
  · cases atStart with
    | true =>
      obtain ⟨⟨binder, array, body, rfl, -⟩, hinput, -⟩ := loop_sound hok
      exact ⟨hinput, insideLoop_loop false binder array body⟩
    | false => exact absurd hok failHere_ne_ok

theorem documentStep_tells (lines : List Line) (s : ParseState Lexed) :
    Tells AtLoopWord s (documentStep limit lines) s (Stray limit false) := by
  unfold documentStep
  refine (topLine_tells limit s).bind fun l s₁ hline => ?_
  obtain ⟨hreach, -⟩ := topLine_reaches hline
  refine .behind hreach (.of_run_eq (Reader.run_bind_ok (run_kind s₁) _) ?_)
  split
  · exact .of_ok (Reader.run_pure _ s₁)
  · refine .expect_bind (by simp [TokenKind.Plain]) (fun _ _ => ?_) fun t s₂ _ => ?_
    · rw [List.append_nil]
      exact .of_literal (behind_lineSymbols l)
    · refine .of_run_eq (Reader.run_bind_ok (run_kind s₂) _) ?_
      split
      · exact .of_ok (Reader.run_pure _ s₂)
      · exact .of_ok (Reader.run_pure _ s₂)

theorem document_tells (limit : Nat) (s : ParseState Lexed) :
    Tells AtLoopWord s (document limit) s (Stray limit false) := by
  have hlines : Tells AtLoopWord s
      (Reader.repeatFrom [] (documentStep limit) (documentStep_shrinks limit)) s
      (Stray limit false) := by
    refine .repeatFrom (I := fun _ => True) (fun lines s _ => documentStep_tells lines s)
      (fun lines s lines' s₁ _ hok => ⟨trivial, ?_⟩) trivial
    obtain ⟨l, hl, hreach⟩ := documentStep_reaches hok
    refine ⟨_, hreach, fun _ ys hys => hys.append _ ?_ ?_⟩
    · rw [Mode.behind_append, behind_lineSymbols]
      rfl
    · rw [insideLoop_append, hl.insideLoop]
      rfl
  unfold document
  refine .of_run_eq (Reader.run_bind_ok (run_kind s) _) ?_
  split
  · exact .of_ok (Reader.run_pure _ s)
  · exact hlines.bind fun all s₁ _ => .of_ok (Reader.run_pure _ s₁)

end Template

end Parser

/-- A loop keyword is cut off only inside a block. -/
theorem Cursor.mode_of_loopWord {s s' : Cursor} {t : Token} (h : s.next = (.ok t, s'))
    (ht : t.kind = .foreachWord) : s.mode = .block := by
  obtain ⟨x, rest, -, hx, -⟩ := cut_of_next h
  cases hmode : s.mode with
  | block => rfl
  | literal =>
    have hkind := congrArg (Option.map Symbol.kind) hx
    rw [hmode] at hkind
    cases x <;> simp [Lexeme.symbol?, ht] at hkind

/-- Only right behind the opening braces does an open loop decide how a loop keyword is refused.
Further on it matters whether an operand is due. -/
theorem parse_error_loopWord {limits : Limits} {source : String} {e : SyntaxError}
    (h : parse limits source = .error (.syntactic e)) (hword : e.found.kind = .foreachWord) :
    ∃ (front : List Token) (back : List (Except LexError Token)) (before inner : List Symbol),
      scannedAhead limits source = front.map .ok ++ .ok e.found :: back ∧
        front.map Token.symbol = before ++ ⟨.openBlock, ""⟩ :: inner ∧
        Refusal limits.expressionDepth (insideLoop false before) e.cause inner := by
  obtain ⟨cursor, front, back, hcursor, hproper, hstray⟩ :=
    exists_tells_of_parse_error h hword (Parser.document_tells _)
  obtain ⟨s', s'', hcuts, hnext, -⟩ := Cursor.exists_next_of_proper hproper
  have hliteral : cursor.mode = .literal := by
    obtain ⟨-, rfl⟩ := Cursor.ofSource_ok_iff.1 hcursor
    rfl
  have hblock : Mode.literal.behind (front.map Token.symbol) = .block := by
    rw [← hliteral, ← hcuts.mode_eq]
    exact Cursor.mode_of_loopWord hnext hword
  obtain ⟨before, inner, hfront, hrefusal⟩ := hstray hblock
  obtain ⟨more, hmore⟩ := cursor.lex.answers_proper
  refine ⟨front, back.map .ok ++ more, before, inner, ?_, hfront, hrefusal⟩
  rw [scannedAhead, hcursor]
  change cursor.lex.answers = _
  rw [hmore, hproper, List.map_append, List.map_cons, List.append_assoc, List.cons_append]

/-- A loop keyword behind an operator, in a line inside a loop. -/
def strayWordSource : String :=
  "\x7b\x7b foreach x in xs \x7d\x7d\n\x7b\x7b 1 + foreach \x7d\x7d\n" ++
    "\x7b\x7b endforeach \x7d\x7d"

theorem strayWordSource_parse_error_loopWord :
    parse {} strayWordSource = .error (.syntactic
        ⟨.misplacedLoop .insideExpression, ⟨.foreachWord, "foreach", 2, 8⟩⟩) ∧
      ∃ (front : List Token) (back : List (Except LexError Token)) (before inner : List Symbol),
        scannedAhead {} strayWordSource =
            front.map .ok ++ .ok ⟨.foreachWord, "foreach", 2, 8⟩ :: back ∧
          front.map Token.symbol = before ++ ⟨.openBlock, ""⟩ :: inner ∧
          Refusal 256 (insideLoop false before) (.misplacedLoop .insideExpression) inner := by
  have hparse : parse {} strayWordSource = .error (.syntactic
      ⟨.misplacedLoop .insideExpression, ⟨.foreachWord, "foreach", 2, 8⟩⟩) := by
    with_unfolding_all rfl
  exact ⟨hparse, parse_error_loopWord hparse rfl⟩

end Stencil
