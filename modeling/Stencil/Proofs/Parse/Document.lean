import Stencil.Proofs.Parse.Expression

/-! The reader of lines, loops and whole templates against the grammar. -/
namespace Stencil

theorem Item.symbols_eq_cons (item : Item) :
    ∃ x xs, item.symbols = x :: xs ∧ (x.kind = .text ∨ x.kind = .openBlock) := by
  cases item with
  | text content => exact ⟨_, _, rfl, .inl rfl⟩
  | block e => exact ⟨_, _, rfl, .inr rfl⟩
  | loop binder array body => exact ⟨_, _, rfl, .inr rfl⟩

/-- No item starts with what ends a line. -/
theorem eq_nil_of_lineSymbols {l : Line} {x : Symbol} {xs ys : List Symbol}
    (hx : x.kind.EndsLine) (h : x :: xs = lineSymbols l ++ ys) : l = [] := by
  cases l with
  | nil => rfl
  | cons item items =>
    obtain ⟨x', xs', hsymbols, hx'⟩ := item.symbols_eq_cons
    rw [lineSymbols, hsymbols] at h
    rw [(List.cons.inj h).1] at hx
    rcases hx with hx | hx <;> rw [hx] at hx' <;> simp at hx'

namespace Parser

variable {limit : Nat} {s s' : ParseState Lexed} {ys : List Symbol}

theorem blockItem_sound {onLoop : Parser Lexed Item} {item : Item}
    (h : (blockItem limit onLoop).run s = (.ok item, s')) :
    (item.Inline (·.Within 2 limit) ∧ ⟨.openBlock, ""⟩ :: s.input = item.symbols ++ s'.input) ∨
      s.current.kind = .foreachWord ∧ onLoop.run s = (.ok item, s') := by
  unfold blockItem at h
  rw [Reader.run_bind_ok (run_kind s)] at h
  split at h
  · cases h
  · rename_i hk
    exact .inr ⟨hk, h⟩
  · left
    simp only [Reader.run_bind_eq_ok] at h
    obtain ⟨e, s₁, hread, _, s₂, hclose, h⟩ := h
    cases h
    obtain ⟨hinput, he⟩ := (sum_recognizes limit limit).sound hread
    refine ⟨he, ?_⟩
    rw [hinput, closeBlock_sound hclose, Item.symbols]
    simp

theorem blockItem_complete (onLoop : Parser Lexed Item) {e : Expr} (he : e.Within 2 limit)
    (hinput : s.input = e.symbols ++ ⟨.closeBlock, ""⟩ :: ys) (hys : ys ≠ []) :
    ∃ s', (blockItem limit onLoop).run s = (.ok (.block e), s') ∧ s'.input = ys := by
  have hstart := startsOperand_of_input hinput
  obtain ⟨s₁, hread, hinput₁⟩ := (sum_recognizes limit limit).complete he hinput
    (TokenKind.stops_of_closing (.inr (.inr rfl)) 2)
  obtain ⟨s₂, hclose, hinput₂⟩ := closeBlock_complete hinput₁ hys
  refine ⟨s₂, ?_, hinput₂⟩
  unfold blockItem
  rw [Reader.run_bind_ok (run_kind s)]
  split
  · rename_i hk
    rw [hk] at hstart
    cases hstart
  · rename_i hk
    rw [hk] at hstart
    cases hstart
  · unfold expression
    rw [Reader.run_bind_ok hread, Reader.run_bind_ok hclose]
    rfl

section Line

variable {onLoop : Bool → Parser Lexed Item} {items : List Item} {l : Line}

theorem lineStep_last_sound
    (h : (lineStep limit onLoop items).run s = (.ok (.inr l), s')) :
    l = items.reverse ∧ s' = s := by
  unfold lineStep at h
  rw [Reader.run_bind_ok (run_current s)] at h
  split at h
  · cases h
    exact ⟨rfl, rfl⟩
  · cases h
    exact ⟨rfl, rfl⟩
  · simp only [Reader.run_bind_eq_ok] at h
    obtain ⟨_, _, _, _, _, _, h⟩ := h
    cases h
  · simp only [Reader.run_bind_eq_ok] at h
    obtain ⟨_, _, _, h⟩ := h
    cases h
  · cases h

theorem lineStep_item_sound {items' : List Item}
    (h : (lineStep limit onLoop items).run s = (.ok (.inl items'), s')) :
    ∃ item, items' = item :: items ∧
      ((item.Inline (·.Within 2 limit) ∧ s.input = item.symbols ++ s'.input) ∨
        ∃ s₁ : ParseState Lexed, s.input = ⟨.openBlock, ""⟩ :: s₁.input ∧
          (onLoop items.isEmpty).run s₁ = (.ok item, s')) := by
  unfold lineStep at h
  rw [Reader.run_bind_ok (run_current s)] at h
  split at h
  · cases h
  · cases h
  · rename_i hk
    simp only [Reader.run_bind_eq_ok] at h
    obtain ⟨_, s₁, henter, item, s₂, hitem, h⟩ := h
    cases h
    have hfirst := advance_kind_sound hk (by simp) henter
    refine ⟨item, rfl, ?_⟩
    rw [hfirst]
    rcases blockItem_sound hitem with hblock | ⟨-, hloop⟩
    · exact .inl hblock
    · exact .inr ⟨s₁, rfl, hloop⟩
  · rename_i hk
    simp only [Reader.run_bind_eq_ok] at h
    obtain ⟨_, s₁, hadvance, h⟩ := h
    cases h
    exact ⟨.text s.current.lexeme, rfl, .inl ⟨trivial, advance_text_sound hk hadvance⟩⟩
  · cases h

/-- What is read of a line behind its first items: more items that may share it, or, where there
are none before, one item that `onLoop` makes of a loop. -/
def LineRead (limit : Nat) (Loop : Item → Prop) (items : List Item) (s : ParseState Lexed)
    (l : Line) (s' : ParseState Lexed) : Prop :=
  ∃ more, l = items.reverse ++ more ∧ s.input = lineSymbols more ++ s'.input ∧
    ((∀ item ∈ more, item.Inline (·.Within 2 limit)) ∨
      items = [] ∧ ∃ item, more = [item] ∧ Loop item)

theorem line_sound (Loop : Item → Prop)
    (hloop : ∀ {atStart s item s'}, (onLoop atStart).run s = (.ok item, s') →
      atStart = true ∧ Loop item ∧ ⟨.openBlock, ""⟩ :: s.input = item.symbols ++ s'.input ∧
        s'.current.kind.EndsLine)
    (h : (line limit onLoop).run s = (.ok l, s')) : LineRead limit Loop [] s l s' := by
  refine Reader.repeatFrom_ok_induction (P := LineRead limit Loop) _ ?_ ?_ h
  · intro items s l s' hlast
    obtain ⟨rfl, rfl⟩ := lineStep_last_sound hlast
    exact ⟨[], by simp, rfl, .inl (by simp)⟩
  · intro items s items' s₁ l s' hround hrest
    obtain ⟨item, rfl, hitem⟩ := lineStep_item_sound hround
    obtain ⟨more, rfl, hinput, hmore⟩ := hrest
    refine ⟨item :: more, by simp, ?_⟩
    rcases hitem with ⟨hinline, hfirst⟩ | ⟨s₂, hfirst, hrun⟩
    · rcases hmore with hmore | ⟨hnil, -⟩
      · rw [hfirst, hinput, lineSymbols, List.append_assoc, List.forall_mem_cons]
        exact ⟨rfl, .inl ⟨hinline, hmore⟩⟩
      · cases hnil
    · obtain ⟨hstart, hitem, hsymbols, hends⟩ := hloop hrun
      obtain ⟨xs, hxs⟩ := s₁.input_eq_cons
      have hnil : more = [] := eq_nil_of_lineSymbols hends (hxs.symm.trans hinput)
      subst hnil
      refine ⟨?_, .inr ⟨List.isEmpty_iff.1 hstart, item, rfl, hitem⟩⟩
      rw [hfirst, hsymbols, hinput]
      simp [lineSymbols]

theorem lineStep_item_complete (onLoop : Bool → Parser Lexed Item) (items : List Item)
    {item : Item} (hitem : item.Inline (·.Within 2 limit))
    (hinput : s.input = item.symbols ++ ys) (hys : ys ≠ []) :
    ∃ s', (lineStep limit onLoop items).run s = (.ok (.inl (item :: items)), s') ∧
      s'.input = ys := by
  unfold lineStep
  rw [Reader.run_bind_ok (run_current s)]
  cases item with
  | text content =>
    obtain ⟨s₁, hadvance, hinput₁⟩ := advance_complete hinput hys
    have hlexeme := (Token.lexeme_of_symbol (ParseState.symbol_of_input hinput)).2
    refine ⟨s₁, ?_, hinput₁⟩
    rw [ParseState.kind_of_input hinput]
    dsimp only
    rw [Reader.run_bind_ok hadvance, hlexeme]
    rfl
  | block e =>
    rw [Item.symbols, List.append_assoc, List.cons_append] at hinput
    obtain ⟨s₁, henter, hinput₁⟩ := advance_complete hinput (by simp)
    obtain ⟨s₂, hblock, hinput₂⟩ := blockItem_complete (onLoop items.isEmpty) hitem hinput₁ hys
    refine ⟨s₂, ?_, hinput₂⟩
    rw [ParseState.kind_of_input hinput]
    dsimp only
    rw [Reader.run_bind_ok ((run_enterBlock s).trans henter), Reader.run_bind_ok hblock]
    rfl
  | loop binder array body => exact hitem.elim

theorem lineStep_loop_complete (limit : Nat) (onLoop : Bool → Parser Lexed Item)
    (items : List Item) {item : Item} {s₁ : ParseState Lexed}
    (hk : s.current.kind = .openBlock) (hk₁ : s₁.current.kind = .foreachWord)
    (henter : (advance : Parser Lexed Unit).run s = (.ok (), s₁))
    (h : (onLoop items.isEmpty).run s₁ = (.ok item, s')) :
    (lineStep limit onLoop items).run s = (.ok (.inl (item :: items)), s') := by
  have hitem : (blockItem limit (onLoop items.isEmpty)).run s₁ = (.ok item, s') := by
    unfold blockItem
    rw [Reader.run_bind_ok (run_kind s₁), hk₁]
    exact h
  unfold lineStep
  rw [Reader.run_bind_ok (run_current s), hk]
  dsimp only
  rw [Reader.run_bind_ok ((run_enterBlock s).trans henter), Reader.run_bind_ok hitem]
  rfl

theorem lineStep_last_complete (hk : s.current.kind.EndsLine) :
    (lineStep limit onLoop items).run s = (.ok (.inr items.reverse), s) := by
  unfold lineStep
  rw [Reader.run_bind_ok (run_current s)]
  rcases hk with hk | hk
  · rw [hk]
    rfl
  · rw [hk]
    rfl

theorem line_complete (onLoop : Bool → Parser Lexed Item) {y : Symbol}
    (hl : ∀ item ∈ l, item.Inline (·.Within 2 limit))
    (hinput : s.input = lineSymbols l ++ y :: ys) (hy : y.kind.EndsLine) :
    ∃ s', (line limit onLoop).run s = (.ok l, s') ∧ s'.input = y :: ys := by
  suffices hloop : ∀ items, ∃ s', (Reader.repeatFrom items (lineStep limit onLoop)
      (lineStep_shrinks limit onLoop)).run s = (.ok (items.reverse ++ l), s') ∧
        s'.input = y :: ys from hloop []
  induction l generalizing s with
  | nil =>
    intro items
    have hk := ParseState.kind_of_input hinput
    refine ⟨s, ?_, hinput⟩
    rw [Reader.run_repeatFrom_inr (lineStep_last_complete (by rw [hk]; exact hy)), List.append_nil]
  | cons item l ih =>
    intro items
    rw [List.forall_mem_cons] at hl
    rw [lineSymbols, List.append_assoc] at hinput
    obtain ⟨s₁, hstep, hinput₁⟩ := lineStep_item_complete onLoop items hl.1 hinput (by simp)
    obtain ⟨s₂, hrest, hinput₂⟩ := ih hl.2 hinput₁ (item :: items)
    refine ⟨s₂, ?_, hinput₂⟩
    rw [Reader.run_repeatFrom_inl hstep, hrest]
    simp

end Line

section Loop

/-- What ends a loop. -/
def endSymbols : List Symbol := [⟨.openBlock, ""⟩, ⟨.endforeachWord, ""⟩, ⟨.closeBlock, ""⟩]

theorem loop_symbols_append (binder array : String) (body : List Line) (ys : List Symbol) :
    (Item.loop binder array body).symbols ++ ys =
      ⟨.openBlock, ""⟩ :: ⟨.foreachWord, ""⟩ :: ⟨.text, binder⟩ :: ⟨.inWord, ""⟩ ::
        ⟨.text, array⟩ :: ⟨.closeBlock, ""⟩ :: ⟨.newline, ""⟩ ::
          (bodySymbols body ++ endSymbols ++ ys) := by
  rw [Item.symbols]
  simp [endSymbols]

theorem loopEnd_sound {ended : Bool} (h : (loopEnd : Parser Lexed Bool).run s = (.ok ended, s')) :
    match ended with
    | true => s.input = endSymbols ++ s'.input ∧
        s'.current.kind.EndsLine
    | false => s'.input = s.input := by
  unfold loopEnd at h
  rw [Reader.run_bind_ok (run_kind s)] at h
  split at h
  · rename_i hk
    rw [Reader.run_bind_eq_ok] at h
    obtain ⟨t, s₁, hlook, h⟩ := h
    obtain ⟨hinput, xs, hxs⟩ := lookahead_sound (by rw [hk]; simp) hlook
    have hk₁ : s₁.current.kind = .openBlock := by rw [current_of_lookahead hlook, hk]
    split at h
    · rename_i hword
      simp only [Reader.run_bind_eq_ok, run_require_eq_ok] at h
      obtain ⟨_, s₂, henter, _, s₃, hadvance, _, s₄, hclose, _, _, ⟨hends, rfl⟩, h⟩ := h
      cases h
      have hcurrent := current_of_reread hlook henter
      rw [run_enterBlock] at henter
      constructor
      · rw [← hinput, advance_kind_sound hk₁ (by simp) henter,
          advance_kind_sound (by rw [hcurrent, hword]) (by simp) hadvance, closeBlock_sound hclose]
        rfl
      · simpa [TokenKind.EndsLine] using hends
    · cases h
    · cases h
      exact hinput
  · cases h
    rfl

theorem loopEnd_complete {y : Symbol} (hinput : s.input = endSymbols ++ y :: ys)
    (hy : y.kind.EndsLine) :
    ∃ s', (loopEnd : Parser Lexed Bool).run s = (.ok true, s') ∧ s'.input = y :: ys := by
  obtain ⟨t, s₁, hlook, hsymbol, hinput₁⟩ := lookahead_complete hinput
  have hk := ParseState.kind_of_input hinput
  have ht : t.kind = .endforeachWord := by rw [← Token.symbol_kind, hsymbol]
  rw [hinput] at hinput₁
  obtain ⟨s₂, henter, hinput₂⟩ := advance_complete hinput₁ (by simp)
  obtain ⟨s₃, hadvance, hinput₃⟩ := advance_complete hinput₂ (by simp)
  obtain ⟨s₄, hclose, hinput₄⟩ := closeBlock_complete hinput₃ (by simp)
  have hk₄ := ParseState.kind_of_input hinput₄
  refine ⟨s₄, ?_, hinput₄⟩
  unfold loopEnd
  rw [Reader.run_bind_ok (run_kind s), if_pos hk, Reader.run_bind_ok hlook, ht]
  dsimp only
  rw [Reader.run_bind_ok ((run_enterBlock s₁).trans henter), Reader.run_bind_ok hadvance,
    Reader.run_bind_ok hclose,
    Reader.run_bind_ok (run_require_ok (by simpa [hk₄, TokenKind.EndsLine] using hy))]
  rfl

/-- A line of a loop's body is no end of the loop, and does not start another one. -/
theorem loopEnd_complete_line {l : Line} (hl : ∀ item ∈ l, item.Inline (·.Within 2 limit))
    (hinput : s.input = lineSymbols l ++ ⟨.newline, ""⟩ :: ys) :
    ∃ s', (loopEnd : Parser Lexed Bool).run s = (.ok false, s') ∧ s'.input = s.input := by
  unfold loopEnd
  rw [Reader.run_bind_ok (run_kind s)]
  by_cases hk : s.current.kind = .openBlock
  · rw [if_pos hk]
    cases l with
    | nil => rw [ParseState.kind_of_input hinput] at hk; cases hk
    | cons item items =>
      have hitem := hl item (by simp)
      cases item with
      | text content => rw [ParseState.kind_of_input hinput] at hk; cases hk
      | loop binder array body => exact hitem.elim
      | block e =>
        obtain ⟨x, xs, hsymbols, hx⟩ := e.symbols_eq_cons
        rw [lineSymbols, Item.symbols, hsymbols] at hinput
        obtain ⟨t, s₁, hlook, hsymbol, hinput₁⟩ := lookahead_complete hinput
        have ht : t.kind.startsOperand := by rw [← Token.symbol_kind, hsymbol]; exact hx
        refine ⟨s₁, ?_, hinput₁⟩
        rw [Reader.run_bind_ok hlook]
        split
        · rename_i hword
          rw [hword] at ht
          cases ht
        · rename_i hword
          rw [hword] at ht
          cases ht
        · rfl
  · rw [if_neg hk]
    exact ⟨s, rfl, rfl⟩

theorem failHere_ne_ok {α : Type} {cause : SyntaxError.Cause} {a : α} :
    (failHere cause : Parser Lexed α).run s ≠ (.ok a, s') := by
  intro h
  cases h

theorem bodyLine_sound {l : Line} (h : (bodyLine limit).run s = (.ok l, s')) :
    s.input = lineSymbols l ++ s'.input ∧ ∀ item ∈ l, item.Inline (·.Within 2 limit) := by
  obtain ⟨more, rfl, hinput, hmore⟩ :=
    line_sound (fun _ => False) (fun hfail => absurd hfail failHere_ne_ok) h
  rcases hmore with hmore | ⟨-, -, -, hfalse⟩
  · exact ⟨hinput, hmore⟩
  · exact hfalse.elim

theorem bodyStep_end_sound {binder : String} {lines body : List Line}
    (h : (bodyStep limit binder lines).run s = (.ok (.inr body), s')) :
    body = lines.reverse ∧ s.input = endSymbols ++ s'.input ∧
      s'.current.kind.EndsLine := by
  unfold bodyStep at h
  rw [Reader.run_bind_eq_ok] at h
  obtain ⟨ended, s₁, hloop, h⟩ := h
  cases ended with
  | true =>
    cases h
    exact ⟨rfl, loopEnd_sound hloop⟩
  | false =>
    rw [if_neg (by simp)] at h
    simp only [Reader.run_bind_eq_ok] at h
    obtain ⟨_, _, _, _, _, _, _, _, _, _, _, _, h⟩ := h
    cases h

theorem bodyStep_line_sound {binder : String} {lines lines' : List Line}
    (h : (bodyStep limit binder lines).run s = (.ok (.inl lines'), s')) :
    ∃ l, lines' = l :: lines ∧ s.input = lineSymbols l ++ ⟨.newline, ""⟩ :: s'.input ∧
      ∀ item ∈ l, item.Inline (·.Within 2 limit) := by
  unfold bodyStep at h
  rw [Reader.run_bind_eq_ok] at h
  obtain ⟨ended, s₁, hloop, h⟩ := h
  cases ended with
  | true => cases h
  | false =>
    rw [if_neg (by simp)] at h
    simp only [Reader.run_bind_eq_ok, run_require_eq_ok] at h
    obtain ⟨_, s₂, ⟨_, rfl⟩, l, _, hline, _, s₃, ⟨hmore, rfl⟩, _, s₄, hadvance, h⟩ := h
    cases h
    have hsame : s₂.input = s.input := loopEnd_sound hloop
    obtain ⟨hinput, hl⟩ := bodyLine_sound hline
    have hk : s₃.current.kind = .newline := by
      rcases kind_of_line_ok hline with hk | hk
      · exact hk
      · simp [hk] at hmore
    refine ⟨l, rfl, ?_, hl⟩
    rw [← hsame, hinput, advance_kind_sound hk (by simp) hadvance]

theorem bodyStep_end_complete {binder : String} {lines : List Line} {y : Symbol}
    (hinput : s.input = endSymbols ++ y :: ys) (hy : y.kind.EndsLine) :
    ∃ s', (bodyStep limit binder lines).run s = (.ok (.inr lines.reverse), s') ∧
      s'.input = y :: ys := by
  obtain ⟨s₁, hloop, hinput₁⟩ := loopEnd_complete hinput hy
  refine ⟨s₁, ?_, hinput₁⟩
  unfold bodyStep
  rw [Reader.run_bind_ok hloop]
  rfl

theorem bodyStep_line_complete {binder : String} {lines : List Line} {l : Line}
    (hl : ∀ item ∈ l, item.Inline (·.Within 2 limit))
    (hinput : s.input = lineSymbols l ++ ⟨.newline, ""⟩ :: ys) (hys : ys ≠ []) :
    ∃ s', (bodyStep limit binder lines).run s = (.ok (.inl (l :: lines)), s') ∧
      s'.input = ys := by
  obtain ⟨s₁, hloop, hinput₁⟩ := loopEnd_complete_line hl hinput
  rw [hinput] at hinput₁
  obtain ⟨s₂, hline, hinput₂⟩ :=
    line_complete (fun _ => failHere .nestedLoop) hl hinput₁ (.inl rfl)
  obtain ⟨s₃, hadvance, hinput₃⟩ := advance_complete hinput₂ hys
  have hmore : s₁.current.kind ≠ .endOfFile := by
    intro hend
    rw [ParseState.input_of_end hend] at hinput₁
    cases l with
    | nil => cases hinput₁
    | cons item items =>
      obtain ⟨x, xs, hsymbols, hx⟩ := item.symbols_eq_cons
      rw [lineSymbols, hsymbols] at hinput₁
      rw [← (List.cons.inj hinput₁).1] at hx
      simp at hx
  have hk₂ := ParseState.kind_of_input hinput₂
  refine ⟨s₃, ?_, hinput₃⟩
  unfold bodyStep bodyLine
  rw [Reader.run_bind_ok hloop, if_neg (by simp),
    Reader.run_bind_ok (run_require_ok (by simpa using hmore)), Reader.run_bind_ok hline,
    Reader.run_bind_ok (run_require_ok (by simp [hk₂])), Reader.run_bind_ok hadvance]
  rfl

/-- What is read of a loop's body behind its first lines, through the end of the loop. -/
def BodyRead (limit : Nat) (lines : List Line) (s : ParseState Lexed) (body : List Line)
    (s' : ParseState Lexed) : Prop :=
  ∃ more, body = lines.reverse ++ more ∧
    s.input = bodySymbols more ++ endSymbols ++ s'.input ∧
    (∀ l ∈ more, ∀ item ∈ l, item.Inline (·.Within 2 limit)) ∧
    s'.current.kind.EndsLine

theorem body_sound {binder : String} {body : List Line}
    (h : (Reader.repeatFrom [] (bodyStep limit binder) (bodyStep_shrinks limit _)).run s =
      (.ok body, s')) : BodyRead limit [] s body s' := by
  refine Reader.repeatFrom_ok_induction (P := BodyRead limit) _ ?_ ?_ h
  · intro lines s body s' hlast
    obtain ⟨rfl, hinput, hends⟩ := bodyStep_end_sound hlast
    exact ⟨[], by simp, hinput, by simp, hends⟩
  · intro lines s lines' s₁ body s' hround hrest
    obtain ⟨l, rfl, hinput, hl⟩ := bodyStep_line_sound hround
    obtain ⟨more, rfl, hinput₁, hmore, hends⟩ := hrest
    refine ⟨l :: more, by simp, ?_, ?_, hends⟩
    · rw [hinput, hinput₁, bodySymbols]
      simp
    · rw [List.forall_mem_cons]
      exact ⟨hl, hmore⟩

theorem body_complete (binder : String) {body : List Line} {y : Symbol}
    (hbody : ∀ l ∈ body, ∀ item ∈ l, item.Inline (·.Within 2 limit))
    (hinput : s.input = bodySymbols body ++ endSymbols ++ y :: ys)
    (hy : y.kind.EndsLine) :
    ∃ s', (Reader.repeatFrom [] (bodyStep limit binder) (bodyStep_shrinks limit _)).run s =
      (.ok body, s') ∧ s'.input = y :: ys := by
  suffices hloop : ∀ lines, ∃ s', (Reader.repeatFrom lines (bodyStep limit binder)
      (bodyStep_shrinks limit _)).run s = (.ok (lines.reverse ++ body), s') ∧
        s'.input = y :: ys from hloop []
  induction body generalizing s with
  | nil =>
    intro lines
    obtain ⟨s₁, hstep, hinput₁⟩ := bodyStep_end_complete hinput hy
    refine ⟨s₁, ?_, hinput₁⟩
    rw [Reader.run_repeatFrom_inr hstep, List.append_nil]
  | cons l body ih =>
    intro lines
    rw [List.forall_mem_cons] at hbody
    rw [bodySymbols, List.append_assoc, List.append_assoc, List.cons_append] at hinput
    obtain ⟨s₁, hstep, hinput₁⟩ := bodyStep_line_complete hbody.1 hinput (by simp)
    rw [← List.append_assoc] at hinput₁
    obtain ⟨s₂, hrest, hinput₂⟩ := ih hbody.2 hinput₁ (l :: lines)
    refine ⟨s₂, ?_, hinput₂⟩
    rw [Reader.run_repeatFrom_inl hstep, hrest]
    simp

/-- A loop whose body's lines hold items that may share them. -/
def IsLoop (limit : Nat) (item : Item) : Prop :=
  ∃ binder array body, item = .loop binder array body ∧
    ∀ l ∈ body, ∀ item ∈ l, item.Inline (·.Within 2 limit)

theorem loop_sound {item : Item} (h : (loop limit).run s = (.ok item, s')) :
    IsLoop limit item ∧ ⟨.openBlock, ""⟩ :: s.input = item.symbols ++ s'.input ∧
      s'.current.kind.EndsLine := by
  unfold loop at h
  simp only [Reader.run_bind_eq_ok, run_require_eq_ok] at h
  obtain ⟨t₁, s₁, hforeach, binder, s₂, hbinder, t₂, s₃, hin, array, s₄, harray, _, s₅, hclose,
    _, s₆, ⟨hline, rfl⟩, _, s₇, hadvance, body, s₈, hbody, h⟩ := h
  cases h
  obtain ⟨hk₁, hinput₁⟩ := expect_sound (by simp) hforeach
  obtain ⟨hk₂, hinput₂⟩ := expect_sound (by simp) hbinder
  obtain ⟨hk₃, hinput₃⟩ := expect_sound (by simp) hin
  obtain ⟨hk₄, hinput₄⟩ := expect_sound (by simp) harray
  rw [Token.symbol_of_kind hk₁ (by simp)] at hinput₁
  rw [Token.symbol_of_text hk₂] at hinput₂
  rw [Token.symbol_of_kind hk₃ (by simp)] at hinput₃
  rw [Token.symbol_of_text hk₄] at hinput₄
  have hinput₆ := advance_kind_sound (beq_iff_eq.1 hline) (by simp) hadvance
  obtain ⟨more, rfl, hinput₇, hmore, hends⟩ := body_sound hbody
  refine ⟨⟨_, _, _, rfl, hmore⟩, ?_, hends⟩
  rw [hinput₁, hinput₂, hinput₃, hinput₄, closeBlock_sound hclose, hinput₆, hinput₇,
    loop_symbols_append]

theorem loop_complete {binder array : String} {body : List Line} {y : Symbol}
    (hbody : ∀ l ∈ body, ∀ item ∈ l, item.Inline (·.Within 2 limit))
    (hinput : s.input = ⟨.foreachWord, ""⟩ :: ⟨.text, binder⟩ :: ⟨.inWord, ""⟩ :: ⟨.text, array⟩ ::
      ⟨.closeBlock, ""⟩ :: ⟨.newline, ""⟩ :: (bodySymbols body ++ endSymbols ++ y :: ys))
    (hy : y.kind.EndsLine) :
    ∃ s', (loop limit).run s = (.ok (.loop binder array body), s') ∧ s'.input = y :: ys := by
  obtain ⟨t₁, s₁, hforeach, -, hinput₁⟩ := expect_complete hinput (by simp)
  obtain ⟨t₂, s₂, hbinder, hsymbol₂, hinput₂⟩ := expect_complete hinput₁ (by simp)
  obtain ⟨t₃, s₃, hin, -, hinput₃⟩ := expect_complete hinput₂ (by simp)
  obtain ⟨t₄, s₄, harray, hsymbol₄, hinput₄⟩ := expect_complete hinput₃ (by simp)
  obtain ⟨s₅, hclose, hinput₅⟩ := closeBlock_complete hinput₄ (by simp)
  obtain ⟨s₆, hadvance, hinput₆⟩ := advance_complete hinput₅ (by simp)
  obtain ⟨s₇, hbody, hinput₇⟩ := body_complete binder hbody hinput₆ hy
  obtain ⟨-, rfl⟩ := Token.lexeme_of_symbol hsymbol₂
  obtain ⟨-, rfl⟩ := Token.lexeme_of_symbol hsymbol₄
  have hk₅ := ParseState.kind_of_input hinput₅
  refine ⟨s₇, ?_, hinput₇⟩
  unfold loop
  rw [Reader.run_bind_ok hforeach, Reader.run_bind_ok hbinder, Reader.run_bind_ok hin,
    Reader.run_bind_ok harray, Reader.run_bind_ok hclose,
    Reader.run_bind_ok (run_require_ok (by simp [hk₅])), Reader.run_bind_ok hadvance,
    Reader.run_bind_ok hbody]
  rfl

end Loop

section Document

theorem topLine_sound {l : Line} (h : (topLine limit).run s = (.ok l, s')) :
    s.input = lineSymbols l ++ s'.input ∧ TopLine (·.Within 2 limit) l := by
  have hloop : LineRead limit (IsLoop limit) [] s l s' := by
    refine line_sound _ (fun {atStart _ _ _} hrun => ?_) h
    cases atStart with
    | true => exact ⟨rfl, loop_sound hrun⟩
    | false => exact absurd hrun failHere_ne_ok
  obtain ⟨more, rfl, hinput, hmore⟩ := hloop
  refine ⟨hinput, hmore.imp id ?_⟩
  rintro ⟨-, -, rfl, binder, array, body, rfl, hbody⟩
  exact ⟨binder, array, body, rfl, hbody⟩

theorem topLine_complete {l : Line} {y : Symbol} (hl : TopLine (·.Within 2 limit) l)
    (hinput : s.input = lineSymbols l ++ y :: ys) (hy : y.kind.EndsLine) :
    ∃ s', (topLine limit).run s = (.ok l, s') ∧ s'.input = y :: ys := by
  rcases hl with hl | ⟨binder, array, body, rfl, hbody⟩
  · exact line_complete _ hl hinput hy
  · rw [lineSymbols, lineSymbols, List.append_nil, loop_symbols_append] at hinput
    obtain ⟨s₁, henter, hinput₁⟩ := advance_complete hinput (by simp)
    obtain ⟨s₂, hloop, hinput₂⟩ := loop_complete hbody hinput₁ hy
    have hk₁ := ParseState.kind_of_input hinput₁
    have hk₂ := ParseState.kind_of_input hinput₂
    have hk := ParseState.kind_of_input hinput
    have hstep := lineStep_loop_complete limit (fun atStart => if atStart then loop limit
      else failHere (.misplacedLoop .afterContent)) [] hk hk₁ henter hloop
    refine ⟨s₂, ?_, hinput₂⟩
    unfold topLine line
    rw [Reader.run_repeatFrom_inl hstep,
      Reader.run_repeatFrom_inr (lineStep_last_complete (by rw [hk₂]; exact hy))]
    rfl

/-- Only a single empty line has nothing before the end of the text. -/
theorem eq_of_linesSymbols_end {l : Line} {lines : List Line} {xs : List Symbol}
    (h : ⟨.endOfFile, ""⟩ :: xs = linesSymbols (l :: lines)) : l = [] ∧ lines = [] := by
  cases lines with
  | nil => exact ⟨eq_nil_of_lineSymbols (.inr rfl) h, rfl⟩
  | cons l' lines =>
    have hl : l = [] := eq_nil_of_lineSymbols (.inr rfl) h
    rw [linesSymbols_cons (by simp), hl] at h
    cases h

/-- What is read of a template behind its first lines. -/
def LinesRead (limit : Nat) (lines : List Line) (s : ParseState Lexed) (all : List Line) : Prop :=
  ∃ more, all = lines.reverse ++ more ∧ more ≠ [] ∧ s.input = linesSymbols more ∧
    ∀ l ∈ more, TopLine (·.Within 2 limit) l

theorem documentStep_last_sound {lines all : List Line}
    (h : (documentStep limit lines).run s = (.ok (.inr all), s')) :
    LinesRead limit lines s all := by
  unfold documentStep at h
  rw [Reader.run_bind_eq_ok] at h
  obtain ⟨l, s₁, hline, h⟩ := h
  rw [Reader.run_bind_ok (run_kind s₁)] at h
  obtain ⟨hinput, hl⟩ := topLine_sound hline
  split at h
  · rename_i hend
    cases h
    rw [ParseState.input_of_end hend] at hinput
    exact ⟨[l], List.reverse_cons, by simp, hinput, by simpa using hl⟩
  · rw [Reader.run_bind_eq_ok] at h
    obtain ⟨t, s₂, hnewline, h⟩ := h
    rw [Reader.run_bind_ok (run_kind s₂)] at h
    obtain ⟨hk, hinput₁⟩ := expect_sound (by simp) hnewline
    rw [Token.symbol_of_kind hk (by simp)] at hinput₁
    split at h
    · rename_i hend
      cases h
      rw [hinput₁, ParseState.input_of_end hend] at hinput
      refine ⟨[l, []], by simp, by simp, hinput, ?_⟩
      rw [List.forall_mem_cons, List.forall_mem_singleton]
      exact ⟨hl, .inl (by simp)⟩
    · cases h

theorem documentStep_line_sound {lines lines' : List Line}
    (h : (documentStep limit lines).run s = (.ok (.inl lines'), s')) :
    ∃ l, lines' = l :: lines ∧ s.input = lineSymbols l ++ ⟨.newline, ""⟩ :: s'.input ∧
      TopLine (·.Within 2 limit) l := by
  unfold documentStep at h
  rw [Reader.run_bind_eq_ok] at h
  obtain ⟨l, s₁, hline, h⟩ := h
  rw [Reader.run_bind_ok (run_kind s₁)] at h
  obtain ⟨hinput, hl⟩ := topLine_sound hline
  split at h
  · cases h
  · rw [Reader.run_bind_eq_ok] at h
    obtain ⟨t, s₂, hnewline, h⟩ := h
    rw [Reader.run_bind_ok (run_kind s₂)] at h
    obtain ⟨hk, hinput₁⟩ := expect_sound (by simp) hnewline
    rw [Token.symbol_of_kind hk (by simp)] at hinput₁
    split at h
    · cases h
    · cases h
      rw [hinput₁] at hinput
      exact ⟨l, rfl, hinput, hl⟩

theorem documentStep_last_complete (lines : List Line) {l : Line}
    (hl : TopLine (·.Within 2 limit) l) (hinput : s.input = linesSymbols [l]) :
    ∃ s', (documentStep limit lines).run s = (.ok (.inr (l :: lines).reverse), s') := by
  obtain ⟨s₁, hline, hinput₁⟩ := topLine_complete hl hinput (.inr rfl)
  have hk := ParseState.kind_of_input hinput₁
  refine ⟨s₁, ?_⟩
  unfold documentStep
  rw [Reader.run_bind_ok hline, Reader.run_bind_ok (run_kind s₁), if_pos hk]
  rfl

/-- Behind a line end, either an empty last line is left or more lines to read. -/
theorem documentStep_line_complete (lines : List Line) {l l' : Line} {more : List Line}
    (hl : TopLine (·.Within 2 limit) l) (hinput : s.input = linesSymbols (l :: l' :: more)) :
    ∃ s', s'.input = linesSymbols (l' :: more) ∧
      ((documentStep limit lines).run s = (.ok (.inl (l :: lines)), s') ∨
        l' = [] ∧ more = [] ∧
          (documentStep limit lines).run s = (.ok (.inr ([] :: l :: lines).reverse), s')) := by
  rw [linesSymbols_cons (by simp)] at hinput
  obtain ⟨s₁, hline, hinput₁⟩ := topLine_complete hl hinput (.inl rfl)
  have hne : linesSymbols (l' :: more) ≠ [] := by
    cases more <;> simp [linesSymbols]
  obtain ⟨t, s₂, hnewline, -, hinput₂⟩ := expect_complete hinput₁ hne
  have hk₁ := ParseState.kind_of_input hinput₁
  refine ⟨s₂, hinput₂, ?_⟩
  unfold documentStep
  rw [Reader.run_bind_ok hline, Reader.run_bind_ok (run_kind s₁), if_neg (by simp [hk₁]),
    Reader.run_bind_ok hnewline, Reader.run_bind_ok (run_kind s₂)]
  by_cases hend : s₂.current.kind = .endOfFile
  · rw [if_pos hend]
    rw [ParseState.input_of_end hend] at hinput₂
    obtain ⟨rfl, rfl⟩ := eq_of_linesSymbols_end hinput₂
    exact .inr ⟨rfl, rfl, rfl⟩
  · rw [if_neg hend]
    exact .inl rfl

theorem lines_sound {all : List Line}
    (h : (Reader.repeatFrom [] (documentStep limit) (documentStep_shrinks limit)).run s =
      (.ok all, s')) : LinesRead limit [] s all := by
  refine Reader.repeatFrom_ok_induction (P := fun lines s all _ => LinesRead limit lines s all)
    _ ?_ ?_ h
  · intro lines s all s' hlast
    exact documentStep_last_sound hlast
  · intro lines s lines' s₁ all s' hround hrest
    obtain ⟨l, rfl, hinput, hl⟩ := documentStep_line_sound hround
    obtain ⟨more, rfl, hne, hinput₁, hmore⟩ := hrest
    refine ⟨l :: more, by simp, by simp, ?_, ?_⟩
    · rw [hinput, hinput₁, linesSymbols_cons hne]
    · rw [List.forall_mem_cons]
      exact ⟨hl, hmore⟩

theorem lines_complete {all : List Line} (hne : all ≠ [])
    (hall : ∀ l ∈ all, TopLine (·.Within 2 limit) l) (hinput : s.input = linesSymbols all) :
    ∃ s', (Reader.repeatFrom [] (documentStep limit) (documentStep_shrinks limit)).run s =
      (.ok all, s') := by
  suffices hloop : ∀ lines, ∃ s', (Reader.repeatFrom lines (documentStep limit)
      (documentStep_shrinks limit)).run s = (.ok (lines.reverse ++ all), s') from hloop []
  induction all generalizing s with
  | nil => contradiction
  | cons l all ih =>
    intro lines
    rw [List.forall_mem_cons] at hall
    cases all with
    | nil =>
      obtain ⟨s₁, hstep⟩ := documentStep_last_complete lines hall.1 hinput
      exact ⟨s₁, by rw [Reader.run_repeatFrom_inr hstep, List.reverse_cons]⟩
    | cons l' all =>
      obtain ⟨s₁, hinput₁, hstep | ⟨rfl, rfl, hstep⟩⟩ :=
        documentStep_line_complete lines hall.1 hinput
      · obtain ⟨s₂, hrest⟩ := ih (by simp) hall.2 hinput₁ (l :: lines)
        refine ⟨s₂, ?_⟩
        rw [Reader.run_repeatFrom_inl hstep, hrest]
        simp
      · refine ⟨s₁, ?_⟩
        rw [Reader.run_repeatFrom_inr hstep]
        simp

/-- A template is read as the tree of the grammar that its symbols stand for, if that tree fits into
the depth. -/
theorem document_ok_iff {d : Document} :
    ((document limit).run s).1 = .ok d ↔
      d.Shaped (·.Within 2 limit) ∧ s.input = d.symbols := by
  unfold document
  rw [Reader.run_bind_ok (run_kind s)]
  by_cases hend : s.current.kind = .endOfFile
  · rw [if_pos hend, ParseState.input_of_end hend]
    constructor
    · intro h
      cases h
      exact ⟨⟨by simp, by simp⟩, rfl⟩
    · rintro ⟨⟨hne, -⟩, hsymbols⟩
      obtain ⟨lines⟩ := d
      cases lines with
      | nil => rfl
      | cons l lines =>
        obtain ⟨rfl, rfl⟩ := eq_of_linesSymbols_end hsymbols
        contradiction
  · rw [if_neg hend]
    constructor
    · intro h
      rw [Reader.run_bind] at h
      split at h
      · rename_i all s' hlines
        cases h
        obtain ⟨more, rfl, hne, hinput, hall⟩ := lines_sound hlines
        refine ⟨⟨?_, hall⟩, hinput⟩
        rintro rfl
        exact hend (ParseState.kind_of_input hinput)
      · cases h
    · rintro ⟨⟨-, hall⟩, hinput⟩
      have hne : d.lines ≠ [] := by
        intro hnil
        rw [Document.symbols, hnil] at hinput
        exact hend (ParseState.kind_of_input hinput)
      obtain ⟨s', hlines⟩ := lines_complete hne hall hinput
      rw [Reader.run_bind_ok hlines]
      rfl

end Document

end Parser
end Stencil
