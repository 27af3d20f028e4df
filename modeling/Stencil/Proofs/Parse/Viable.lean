import Stencil.Proofs.Parse.Begun
import Stencil.Proofs.Parse.LineEnds

/-! Templates that are begun. Wherever the reader of lines stands, what it has passed can be gone on
with to a whole template, and some text is cut into what is missing. -/
open Stencil.Expr (Begun)
open Stencil.Parser (Tells Blames Reaches Forward endSymbols)

namespace Stencil

/-- Symbols that some text is cut into to its end, if it stands behind a text in a mode. -/
def Writable (mode : Mode) (ys : List Symbol) : Prop :=
  ∃ text limits, mode.HaltsAt text ∧ Cuts limits mode text ys .literal []

namespace Writable

variable {mode : Mode} {cs : List Char} {xs ys : List Symbol}

theorem nil : Writable .literal [] := ⟨[], {}, .nil, .nil⟩

/-- Words inside a block, and its end. -/
theorem block {limits : Limits} {words : List (List Char)}
    (h : List.Forall₂ (Spells limits) words ys) : Writable .block (ys ++ [⟨.closeBlock, ""⟩]) := by
  have hclose : Cuts limits .block (' ' :: ['}', '}']) [⟨.closeBlock, ""⟩] .literal [] :=
    .cons (x := .closeBlock) rfl rfl (by simp) .nil
  refine ⟨words.flatMap (' ' :: ·) ++ ' ' :: ['}', '}'], limits, ?_, (Cuts.words h).append hclose⟩
  -- each word stands behind a blank, and so does the end
  cases words <;> exact .cons rfl

theorem newline (h : Writable mode xs) (hcs : IsCut cs ys) :
    Writable mode (xs ++ ⟨.newline, ""⟩ :: ys) := by
  obtain ⟨text, limits, hhalts, htext⟩ := h
  obtain ⟨limits', hcs⟩ := hcs
  refine ⟨text ++ '\n' :: cs, limits.sup limits', ?_,
    (htext.mono (Nat.le_max_left _ _)).append_newline (hcs.mono (Nat.le_max_right _ _))⟩
  cases text with
  | nil => exact .newline
  | cons c text => exact .cons (hhalts c rfl)

end Writable

theorem Closing.spelled {ys : List Symbol} (h : Closing ys) :
    ∃ words, List.Forall₂ (Spells {}) words ys := by
  induction ys with
  | nil => exact ⟨[], .nil⟩
  | cons y ys ih =>
    obtain ⟨hy, hys⟩ := List.forall_mem_cons.1 h
    obtain ⟨words, hwords⟩ := ih hys
    rcases hy with rfl | rfl
    · have hone : Spells {} ['1'] ⟨.number (.int 1), ""⟩ :=
        ⟨⟨_, _, rfl, rfl⟩, fun _ => rfl, fun _ => rfl, rfl⟩
      exact ⟨['1'] :: words, .cons hone hwords⟩
    · exact ⟨")".toList :: words, .cons .rightParen hwords⟩

/-- Symbols that can be gone on with to others that have a property. -/
def Completes (P : List Symbol → Prop) (mode : Mode) (xs : List Symbol) : Prop :=
  ∃ ys, P (xs ++ ys) ∧ Writable (mode.behind xs) ys

namespace Completes

variable {P Q : List Symbol → Prop} {mode mode' : Mode} {cs : List Char} {xs ys : List Symbol}

theorem whole (h : P xs) (hmode : mode.behind xs = .literal) : Completes P mode xs := by
  refine ⟨[], by rwa [List.append_nil], ?_⟩
  rw [hmode]
  exact .nil

theorem mono (h : Completes P mode xs) (hPQ : ∀ xs, P xs → Q xs) : Completes Q mode xs := by
  obtain ⟨ys, hys, hwritable⟩ := h
  exact ⟨ys, hPQ _ hys, hwritable⟩

theorem append (h : Completes P mode' ys) (hmode : mode.behind xs = mode')
    (hPQ : ∀ ys, P ys → Q (xs ++ ys)) : Completes Q mode (xs ++ ys) := by
  obtain ⟨zs, hzs, hwritable⟩ := h
  refine ⟨zs, ?_, ?_⟩
  · rw [List.append_assoc]
    exact hPQ _ hzs
  · rwa [Mode.behind_append, hmode]

/-- Behind a line, what is begun is gone on with as before. -/
theorem nextLine {l : Line} (h : Completes P .literal xs)
    (hPQ : ∀ ys, P ys → Q (lineSymbols l ++ ⟨.newline, ""⟩ :: ys)) :
    Completes Q .literal (lineSymbols l ++ ⟨.newline, ""⟩ :: xs) := by
  have hmode : Mode.literal.behind (lineSymbols l ++ [⟨.newline, ""⟩]) = .literal := by
    rw [Mode.behind_append, behind_lineSymbols]
    rfl
  rw [List.append_cons]
  refine h.append hmode fun ys hys => ?_
  rw [← List.append_cons]
  exact hPQ ys hys

theorem newline (h : Completes P mode xs) (hcs : IsCut cs ys)
    (hPQ : ∀ xs, P xs → Q (xs ++ ⟨.newline, ""⟩ :: ys)) : Completes Q mode xs := by
  obtain ⟨zs, hzs, hwritable⟩ := h
  refine ⟨zs ++ ⟨.newline, ""⟩ :: ys, ?_, hwritable.newline hcs⟩
  rw [← List.append_assoc]
  exact hPQ _ hzs

end Completes

/-- The symbols of what is left of a loop behind its first lines. -/
def BodyRest (xs : List Symbol) : Prop :=
  ∃ body : List Line, (∀ l ∈ body, ∀ item ∈ l, item.Inline Expr.Canonical) ∧
    bodySymbols body ++ endSymbols = xs

section Lines

variable {xs ys : List Symbol}

/-- A line that may still turn out to be any line of items. -/
def LineBegun (xs : List Symbol) : Prop := Completes InlineLine .literal xs

theorem LineBegun.nil : LineBegun [] := .whole ⟨[], by simp, rfl⟩ rfl

theorem LineBegun.item {item : Item} (hitem : item.Inline Expr.Canonical) (h : LineBegun xs) :
    LineBegun (item.symbols ++ xs) := by
  refine Completes.append h item.behind_symbols ?_
  rintro ys ⟨l, hl, rfl⟩
  exact ⟨item :: l, List.forall_mem_cons.2 ⟨hitem, hl⟩, rfl⟩

theorem LineBegun.block (h : Begun 2 xs) : LineBegun (⟨.openBlock, ""⟩ :: xs) := by
  obtain ⟨ys, e, hys, he, -, hsymbols⟩ := h
  have hinner : ∀ x ∈ xs, x.kind.Inner := fun x hx =>
    e.symbols_inner x (by rw [hsymbols]; exact List.mem_append_left _ hx)
  have hmode : Mode.literal.behind (⟨.openBlock, ""⟩ :: xs) = .block := Mode.behind_of_inner hinner
  obtain ⟨words, hwords⟩ := hys.spelled
  refine ⟨ys ++ [⟨.closeBlock, ""⟩], ⟨[.block e], by simpa [Item.Inline] using he, ?_⟩, ?_⟩
  · simp [lineSymbols, Item.symbols, hsymbols]
  · rw [hmode]
    exact .block hwords

theorem LineBegun.whole {l : Line} (hl : ∀ item ∈ l, item.Inline Expr.Canonical) :
    LineBegun (lineSymbols l) :=
  Completes.whole ⟨l, hl, rfl⟩ (behind_lineSymbols l)

def BodyBegun (xs : List Symbol) : Prop := Completes BodyRest .literal xs

/-- The loop may end behind a line. -/
theorem LineBegun.body (h : LineBegun xs) : BodyBegun xs := by
  refine Completes.newline h isCut_footChars.1 ?_
  rintro xs ⟨l, hl, rfl⟩
  exact ⟨[l], by simpa using hl, by simp [bodySymbols]⟩

theorem BodyBegun.line {l : Line} (hl : ∀ item ∈ l, item.Inline Expr.Canonical)
    (h : BodyBegun xs) : BodyBegun (lineSymbols l ++ ⟨.newline, ""⟩ :: xs) := by
  refine Completes.nextLine h ?_
  rintro ys ⟨body, hbody, rfl⟩
  exact ⟨l :: body, List.forall_mem_cons.2 ⟨hl, hbody⟩, by simp [bodySymbols]⟩

theorem BodyBegun.endOpened : BodyBegun [⟨.openBlock, ""⟩, ⟨.endforeachWord, ""⟩] := by
  have hnone : List.Forall₂ (Spells {}) [] [] := .nil
  exact ⟨[⟨.closeBlock, ""⟩], ⟨[], by simp, rfl⟩, Writable.block hnone⟩

theorem BodyBegun.ended : BodyBegun endSymbols := Completes.whole ⟨[], by simp, rfl⟩ rfl

def OuterBegun (xs : List Symbol) : Prop := Completes OuterLine .literal xs

theorem LineBegun.outer (h : LineBegun xs) : OuterBegun xs :=
  Completes.mono h fun _ => InlineLine.outer

/-- What is begun behind the opening braces of a line may still turn out to be a loop. -/
def LoopBegun (xs : List Symbol) : Prop :=
  Completes (fun ys => OuterLine (⟨.openBlock, ""⟩ :: ys)) .block xs

theorem LoopBegun.outer (h : LoopBegun xs) : OuterBegun ([⟨.openBlock, ""⟩] ++ xs) :=
  Completes.append h rfl fun _ hys => hys

/-- The words of a loop's head. -/
def headWords (binder array : String) : List Symbol :=
  [⟨.foreachWord, ""⟩, ⟨.text, binder⟩, ⟨.inWord, ""⟩, ⟨.text, array⟩]

theorem headWords_inner (binder array : String) : ∀ x ∈ headWords binder array, x.kind.Inner := by
  simp [headWords, TokenKind.Inner]

theorem outerLine_loop (binder array : String) (body : List Line)
    (hbody : ∀ l ∈ body, ∀ item ∈ l, item.Inline Expr.Canonical) :
    OuterLine (⟨.openBlock, ""⟩ :: (headWords binder array ++
      ⟨.closeBlock, ""⟩ :: ⟨.newline, ""⟩ :: (bodySymbols body ++ endSymbols))) := by
  refine ⟨_, .inr ⟨binder, array, body, rfl, hbody⟩, ?_⟩
  rw [lineSymbols_loop]
  simp [headSymbols, headWords]

theorem LoopBegun.words {limits : Limits} {words : List (List Char)} (binder array : String)
    (hwords : List.Forall₂ (Spells limits) words ys) (h : xs ++ ys = headWords binder array) :
    LoopBegun xs := by
  have hinner : ∀ x ∈ xs, x.kind.Inner := fun x hx =>
    headWords_inner binder array x (by rw [← h]; exact List.mem_append_left _ hx)
  refine ⟨ys ++ [⟨.closeBlock, ""⟩] ++ ⟨.newline, ""⟩ :: endSymbols, ?_, ?_⟩
  · have hloop := outerLine_loop binder array [] (by simp)
    rw [← h] at hloop
    simpa [bodySymbols] using hloop
  · rw [Mode.behind_of_inner hinner]
    exact (Writable.block hwords).newline isCut_footChars.1

theorem LoopBegun.closed (binder array : String) :
    LoopBegun (headWords binder array ++ [⟨.closeBlock, ""⟩]) := by
  refine ⟨⟨.newline, ""⟩ :: endSymbols, ?_, Writable.nil.newline isCut_footChars.1⟩
  have hloop := outerLine_loop binder array [] (by simp)
  simpa [bodySymbols] using hloop

theorem LoopBegun.body (binder array : String) (h : BodyBegun xs) :
    LoopBegun (headWords binder array ++ ⟨.closeBlock, ""⟩ :: ⟨.newline, ""⟩ :: xs) := by
  have hsplit (ys : List Symbol) : headWords binder array ++ ⟨.closeBlock, ""⟩ ::
      ⟨.newline, ""⟩ :: ys = headWords binder array ++ [⟨.closeBlock, ""⟩, ⟨.newline, ""⟩] ++ ys := by
    simp
  rw [hsplit]
  refine Completes.append h rfl ?_
  rintro ys ⟨body, hbody, rfl⟩
  rw [← hsplit]
  exact outerLine_loop binder array body hbody

def TemplateBegun (xs : List Symbol) : Prop := Completes Whole .literal xs

theorem OuterBegun.template (h : OuterBegun xs) : TemplateBegun xs :=
  Completes.mono h fun _ => .line

theorem TemplateBegun.line {l : Line} (hl : TopLine Expr.Canonical l) (h : TemplateBegun xs) :
    TemplateBegun (lineSymbols l ++ ⟨.newline, ""⟩ :: xs) :=
  Completes.nextLine h fun _ => .cons ⟨l, hl, rfl⟩

end Lines

theorem Item.Inline.canonical {depth : Nat} {item : Item} (h : item.Inline (·.Within 2 depth)) :
    item.Inline Expr.Canonical :=
  h.of_exprs fun e he => (h.exprs e he).canonical

namespace Parser

variable {limit : Nat} {s : ParseState Lexed} {V : List Symbol → Prop}

theorem blockItem_blames {onLoop : Parser Lexed Item} (hV : ∀ xs, LineBegun xs → V xs)
    (hloop : Blames s onLoop s fun xs => V (⟨.openBlock, ""⟩ :: xs)) :
    Blames s (blockItem limit onLoop) s fun xs => V (⟨.openBlock, ""⟩ :: xs) := by
  have hblock : ∀ xs, Begun 2 xs → V (⟨.openBlock, ""⟩ :: xs) := fun xs hxs =>
    hV _ (.block hxs)
  have hsum : Locates (sum limit limit) 2 := sum_locates limit limit
  unfold blockItem expression
  refine .of_run_eq (Reader.run_bind_ok (run_kind s) _) ?_
  split
  · exact .failHere fun _ => hblock [] (.nil 2)
  · exact hloop
  · refine ((hsum.blames s).mono fun _ => hblock).bind fun e s₁ hok => ?_
    obtain ⟨hreach, he, hrank⟩ := hsum.sound hok
    refine .behind hreach (.closeBlock_bind (fun _ => ?_) fun s₂ => .of_ok (Reader.run_pure _ s₂))
    rw [List.append_nil]
    exact hblock _ (.whole he hrank)

theorem lineStep_blames {onLoop : Bool → Parser Lexed Item} (items : List Item)
    (hV : ∀ xs, LineBegun xs → V xs)
    (hloop : ∀ s, Blames s (onLoop items.isEmpty) s fun xs => V (⟨.openBlock, ""⟩ :: xs)) :
    Blames s (lineStep limit onLoop items) s V := by
  unfold lineStep
  refine .of_run_eq (Reader.run_bind_ok (run_current s) _) ?_
  split
  · exact .of_ok (Reader.run_pure _ s)
  · exact .of_ok (Reader.run_pure _ s)
  · rename_i hopen
    refine .enterBlock_bind hopen fun s₁ _ => ?_
    exact (blockItem_blames hV (hloop s₁)).bind fun item s₂ _ => .of_ok (Reader.run_pure _ s₂)
  · exact Tells.advance.bind fun _ s₁ _ => .of_ok (Reader.run_pure _ s₁)
  · exact .failHere fun _ => hV [] .nil

theorem failHere_forward {α : Type} (cause : SyntaxError.Cause) :
    Forward (failHere cause : Parser Lexed α) :=
  ⟨fun h => Simulation.failHere_agree h cause⟩

section Line

variable {onLoop : Bool → Parser Lexed Item} {cause : SyntaxError.Cause}

theorem lineStep_reaches (hforward : ∀ atStart, Forward (onLoop atStart)) {items items' : List Item}
    {s' : ParseState Lexed} (ok : (lineStep limit onLoop items).run s = (.ok (.inl items'), s')) :
    ∃ item, items' = item :: items ∧
      ((item.Inline Expr.Canonical ∧ Reaches s item.symbols s') ∨
        ∃ s₁, (onLoop items.isEmpty).run s₁ = (.ok item, s')) := by
  have hstep : Forward (lineStep limit onLoop items) :=
    ⟨fun h => Simulation.lineStep_agree (.refl limit limit) h
      (fun atStart _ _ _ h _ => (hforward atStart).agree h) items⟩
  obtain ⟨item, rfl, ⟨hitem, hinput⟩ | ⟨s₁, -, hloop⟩⟩ := lineStep_item_sound ok
  · exact ⟨item, rfl, .inl ⟨hitem.canonical, .of_sound hstep ok hinput⟩⟩
  · exact ⟨item, rfl, .inr ⟨s₁, hloop⟩⟩

/-- Behind the first item no loop may start. -/
theorem laterItems_blames (hforward : ∀ atStart, Forward (onLoop atStart))
    (hlater : onLoop false = failHere cause) {items : List Item} (hitems : items ≠ []) :
    Blames s (Reader.repeatFrom items (lineStep limit onLoop) (lineStep_shrinks limit onLoop)) s
      LineBegun := by
  have hloop {items : List Item} (hitems : items ≠ []) : onLoop items.isEmpty = failHere cause := by
    rw [← hlater, List.isEmpty_eq_false_iff.2 hitems]
  refine Tells.repeatFrom (I := (· ≠ [])) (fun items s hitems => ?_)
    (fun items s items' s₁ hitems hok => ?_) hitems
  · refine lineStep_blames items (fun _ h => h) fun s₁ => ?_
    rw [hloop hitems]
    exact .failHere fun _ => .block (.nil 2)
  · obtain ⟨item, rfl, ⟨hitem, hreach⟩ | ⟨s₂, hfail⟩⟩ := lineStep_reaches hforward hok
    · exact ⟨by simp, _, hreach, fun _ ys => .item hitem⟩
    · rw [hloop hitems] at hfail
      exact absurd hfail failHere_ne_ok

theorem line_blames (hforward : ∀ atStart, Forward (onLoop atStart))
    (hV : ∀ xs, LineBegun xs → V xs)
    (hstart : ∀ s, Blames s (onLoop true) s fun xs => V (⟨.openBlock, ""⟩ :: xs))
    (hends : ∀ {s item s'}, (onLoop true).run s = (.ok item, s') → s'.current.kind.EndsLine)
    (hlater : onLoop false = failHere cause) : Blames s (line limit onLoop) s V := by
  unfold line
  rw [Reader.repeatFrom_eq]
  refine (lineStep_blames [] hV hstart).bind fun next s₁ hok => ?_
  cases next with
  | inl items =>
    obtain ⟨item, rfl, ⟨hitem, hreach⟩ | ⟨s₂, hloop⟩⟩ := lineStep_reaches hforward hok
    · have hrest : Blames s₁ (Reader.repeatFrom [item] (lineStep limit onLoop) _) s₁ LineBegun :=
        laterItems_blames hforward hlater (List.cons_ne_nil item [])
      exact (hrest.mono fun _ ys hys => hV _ (.item hitem hys)).behind hreach
    · exact .of_ok (Reader.run_repeatFrom_inr (lineStep_last_complete (hends hloop)))
  | inr l => exact .of_ok (Reader.run_pure _ s₁)

end Line

section Loop

theorem bodyLine_blames (limit : Nat) (s : ParseState Lexed) :
    Blames s (bodyLine limit) s LineBegun :=
  line_blames (fun _ => failHere_forward _) (fun _ h => h)
    (fun _ => .failHere fun _ => .block (.nil 2)) (fun hfail => absurd hfail failHere_ne_ok) rfl

theorem bodyLine_reaches {l : Line} {s' : ParseState Lexed}
    (ok : (bodyLine limit).run s = (.ok l, s')) :
    Reaches s (lineSymbols l) s' ∧ ∀ item ∈ l, item.Inline Expr.Canonical := by
  have hforward : Forward (bodyLine limit) :=
    ⟨fun h => Simulation.line_agree (.refl limit limit) h
      fun _ _ _ _ h _ => Simulation.failHere_agree h _⟩
  obtain ⟨hinput, hl⟩ := bodyLine_sound ok
  exact ⟨.of_sound hforward ok hinput, fun item hitem => (hl item hitem).canonical⟩

theorem loopEnd_blames (s : ParseState Lexed) : Blames s loopEnd s BodyBegun := by
  unfold loopEnd
  refine .of_run_eq (Reader.run_bind_ok (run_kind s) _) ?_
  split
  · rename_i hopen
    refine Tells.lookahead.bind fun inside s₁ hlook => ?_
    have hcurrent : s₁.current.kind = .openBlock := by rw [current_of_lookahead hlook, hopen]
    obtain ⟨hsame, back, htokens⟩ := lookahead_tokens (by simp [hopen]) hlook
    split
    · rename_i hword
      have hreach : Reaches s [] s₁ := ⟨[], hsame.symm, rfl⟩
      refine .behind hreach (.enterBlock_bind hcurrent fun s₂ henter => ?_)
      have hinside : s₂.current.kind = .endforeachWord := by
        rw [current_of_reread hlook henter, hword]
      refine .advance_bind (Token.symbol_of_kind hinside (by simp)) (by simp) fun s₃ _ => ?_
      refine .closeBlock_bind (fun _ => BodyBegun.endOpened) fun s₄ => ?_
      exact .require_bind (fun _ _ => BodyBegun.ended) fun _ => .of_ok (Reader.run_pure _ s₄)
    · refine .failAt [s.current] htokens fun _ => ?_
      rw [List.map_singleton, Token.symbol_of_kind hopen (by simp)]
      exact LineBegun.body (.block (.nil 2))
    · exact .of_ok (Reader.run_pure _ s₁)
  · exact .of_ok (Reader.run_pure _ s)

theorem loopEnd_reaches {s' : ParseState Lexed} (ok : loopEnd.run s = (.ok false, s')) :
    Reaches s [] s' :=
  .of_sound ⟨Simulation.loopEnd_agree⟩ ok (loopEnd_sound ok).symm

theorem bodyStep_blames (binder : String) (lines : List Line) (s : ParseState Lexed) :
    Blames s (bodyStep limit binder lines) s BodyBegun := by
  unfold bodyStep
  refine (loopEnd_blames s).bind fun ended s₁ hended => ?_
  cases ended with
  | true => exact .of_ok (Reader.run_pure _ s₁)
  | false =>
    rw [if_neg (by simp)]
    refine .behind (loopEnd_reaches hended) (.require_bind (fun _ _ => LineBegun.body .nil) fun _ => ?_)
    refine ((bodyLine_blames limit s₁).mono fun _ _ => LineBegun.body).bind fun l s₂ hline => ?_
    obtain ⟨hreach, hl⟩ := bodyLine_reaches hline
    refine .behind hreach (.require_bind (fun _ _ => ?_) fun _ => ?_)
    · rw [List.append_nil]
      exact LineBegun.body (.whole hl)
    · exact Tells.advance.bind fun _ s₃ _ => .of_ok (Reader.run_pure _ s₃)

theorem bodyStep_reaches {binder : String} {lines lines' : List Line} {s' : ParseState Lexed}
    (ok : (bodyStep limit binder lines).run s = (.ok (.inl lines'), s')) :
    ∃ l : Line, (∀ item ∈ l, item.Inline Expr.Canonical) ∧
      Reaches s (lineSymbols l ++ [⟨.newline, ""⟩]) s' := by
  obtain ⟨l, -, hinput, hl⟩ := bodyStep_line_sound ok
  have hforward : Forward (bodyStep limit binder lines) :=
    ⟨Simulation.bodyStep_agree (.refl limit limit) binder lines⟩
  exact ⟨l, fun item hitem => (hl item hitem).canonical,
    .of_sound hforward ok (by simpa using hinput)⟩

theorem body_blames (binder : String) (s : ParseState Lexed) :
    Blames s (Reader.repeatFrom [] (bodyStep limit binder) (bodyStep_shrinks limit binder)) s
      BodyBegun := by
  refine Tells.repeatFrom (I := fun _ => True) (fun lines s _ => bodyStep_blames binder lines s)
    (fun lines s lines' s₁ _ hok => ⟨trivial, ?_⟩) trivial
  obtain ⟨l, hl, hreach⟩ := bodyStep_reaches hok
  refine ⟨_, hreach, fun _ ys hys => ?_⟩
  simpa using hys.line hl

theorem loop_blames (limit : Nat) (s : ParseState Lexed) : Blames s (loop limit) s LoopBegun := by
  have hname : Spells {} ['x'] ⟨.text, "x"⟩ :=
    ⟨⟨_, _, rfl, rfl⟩, fun _ => rfl, fun _ => rfl, rfl⟩
  have hnone : List.Forall₂ (Spells {}) [] [] := .nil
  unfold loop
  refine .expect_bind (by simp [TokenKind.Plain]) (fun _ _ => ?_) fun t₁ s₁ h₁ => ?_
  · exact LoopBegun.words "x" "x"
      (.cons .foreachWord (.cons hname (.cons .inWord (.cons hname hnone)))) rfl
  rw [Token.symbol_of_kind h₁ (by simp)]
  refine .expect_bind (by simp [TokenKind.Plain]) (fun _ _ => ?_) fun binder s₂ h₂ => ?_
  · exact LoopBegun.words "x" "x"
      (.cons hname (.cons .inWord (.cons hname hnone))) rfl
  rw [Token.symbol_of_text h₂]
  refine .expect_bind (by simp [TokenKind.Plain]) (fun _ _ => ?_) fun t₃ s₃ h₃ => ?_
  · exact LoopBegun.words _ "x" (.cons .inWord (.cons hname hnone)) rfl
  rw [Token.symbol_of_kind h₃ (by simp)]
  refine .expect_bind (by simp [TokenKind.Plain]) (fun _ _ => ?_) fun array s₄ h₄ => ?_
  · exact LoopBegun.words _ "x" (.cons hname hnone) rfl
  rw [Token.symbol_of_text h₄]
  refine .closeBlock_bind (fun _ => ?_) fun s₅ => ?_
  · exact LoopBegun.words _ _ hnone rfl
  refine .require_bind (fun _ _ => LoopBegun.closed _ _) fun hline => ?_
  refine .advance_bind (Token.symbol_of_kind (beq_iff_eq.1 hline) (by simp)) (by simp) fun s₆ _ => ?_
  refine ((body_blames binder.lexeme s₆).mono fun _ ys => ?_).bind fun body s₇ _ =>
    .of_ok (Reader.run_pure _ s₇)
  exact LoopBegun.body _ _

end Loop

section Template

theorem topLine_forward (limit : Nat) (atStart : Bool) :
    Forward (if atStart then loop limit else failHere (.misplacedLoop .afterContent)) := by
  cases atStart with
  | true => exact ⟨Simulation.loop_agree (.refl limit limit)⟩
  | false => exact failHere_forward _

theorem topLine_blames (limit : Nat) (s : ParseState Lexed) :
    Blames s (topLine limit) s OuterBegun :=
  line_blames (topLine_forward limit) (fun _ => LineBegun.outer)
    (fun s => (loop_blames limit s).mono fun _ _ => LoopBegun.outer)
    (fun hloop => (loop_sound hloop).2.2) rfl

theorem topLine_reaches {l : Line} {s' : ParseState Lexed}
    (ok : (topLine limit).run s = (.ok l, s')) :
    Reaches s (lineSymbols l) s' ∧ TopLine Expr.Canonical l := by
  obtain ⟨hinput, hl⟩ := topLine_sound ok
  exact ⟨.of_sound ⟨Simulation.topLine_agree (.refl limit limit)⟩ ok hinput,
    hl.of_exprs fun e he => (hl.exprs e he).canonical⟩

theorem documentStep_blames (lines : List Line) (s : ParseState Lexed) :
    Blames s (documentStep limit lines) s TemplateBegun := by
  unfold documentStep
  refine ((topLine_blames limit s).mono fun _ _ => OuterBegun.template).bind fun l s₁ hline => ?_
  obtain ⟨hreach, hl⟩ := topLine_reaches hline
  refine .behind hreach (.of_run_eq (Reader.run_bind_ok (run_kind s₁) _) ?_)
  split
  · exact .of_ok (Reader.run_pure _ s₁)
  · refine .expect_bind (by simp [TokenKind.Plain]) (fun _ _ => ?_) fun t s₂ _ => ?_
    · rw [List.append_nil]
      exact Completes.whole (.line ⟨l, hl, rfl⟩) (behind_lineSymbols l)
    · refine .of_run_eq (Reader.run_bind_ok (run_kind s₂) _) ?_
      split
      · exact .of_ok (Reader.run_pure _ s₂)
      · exact .of_ok (Reader.run_pure _ s₂)

theorem documentStep_reaches {lines lines' : List Line} {s' : ParseState Lexed}
    (ok : (documentStep limit lines).run s = (.ok (.inl lines'), s')) :
    ∃ l, TopLine Expr.Canonical l ∧ Reaches s (lineSymbols l ++ [⟨.newline, ""⟩]) s' := by
  obtain ⟨l, -, hinput, hl⟩ := documentStep_line_sound ok
  have hforward : Forward (documentStep limit lines) :=
    ⟨Simulation.documentStep_agree (.refl limit limit) lines⟩
  exact ⟨l, hl.of_exprs fun e he => (hl.exprs e he).canonical,
    .of_sound hforward ok (by simpa using hinput)⟩

/-- The reader of templates tells the first token with which no template can go on. -/
theorem document_blames (limit : Nat) (s : ParseState Lexed) :
    Blames s (document limit) s TemplateBegun := by
  have hlines : Blames s (Reader.repeatFrom [] (documentStep limit) (documentStep_shrinks limit)) s
      TemplateBegun := by
    refine Tells.repeatFrom (I := fun _ => True) (fun lines s _ => documentStep_blames lines s)
      (fun lines s lines' s₁ _ hok => ⟨trivial, ?_⟩) trivial
    obtain ⟨l, hl, hreach⟩ := documentStep_reaches hok
    refine ⟨_, hreach, fun _ ys hys => ?_⟩
    simpa using hys.line hl
  unfold document
  refine .of_run_eq (Reader.run_bind_ok (run_kind s) _) ?_
  split
  · exact .of_ok (Reader.run_pure _ s)
  · exact hlines.bind fun all s₁ _ => .of_ok (Reader.run_pure _ s₁)

end Template

end Parser
end Stencil
