import Stencil.Proofs.Parse.Basic

/-! Two runs of the reader side by side, over different feeds or within different bounds on depth.
If the feeds agree at each way in which the reader asks for a token, the runs agree. -/
namespace Stencil

/-- How two runs are compared: by `Rel` while both go on and by `Stop` once both have failed. The
first may be cut short by `Cut`. -/
structure Comparison (σ τ : Type) where
  Rel : Token → σ → τ → Prop
  Stop : σ → τ → Prop
  Cut : ParseError → Prop

namespace Comparison

variable {σ τ α β γ : Type}

inductive Agree (C : Comparison σ τ) :
    Except ParseError α × ParseState σ → Except ParseError α × ParseState τ → Prop
  | ok {a : α} {t : Token} {f : σ} {g : τ} (h : C.Rel t f g) :
      Agree C (.ok a, ⟨t, f⟩) (.ok a, ⟨t, g⟩)
  | error {e : ParseError} {s : ParseState σ} {u : ParseState τ} (h : C.Stop s.feed u.feed) :
      Agree C (.error e, s) (.error e, u)
  | cut {e : ParseError} {s : ParseState σ} {r : Except ParseError α × ParseState τ} (h : C.Cut e) :
      Agree C (.error e, s) r

/-- What two feeds answer, where `Next` relates the feeds behind a token that both give. -/
inductive Answer (C : Comparison σ τ) (Next : Token → σ → τ → Prop) :
    Except LexError Token × σ → Except LexError Token × τ → Prop
  | ok {t : Token} {f : σ} {g : τ} (h : Next t f g) : Answer C Next (.ok t, f) (.ok t, g)
  | error {e : LexError} {f : σ} {g : τ} (h : C.Stop f g) :
      Answer C Next (.error e, f) (.error e, g)
  | cut {e : LexError} {f : σ} {r : Except LexError Token × τ} (h : C.Cut (.lexical e)) :
      Answer C Next (.error e, f) r

variable {C : Comparison σ τ}

theorem Agree.result {r : Except ParseError α × ParseState σ}
    {r' : Except ParseError α × ParseState τ} (h : C.Agree r r') (hcut : ∀ {e}, ¬C.Cut e) :
    r.1 = r'.1 := by
  cases h with
  | ok h => rfl
  | error h => rfl
  | cut h => exact absurd h hcut

theorem Agree.stop {r : Except ParseError α × ParseState σ}
    {r' : Except ParseError α × ParseState τ} (h : C.Agree r r')
    (hstop : ∀ {t f g}, C.Rel t f g → C.Stop f g) (hcut : ∀ {e}, ¬C.Cut e) :
    C.Stop r.2.feed r'.2.feed := by
  cases h with
  | ok h => exact hstop h
  | error h => exact h
  | cut h => exact absurd h hcut

variable [TokenFeed σ] [TokenFeed τ]

theorem Agree.bind {p : Parser σ α} {q : Parser τ α} {f : α → Parser σ β} {g : α → Parser τ β}
    {s : ParseState σ} {u : ParseState τ} (h : C.Agree (p.run s) (q.run u))
    (next : ∀ a t fs gs, p.run s = (.ok a, ⟨t, fs⟩) → C.Rel t fs gs →
      C.Agree ((f a).run ⟨t, fs⟩) ((g a).run ⟨t, gs⟩)) :
    C.Agree ((p >>= f).run s) ((q >>= g).run u) := by
  rw [Reader.run_bind, Reader.run_bind]
  generalize p.run s = r at h next
  generalize q.run u = r' at h
  cases h with
  | ok h => exact next _ _ _ _ rfl h
  | error h => exact .error h
  | cut h => exact .cut h

/-- Rounds that agree from related states make loops that agree. -/
theorem Agree.repeatFrom {step : β → Parser σ (β ⊕ γ)} {step' : β → Parser τ (β ⊕ γ)}
    (shrinks : Reader.Shrinks step) (shrinks' : Reader.Shrinks step')
    (h : ∀ b t f g, C.Rel t f g → C.Agree ((step b).run ⟨t, f⟩) ((step' b).run ⟨t, g⟩)) (b : β)
    (t : Token) (f : σ) (g : τ) (hrel : C.Rel t f g) :
    C.Agree ((Reader.repeatFrom b step shrinks).run ⟨t, f⟩)
      ((Reader.repeatFrom b step' shrinks').run ⟨t, g⟩) := by
  rw [Reader.repeatFrom_eq b step, Reader.repeatFrom_eq b step']
  refine (h b t f g hrel).bind fun next t' f' g' hstep hrel' => ?_
  cases next with
  | inl b' =>
    have hlt : size (⟨t', f'⟩ : ParseState σ) < size (⟨t, f⟩ : ParseState σ) :=
      shrinks b b' _ _ hstep
    exact Agree.repeatFrom shrinks shrinks' h b' t' f' g' hrel'
  | inr c => exact .ok hrel'
termination_by size (⟨t, f⟩ : ParseState σ)

theorem Answer.advance {t : Token} {f : σ} {g : τ}
    (h : C.Answer C.Rel (TokenFeed.next f) (TokenFeed.next g)) :
    C.Agree ((Parser.advance : Parser σ Unit).run ⟨t, f⟩)
      ((Parser.advance : Parser τ Unit).run ⟨t, g⟩) := by
  unfold Parser.advance
  dsimp only
  generalize TokenFeed.next f = r at h
  generalize TokenFeed.next g = r' at h
  cases h with
  | ok h => exact .ok h
  | error h => exact .error h
  | cut h => exact .cut h

theorem Answer.lookahead {t : Token} {f : σ} {g : τ}
    (h : C.Answer (fun inside f' g' =>
        C.Rel t (TokenFeed.setMode .literal (TokenFeed.unread inside f'))
          (TokenFeed.setMode .literal (TokenFeed.unread inside g')))
      (TokenFeed.next (TokenFeed.setMode .block f)) (TokenFeed.next (TokenFeed.setMode .block g))) :
    C.Agree ((Parser.lookahead : Parser σ Token).run ⟨t, f⟩)
      ((Parser.lookahead : Parser τ Token).run ⟨t, g⟩) := by
  unfold Parser.lookahead
  dsimp only
  generalize TokenFeed.next (TokenFeed.setMode .block f) = r at h
  generalize TokenFeed.next (TokenFeed.setMode .block g) = r' at h
  cases h with
  | ok h => exact .ok h
  | error h => exact .error h
  | cut h => exact .cut h

end Comparison

/-- Kinds past which the reader moves without a change of mode. -/
def TokenKind.Plain (k : TokenKind) : Prop :=
  k ≠ .openBlock ∧ k ≠ .closeBlock ∧ k ≠ .endOfFile

theorem TokenKind.Plain.of_productOperator? {k : TokenKind} {op : Operator}
    (h : k.productOperator? = some op) : k.Plain := by
  unfold TokenKind.Plain
  cases k <;> simp_all [TokenKind.productOperator?]

theorem TokenKind.Plain.of_sumOperator? {k : TokenKind} {op : Operator}
    (h : k.sumOperator? = some op) : k.Plain := by
  unfold TokenKind.Plain
  cases k <;> simp_all [TokenKind.sumOperator?]

/-- Feeds that agree wherever the reader asks for a token, in the mode that holds there, and for a
look behind opening braces. -/
structure Simulation (σ τ : Type) [TokenFeed σ] [TokenFeed τ] extends Comparison σ τ where
  stop : ∀ {t f g}, Rel t f g → Stop f g
  advance : ∀ {t f g}, Rel t f g → t.kind.Plain →
    toComparison.Answer Rel (TokenFeed.next f) (TokenFeed.next g)
  enter : ∀ {t f g}, Rel t f g → t.kind = .openBlock →
    toComparison.Answer Rel (TokenFeed.next (TokenFeed.setMode .block f))
      (TokenFeed.next (TokenFeed.setMode .block g))
  leave : ∀ {t f g}, Rel t f g → t.kind = .closeBlock →
    toComparison.Answer Rel (TokenFeed.next (TokenFeed.setMode .literal f))
      (TokenFeed.next (TokenFeed.setMode .literal g))
  lookahead : ∀ {t f g}, Rel t f g → t.kind = .openBlock →
    toComparison.Answer (fun inside f' g' =>
        Rel t (TokenFeed.setMode .literal (TokenFeed.unread inside f'))
          (TokenFeed.setMode .literal (TokenFeed.unread inside g')))
      (TokenFeed.next (TokenFeed.setMode .block f)) (TokenFeed.next (TokenFeed.setMode .block g))

namespace Simulation

variable {σ τ α : Type} [TokenFeed σ] [TokenFeed τ] (S : Simulation σ τ) {t : Token} {f : σ} {g : τ}

/-- Equal bounds on depth, or a smaller one at which the first run may be cut short. -/
def Budget (limit depth limit' depth' : Nat) : Prop :=
  (limit = limit' ∧ depth = depth') ∨
    (depth ≤ depth' ∧ ∀ t, S.Cut (.syntactic ⟨.tooDeep limit, t⟩))

variable {S}

theorem Budget.refl (limit depth : Nat) : S.Budget limit depth limit depth :=
  .inl ⟨rfl, rfl⟩

theorem Budget.pred {limit depth limit' depth' : Nat}
    (h : S.Budget limit (depth + 1) limit' depth') :
    ∃ d', depth' = d' + 1 ∧ S.Budget limit depth limit' d' := by
  rcases h with ⟨hl, hd⟩ | ⟨hd, hcut⟩
  · exact ⟨depth, hd.symm, .inl ⟨hl, rfl⟩⟩
  · exact ⟨depth' - 1, by omega, .inr ⟨by omega, hcut⟩⟩

theorem failHere_agree (h : S.Rel t f g) (cause : SyntaxError.Cause) :
    S.Agree ((Parser.failHere cause : Parser σ α).run ⟨t, f⟩)
      ((Parser.failHere cause : Parser τ α).run ⟨t, g⟩) :=
  .error (S.stop h)

theorem failAt_agree (h : S.Rel t f g) (found : Token) (cause : SyntaxError.Cause) :
    S.Agree ((Parser.failAt found cause : Parser σ α).run ⟨t, f⟩)
      ((Parser.failAt found cause : Parser τ α).run ⟨t, g⟩) :=
  .error (S.stop h)

/-- A requirement, and what follows where the token in view meets it. -/
theorem require_agree (h : S.Rel t f g) {accepted : TokenKind → Bool}
    {cause : SyntaxError.Cause} {p : Unit → Parser σ α} {q : Unit → Parser τ α}
    (next : accepted t.kind → S.Agree ((p ()).run ⟨t, f⟩) ((q ()).run ⟨t, g⟩)) :
    S.Agree ((Parser.require accepted cause >>= p).run ⟨t, f⟩)
      ((Parser.require accepted cause >>= q).run ⟨t, g⟩) := by
  rw [Reader.run_bind, Reader.run_bind, Parser.run_require, Parser.run_require]
  by_cases ha : accepted t.kind
  · rw [if_pos ha, if_pos ha]
    exact next ha
  · rw [if_neg ha, if_neg ha]
    exact .error (S.stop h)

theorem requireDepth_agree {limit depth limit' depth' : Nat}
    (hb : S.Budget limit depth limit' depth') (h : S.Rel t f g) {p : Unit → Parser σ α}
    {q : Unit → Parser τ α} (next : S.Agree ((p ()).run ⟨t, f⟩) ((q ()).run ⟨t, g⟩)) :
    S.Agree ((Parser.require (fun _ => 0 < depth) (.tooDeep limit) >>= p).run ⟨t, f⟩)
      ((Parser.require (fun _ => 0 < depth') (.tooDeep limit') >>= q).run ⟨t, g⟩) := by
  rcases hb with ⟨hl, hd⟩ | ⟨hd, hcut⟩
  · subst hl hd
    exact require_agree h fun _ => next
  · rw [Reader.run_bind, Reader.run_bind, Parser.run_require, Parser.run_require]
    by_cases hpos : 0 < depth
    · rw [if_pos (by simpa using hpos), if_pos (by simpa using Nat.lt_of_lt_of_le hpos hd)]
      exact next
    · rw [if_neg (by simpa using hpos)]
      exact .cut (hcut _)

theorem advance_agree (h : S.Rel t f g) {k : TokenKind} (hk : t.kind = k) (hplain : k.Plain) :
    S.Agree ((Parser.advance : Parser σ Unit).run ⟨t, f⟩)
      ((Parser.advance : Parser τ Unit).run ⟨t, g⟩) := by
  subst hk
  exact (S.advance h hplain).advance

theorem enterBlock_agree (h : S.Rel t f g) (hk : t.kind = .openBlock) :
    S.Agree ((Parser.enterBlock : Parser σ Unit).run ⟨t, f⟩)
      ((Parser.enterBlock : Parser τ Unit).run ⟨t, g⟩) :=
  (S.enter h hk).advance

theorem closeBlock_agree (h : S.Rel t f g) :
    S.Agree ((Parser.closeBlock : Parser σ Unit).run ⟨t, f⟩)
      ((Parser.closeBlock : Parser τ Unit).run ⟨t, g⟩) := by
  unfold Parser.closeBlock Parser.requireKind
  exact require_agree h fun hk => (S.leave h (beq_iff_eq.1 hk)).advance

theorem expect_agree (h : S.Rel t f g) {expected : TokenKind} (hplain : expected.Plain) :
    S.Agree ((Parser.expect expected : Parser σ Token).run ⟨t, f⟩)
      ((Parser.expect expected : Parser τ Token).run ⟨t, g⟩) := by
  unfold Parser.expect Parser.requireKind
  refine require_agree h fun hk => ?_
  exact (advance_agree h (beq_iff_eq.1 hk) hplain).bind fun _ _ _ _ _ h' => .ok h'

section Arguments

variable (function : Builtin) {argument : Parser σ Expr} {argument' : Parser τ Expr}

theorem argumentStep_agree (h : S.Rel t f g)
    (ha : S.Agree (argument.run ⟨t, f⟩) (argument'.run ⟨t, g⟩)) (args : List Expr) :
    S.Agree ((Parser.argumentStep function argument args).run ⟨t, f⟩)
      ((Parser.argumentStep function argument' args).run ⟨t, g⟩) := by
  unfold Parser.argumentStep
  refine require_agree h fun _ => ha.bind fun arg t f g _ h => ?_
  rw [Reader.run_bind_ok (Parser.run_kind _), Reader.run_bind_ok (Parser.run_kind _)]
  split
  · rename_i hk
    refine (advance_agree h hk (by simp [TokenKind.Plain])).bind fun _ t f g _ h => ?_
    exact require_agree h fun _ => .ok h
  · exact .ok h

theorem arguments_agree (h : S.Rel t f g)
    (ha : ∀ t f g, S.Rel t f g → S.Agree (argument.run ⟨t, f⟩) (argument'.run ⟨t, g⟩)) :
    S.Agree ((Parser.arguments function argument).run ⟨t, f⟩)
      ((Parser.arguments function argument').run ⟨t, g⟩) :=
  Comparison.Agree.repeatFrom _ _
    (fun args t f g h => argumentStep_agree function h (ha t f g h) args) [] t f g h

end Arguments

mutual

theorem factor_agree {limit depth limit' depth' : Nat} (hb : S.Budget limit depth limit' depth')
    {t : Token} {f : σ} {g : τ} (h : S.Rel t f g) :
    S.Agree ((Parser.factor limit depth : Parser σ Expr).run ⟨t, f⟩)
      ((Parser.factor limit' depth' : Parser τ Expr).run ⟨t, g⟩) := by
  cases depth with
  | zero =>
    rw [Parser.factor]
    rcases hb with ⟨hl, hd⟩ | ⟨-, hcut⟩
    · subst hl hd
      rw [Parser.factor]
      exact failHere_agree h _
    · exact .cut (hcut _)
  | succ depth =>
    obtain ⟨depth', rfl, hd⟩ := hb.pred
    rw [Parser.factor, Parser.factor, Reader.run_bind_ok (Parser.run_current _),
      Reader.run_bind_ok (Parser.run_current _)]
    dsimp only
    split
    · rename_i n hk
      exact (advance_agree h hk (by simp [TokenKind.Plain])).bind fun _ _ _ _ _ h => .ok h
    · rename_i hk
      refine (advance_agree h hk (by simp [TokenKind.Plain])).bind fun _ t f g _ h => ?_
      rw [Reader.run_bind_ok (Parser.run_kind _), Reader.run_bind_ok (Parser.run_kind _)]
      split
      · rename_i hk
        split
        · exact failAt_agree h _ _
        · rename_i function _
          refine requireDepth_agree hd h ?_
          refine (advance_agree h hk (by simp [TokenKind.Plain])).bind fun _ t f g _ h => ?_
          refine (arguments_agree function h fun t f g => sum_agree hd).bind
            fun args t f g _ h => require_agree h fun hk => ?_
          exact (advance_agree h (beq_iff_eq.1 hk) (by simp [TokenKind.Plain])).bind
            fun _ _ _ _ _ h => .ok h
      · exact .ok h
    · rename_i hk
      refine (advance_agree h hk (by simp [TokenKind.Plain])).bind fun _ t f g _ h => ?_
      refine (sum_agree hd h).bind fun inner t f g _ h => ?_
      exact (expect_agree h (by simp [TokenKind.Plain])).bind fun _ _ _ _ _ h => .ok h
    · exact failHere_agree h _
    · exact failHere_agree h _
termination_by 4 * depth

theorem product_agree {limit depth limit' depth' : Nat} (hb : S.Budget limit depth limit' depth')
    {t : Token} {f : σ} {g : τ} (h : S.Rel t f g) :
    S.Agree ((Parser.product limit depth : Parser σ Expr).run ⟨t, f⟩)
      ((Parser.product limit' depth' : Parser τ Expr).run ⟨t, g⟩) := by
  rw [Parser.product, Parser.product]
  refine (factor_agree hb h).bind fun lhs t f g hok h => ?_
  exact productRest_agree hb (Parser.pos_of_factor_ok hok) h
termination_by 4 * depth + 1

theorem productRest_agree {limit depth limit' depth' : Nat}
    (hb : S.Budget limit depth limit' depth') (hpos : 0 < depth) {lhs : Expr} {t : Token}
    {f : σ} {g : τ} (h : S.Rel t f g) :
    S.Agree ((Parser.productRest limit depth lhs : Parser σ Expr).run ⟨t, f⟩)
      ((Parser.productRest limit' depth' lhs : Parser τ Expr).run ⟨t, g⟩) := by
  obtain ⟨d, rfl⟩ := Nat.exists_eq_add_one.2 hpos
  obtain ⟨d', rfl, hd⟩ := hb.pred
  rw [Parser.productRest, Parser.productRest, Reader.run_bind_ok (Parser.run_kind _),
    Reader.run_bind_ok (Parser.run_kind _)]
  dsimp only
  split
  · exact .ok h
  · rename_i op hop
    refine (advance_agree h rfl (.of_productOperator? hop)).bind fun _ t f g _ h => ?_
    refine (factor_agree hd h).bind fun rhs t f g hok h => ?_
    exact productRest_agree hd (Parser.pos_of_factor_ok hok) h
termination_by 4 * depth

theorem sum_agree {limit depth limit' depth' : Nat} (hb : S.Budget limit depth limit' depth')
    {t : Token} {f : σ} {g : τ} (h : S.Rel t f g) :
    S.Agree ((Parser.sum limit depth : Parser σ Expr).run ⟨t, f⟩)
      ((Parser.sum limit' depth' : Parser τ Expr).run ⟨t, g⟩) := by
  rw [Parser.sum, Parser.sum]
  refine (product_agree hb h).bind fun lhs t f g hok h => ?_
  exact sumRest_agree hb (Parser.pos_of_product_ok hok) h
termination_by 4 * depth + 3

theorem sumRest_agree {limit depth limit' depth' : Nat}
    (hb : S.Budget limit depth limit' depth') (hpos : 0 < depth) {lhs : Expr} {t : Token}
    {f : σ} {g : τ} (h : S.Rel t f g) :
    S.Agree ((Parser.sumRest limit depth lhs : Parser σ Expr).run ⟨t, f⟩)
      ((Parser.sumRest limit' depth' lhs : Parser τ Expr).run ⟨t, g⟩) := by
  obtain ⟨d, rfl⟩ := Nat.exists_eq_add_one.2 hpos
  obtain ⟨d', rfl, hd⟩ := hb.pred
  rw [Parser.sumRest, Parser.sumRest, Reader.run_bind_ok (Parser.run_kind _),
    Reader.run_bind_ok (Parser.run_kind _)]
  dsimp only
  split
  · exact .ok h
  · rename_i op hop
    refine (advance_agree h rfl (.of_sumOperator? hop)).bind fun _ t f g _ h => ?_
    refine (product_agree hd h).bind fun rhs t f g hok h => ?_
    exact sumRest_agree hd (Parser.pos_of_product_ok hok) h
termination_by 4 * depth + 2

end

theorem blockItem_agree {limit limit' : Nat} (hb : S.Budget limit limit limit' limit')
    {onLoop : Parser σ Item} {onLoop' : Parser τ Item} (h : S.Rel t f g)
    (hloop : t.kind = .foreachWord → S.Agree (onLoop.run ⟨t, f⟩) (onLoop'.run ⟨t, g⟩)) :
    S.Agree ((Parser.blockItem limit onLoop).run ⟨t, f⟩)
      ((Parser.blockItem limit' onLoop').run ⟨t, g⟩) := by
  unfold Parser.blockItem
  rw [Reader.run_bind_ok (Parser.run_kind _), Reader.run_bind_ok (Parser.run_kind _)]
  dsimp only
  split
  · exact failHere_agree h _
  · rename_i hk
    exact hloop hk
  · refine (sum_agree hb h).bind fun e t f g _ h => ?_
    exact (closeBlock_agree h).bind fun _ _ _ _ _ h => .ok h

section Line

variable {limit limit' : Nat} {onLoop : Bool → Parser σ Item} {onLoop' : Bool → Parser τ Item}

theorem lineStep_agree (hb : S.Budget limit limit limit' limit') (h : S.Rel t f g)
    (hloop : ∀ b t f g, S.Rel t f g → t.kind = .foreachWord →
      S.Agree ((onLoop b).run ⟨t, f⟩) ((onLoop' b).run ⟨t, g⟩)) (items : List Item) :
    S.Agree ((Parser.lineStep limit onLoop items).run ⟨t, f⟩)
      ((Parser.lineStep limit' onLoop' items).run ⟨t, g⟩) := by
  unfold Parser.lineStep
  rw [Reader.run_bind_ok (Parser.run_current _), Reader.run_bind_ok (Parser.run_current _)]
  dsimp only
  split
  · exact .ok h
  · exact .ok h
  · rename_i hk
    refine (enterBlock_agree h hk).bind fun _ t f g _ h => ?_
    exact (blockItem_agree hb h (hloop _ t f g h)).bind fun _ _ _ _ _ h => .ok h
  · rename_i hk
    exact (advance_agree h hk (by simp [TokenKind.Plain])).bind fun _ _ _ _ _ h => .ok h
  · exact failHere_agree h _

theorem line_agree (hb : S.Budget limit limit limit' limit') (h : S.Rel t f g)
    (hloop : ∀ b t f g, S.Rel t f g → t.kind = .foreachWord →
      S.Agree ((onLoop b).run ⟨t, f⟩) ((onLoop' b).run ⟨t, g⟩)) :
    S.Agree ((Parser.line limit onLoop).run ⟨t, f⟩)
      ((Parser.line limit' onLoop').run ⟨t, g⟩) :=
  Comparison.Agree.repeatFrom _ _ (fun items _ _ _ h => lineStep_agree hb h hloop items) [] t f g h

end Line

variable [LawfulTokenFeed σ]

theorem loopEnd_agree (h : S.Rel t f g) :
    S.Agree ((Parser.loopEnd : Parser σ Bool).run ⟨t, f⟩)
      ((Parser.loopEnd : Parser τ Bool).run ⟨t, g⟩) := by
  unfold Parser.loopEnd
  rw [Reader.run_bind_ok (Parser.run_kind _), Reader.run_bind_ok (Parser.run_kind _)]
  split
  · rename_i hk
    refine (S.lookahead h hk).lookahead.bind fun inside t₁ f₁ g₁ hlook h₁ => ?_
    have hopen : t₁.kind = .openBlock := by
      rw [show t₁ = t from Parser.current_of_lookahead hlook]
      exact hk
    split
    · rename_i hinside
      refine (enterBlock_agree h₁ hopen).bind fun _ t₂ f₂ g₂ henter h₂ => ?_
      have hcurrent : t₂ = inside := Parser.current_of_reread hlook henter
      refine (advance_agree h₂ (hcurrent ▸ hinside) (by simp [TokenKind.Plain])).bind
        fun _ t f g _ h => ?_
      refine (closeBlock_agree h).bind fun _ t f g _ h => ?_
      exact require_agree h fun _ => .ok h
    · exact failAt_agree h₁ _ _
    · exact .ok h₁
  · exact .ok h

theorem bodyStep_agree {limit limit' : Nat} (hb : S.Budget limit limit limit' limit')
    (binder : String) (lines : List Line) (h : S.Rel t f g) :
    S.Agree ((Parser.bodyStep limit binder lines).run ⟨t, f⟩)
      ((Parser.bodyStep limit' binder lines).run ⟨t, g⟩) := by
  unfold Parser.bodyStep Parser.bodyLine
  refine (loopEnd_agree h).bind fun ended t f g _ h => ?_
  split
  · exact .ok h
  · refine require_agree h fun _ => ?_
    refine (line_agree hb h fun _ _ _ _ h _ => failHere_agree h _).bind fun l t f g hline h => ?_
    refine require_agree h fun hmore => ?_
    have hk : t.kind = .newline := by
      rcases Parser.kind_of_line_ok hline with hk | hk
      · exact hk
      · have hend : t.kind = .endOfFile := hk
        simp [hend] at hmore
    exact (advance_agree h hk (by simp [TokenKind.Plain])).bind fun _ _ _ _ _ h => .ok h

theorem loop_agree {limit limit' : Nat} (hb : S.Budget limit limit limit' limit')
    (h : S.Rel t f g) :
    S.Agree ((Parser.loop limit : Parser σ Item).run ⟨t, f⟩)
      ((Parser.loop limit' : Parser τ Item).run ⟨t, g⟩) := by
  unfold Parser.loop
  refine (expect_agree h (by simp [TokenKind.Plain])).bind fun _ t f g _ h => ?_
  refine (expect_agree h (by simp [TokenKind.Plain])).bind fun binder t f g _ h => ?_
  refine (expect_agree h (by simp [TokenKind.Plain])).bind fun _ t f g _ h => ?_
  refine (expect_agree h (by simp [TokenKind.Plain])).bind fun array t f g _ h => ?_
  refine (closeBlock_agree h).bind fun _ t f g _ h => require_agree h fun hk => ?_
  refine (advance_agree h (beq_iff_eq.1 hk) (by simp [TokenKind.Plain])).bind fun _ t f g _ h => ?_
  refine (Comparison.Agree.repeatFrom _ _ (fun lines t f g => bodyStep_agree hb binder.lexeme lines)
    [] t f g h).bind fun _ _ _ _ _ h => ?_
  exact .ok h

theorem topLine_agree {limit limit' : Nat} (hb : S.Budget limit limit limit' limit')
    (h : S.Rel t f g) :
    S.Agree ((Parser.topLine limit : Parser σ Line).run ⟨t, f⟩)
      ((Parser.topLine limit' : Parser τ Line).run ⟨t, g⟩) := by
  refine line_agree hb h fun atStart t f g h _ => ?_
  split
  · exact loop_agree hb h
  · exact failHere_agree h _

theorem documentStep_agree {limit limit' : Nat} (hb : S.Budget limit limit limit' limit')
    (lines : List Line) (h : S.Rel t f g) :
    S.Agree ((Parser.documentStep limit lines : Parser σ _).run ⟨t, f⟩)
      ((Parser.documentStep limit' lines : Parser τ _).run ⟨t, g⟩) := by
  unfold Parser.documentStep
  refine (topLine_agree hb h).bind fun l t f g _ h => ?_
  rw [Reader.run_bind_ok (Parser.run_kind _), Reader.run_bind_ok (Parser.run_kind _)]
  split
  · exact .ok h
  · refine (expect_agree h (by simp [TokenKind.Plain])).bind fun _ t f g _ h => ?_
    rw [Reader.run_bind_ok (Parser.run_kind _), Reader.run_bind_ok (Parser.run_kind _)]
    split
    · exact .ok h
    · exact .ok h

/-- Whole readings agree. -/
theorem document_agree {limit limit' : Nat} (hb : S.Budget limit limit limit' limit')
    (h : S.Rel t f g) :
    S.Agree ((Parser.document limit : Parser σ Document).run ⟨t, f⟩)
      ((Parser.document limit' : Parser τ Document).run ⟨t, g⟩) := by
  unfold Parser.document
  rw [Reader.run_bind_ok (Parser.run_kind _), Reader.run_bind_ok (Parser.run_kind _)]
  split
  · exact .ok h
  · refine (Comparison.Agree.repeatFrom _ _ (fun lines t f g => documentStep_agree hb lines)
      [] t f g h).bind fun _ _ _ _ _ h => ?_
    exact .ok h

/-- Feeds that agree on their first token are read alike, unless the first reading is cut short. -/
theorem parseFeed_agree {depth depth' : Nat} (hb : S.Budget depth depth depth' depth')
    (h : S.Answer S.Rel (TokenFeed.next f) (TokenFeed.next g)) :
    (∃ e, parseFeed depth f = .error e ∧ S.Cut e) ∨ parseFeed depth' g = parseFeed depth f := by
  unfold parseFeed
  generalize TokenFeed.next f = r at h ⊢
  generalize TokenFeed.next g = r' at h ⊢
  cases h with
  | ok hrel =>
    rename_i t f g
    dsimp only
    have hrun := document_agree hb hrel
    generalize (Parser.document depth).run ⟨t, f⟩ = run at hrun ⊢
    generalize (Parser.document depth').run ⟨t, g⟩ = run' at hrun ⊢
    cases hrun with
    | ok _ => exact .inr rfl
    | error _ => exact .inr rfl
    | cut hcut => exact .inl ⟨_, rfl, hcut⟩
  | error _ => exact .inr rfl
  | cut hcut => exact .inl ⟨_, rfl, hcut⟩

end Simulation
end Stencil
