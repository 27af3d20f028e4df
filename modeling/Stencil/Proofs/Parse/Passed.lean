import Stencil.Proofs.Parse.Document
import Stencil.Proofs.Parse.Simulation

/-! Which tokens the reader has passed when it goes on, and when it fails. A failure tells the token
that was found wrong, which need not be the one in view then. -/
namespace Stencil

/-- A feed and itself, as long as the reader has the last ones of some tokens in front of it. -/
def remaining (all : List Token) : Comparison Lexed Lexed where
  Rel t f g := f = g ∧ ParseState.tokens ⟨t, f⟩ <:+ all
  Stop _ _ := True
  Cut _ := False

theorem remaining_answer {all : List Token} {Next : Token → Lexed → Lexed → Prop} {l : Lexed}
    (h : ∀ t l', l.next = (.ok t, l') → Next t l' l') :
    (remaining all).Answer Next (TokenFeed.next l) (TokenFeed.next l) := by
  have hnext : TokenFeed.next l = l.next := rfl
  rw [hnext]
  rcases hl : l.next with ⟨e | t, l'⟩
  · exact .error trivial
  · exact .ok (h t l' hl)

theorem remaining_next {all : List Token} {t t' : Token} {l l' : Lexed} (hk : t.kind ≠ .endOfFile)
    (h : (remaining all).Rel t l l) (hnext : l.next = (.ok t', l')) :
    (remaining all).Rel t' l' l' := by
  have hsuffix := h.2
  rw [ParseState.tokens_of_next hk hnext] at hsuffix
  exact ⟨rfl, (List.suffix_cons _ _).trans hsuffix⟩

/-- A token that was looked at is in front again. -/
theorem remaining_unread {all : List Token} {t inside : Token} {l l' : Lexed}
    (hk : t.kind ≠ .endOfFile) (h : (remaining all).Rel t l l) (hnext : l.next = (.ok inside, l')) :
    (remaining all).Rel t (l'.unread inside) (l'.unread inside) := by
  have hsuffix := h.2
  have hunread : (l'.unread inside).next = (.ok inside, l') := rfl
  rw [ParseState.tokens_of_next hk hnext, ← ParseState.tokens_of_next hk hunread] at hsuffix
  exact ⟨rfl, hsuffix⟩

def remainingSimulation (all : List Token) : Simulation Lexed Lexed where
  toComparison := remaining all
  stop _ := trivial
  advance := by
    rintro t l _ ⟨rfl, h⟩ hplain
    exact remaining_answer fun _ _ => remaining_next hplain.2.2 ⟨rfl, h⟩
  enter := by
    rintro t l _ ⟨rfl, h⟩ hk
    exact remaining_answer fun _ _ => remaining_next (by simp [hk]) ⟨rfl, h⟩
  leave := by
    rintro t l _ ⟨rfl, h⟩ hk
    exact remaining_answer fun _ _ => remaining_next (by simp [hk]) ⟨rfl, h⟩
  lookahead := by
    rintro t l _ ⟨rfl, h⟩ hk
    exact remaining_answer fun _ _ => remaining_unread (by simp [hk]) ⟨rfl, h⟩

/-- The reader moves past tokens in front of it, and never brings one back. -/
structure Parser.Forward {α : Type} (p : Parser Lexed α) : Prop where
  agree : ∀ {all t f g}, (remainingSimulation all).Rel t f g →
    (remainingSimulation all).Agree (p.run ⟨t, f⟩) (p.run ⟨t, g⟩)

namespace Parser

variable {α β γ : Type} {s s₀ s' : ParseState Lexed} {xs : List Symbol}

/-- The reader has moved past tokens with these symbols. -/
def Reaches (s : ParseState Lexed) (xs : List Symbol) (s' : ParseState Lexed) : Prop :=
  ∃ front, s.tokens = front ++ s'.tokens ∧ front.map Token.symbol = xs

namespace Reaches

theorem advance (hk : s.current.kind ≠ .endOfFile)
    (h : (Parser.advance : Parser Lexed Unit).run s = (.ok (), s')) :
    Reaches s [s.current.symbol] s' :=
  ⟨[s.current], advance_tokens hk h, rfl⟩

/-- What was read is what the reader has moved past. -/
theorem of_sound {p : Parser Lexed α} {a : α} (hp : Forward p) (ok : p.run s = (.ok a, s'))
    (hinput : s.input = xs ++ s'.input) : Reaches s xs s' := by
  have hstart : (remainingSimulation s.tokens).Rel s.current s.feed s.feed :=
    ⟨rfl, List.suffix_refl _⟩
  have hrun := hp.agree hstart
  rw [show p.run ⟨s.current, s.feed⟩ = (.ok a, s') from ok] at hrun
  cases hrun with
  | ok h =>
    obtain ⟨front, hfront⟩ := h.2
    refine ⟨front, hfront.symm, ?_⟩
    rw [← s.map_symbol_tokens, ← hfront, List.map_append] at hinput
    exact List.append_cancel_right (hinput.trans (by rw [← ParseState.map_symbol_tokens]))

end Reaches

/-- If the reader fails in a way in which `E` takes an interest, `V` holds of the cause and of the
symbols before the token it tells. -/
def Tells (E : SyntaxError → Prop) (s₀ : ParseState Lexed) (p : Parser Lexed α)
    (s : ParseState Lexed) (V : SyntaxError.Cause → List Symbol → Prop) : Prop :=
  ∀ e s', p.run s = (.error (.syntactic e), s') → E e →
    ∃ front back, s₀.tokens = front ++ e.found :: back ∧ V e.cause (front.map Token.symbol)

namespace Tells

variable {E : SyntaxError → Prop} {V W : SyntaxError.Cause → List Symbol → Prop}
  {p q : Parser Lexed α} {f : α → Parser Lexed β}

theorem mono (h : Tells E s₀ p s V) (hVW : ∀ c xs, V c xs → W c xs) : Tells E s₀ p s W := by
  intro e s' hfail he
  obtain ⟨front, back, htokens, hfront⟩ := h e s' hfail he
  exact ⟨front, back, htokens, hVW _ _ hfront⟩

theorem of_run_eq (hrun : p.run s = q.run s') (h : Tells E s₀ q s' V) : Tells E s₀ p s V := by
  intro e s'' hfail
  exact h e s'' (hrun.symm.trans hfail)

theorem of_ok {a : α} (hok : p.run s = (.ok a, s')) : Tells E s₀ p s V := by
  intro e s'' hfail
  rw [hok] at hfail
  cases hfail

/-- Behind some tokens, these count among those before a token found wrong. -/
theorem behind (hreach : Reaches s₀ xs s') (h : Tells E s' p s fun c ys => V c (xs ++ ys)) :
    Tells E s₀ p s V := by
  intro e s'' hfail he
  obtain ⟨passed, hpassed, rfl⟩ := hreach
  obtain ⟨front, back, htokens, hfront⟩ := h e s'' hfail he
  refine ⟨passed ++ front, back, by rw [hpassed, htokens, List.append_assoc], ?_⟩
  rwa [List.map_append]

theorem bind (h : Tells E s₀ p s V)
    (hf : ∀ a s₁, p.run s = (.ok a, s₁) → Tells E s₀ (f a) s₁ V) :
    Tells E s₀ (p >>= f) s V := by
  intro e s' hfail he
  rw [Reader.run_bind] at hfail
  split at hfail
  · rename_i a s₁ hp
    exact hf a s₁ hp e s' hfail he
  · rename_i e' s₁ hp
    cases hfail
    exact h e s' hp he

theorem failAt {t : Token} {cause : SyntaxError.Cause} (front : List Token) {back : List Token}
    (htokens : s₀.tokens = front ++ t :: back)
    (hfront : E ⟨cause, t⟩ → V cause (front.map Token.symbol)) :
    Tells E s₀ (Parser.failAt t cause : Parser Lexed α) s V := by
  intro e s' hfail he
  cases hfail
  exact ⟨front, back, htokens, hfront he⟩

theorem failHere {cause : SyntaxError.Cause} (h : E ⟨cause, s.current⟩ → V cause []) :
    Tells E s (Parser.failHere cause : Parser Lexed α) s V := by
  intro e s' hfail he
  cases hfail
  obtain ⟨back, htokens⟩ := s.tokens_eq_cons
  exact ⟨[], back, htokens, h he⟩

theorem require_bind {accepted : TokenKind → Bool} {cause : SyntaxError.Cause}
    {f : Unit → Parser Lexed β}
    (h : E ⟨cause, s.current⟩ → accepted s.current.kind = false → V cause [])
    (hf : accepted s.current.kind → Tells E s (f ()) s V) :
    Tells E s (Parser.require accepted cause >>= f) s V := by
  by_cases haccepted : accepted s.current.kind
  · exact of_run_eq (Reader.run_bind_ok (run_require_ok haccepted) f) (hf haccepted)
  · have hrequire : (Parser.require accepted cause).run s =
        (Parser.failHere cause : Parser Lexed Unit).run s := by
      rw [run_require, if_neg haccepted]
      rfl
    have hfail : Tells E s (Parser.failHere cause : Parser Lexed Unit) s V :=
      failHere fun he => h he (Bool.eq_false_iff.2 haccepted)
    refine (of_run_eq hrequire hfail).bind fun a s₁ hok => ?_
    rw [hrequire] at hok
    cases hok

theorem advance : Tells E s₀ (Parser.advance : Parser Lexed Unit) s V := by
  intro e s' hfail
  unfold Parser.advance at hfail
  dsimp only at hfail
  split at hfail <;> cases hfail

theorem advance_bind {f : Unit → Parser Lexed β} {x : Symbol} (hx : s.current.symbol = x)
    (hend : x.kind ≠ .endOfFile)
    (hf : ∀ s₁, (Parser.advance : Parser Lexed Unit).run s = (.ok (), s₁) →
      Tells E s₁ (f ()) s₁ fun c ys => V c (x :: ys)) :
    Tells E s (Parser.advance >>= f) s V := by
  subst hx
  refine advance.bind fun _ s₁ hok => ?_
  exact (hf s₁ hok).behind (Reaches.advance hend hok)

theorem enterBlock_bind {f : Unit → Parser Lexed β} (hk : s.current.kind = .openBlock)
    (hf : ∀ s₁, (enterBlock : Parser Lexed Unit).run s = (.ok (), s₁) →
      Tells E s₁ (f ()) s₁ fun c ys => V c (⟨.openBlock, ""⟩ :: ys)) :
    Tells E s (enterBlock >>= f) s V :=
  of_run_eq (q := Parser.advance >>= f) rfl
    (advance_bind (Token.symbol_of_kind hk (by simp)) (by simp) hf)

theorem lookahead : Tells E s₀ (Parser.lookahead : Parser Lexed Token) s V := by
  intro e s' hfail
  unfold Parser.lookahead at hfail
  dsimp only at hfail
  split at hfail <;> cases hfail

theorem expect_bind {k : TokenKind} {f : Token → Parser Lexed β} (hk : k.Plain)
    (h : E ⟨.unexpected (.token k), s.current⟩ → s.current.kind ≠ k →
      V (.unexpected (.token k)) [])
    (hf : ∀ t s₁, t.kind = k → Tells E s₁ (f t) s₁ fun c ys => V c (t.symbol :: ys)) :
    Tells E s (expect k >>= f) s V := by
  refine bind ?_ fun t s₁ hok => ?_
  · unfold expect requireKind
    refine require_bind (fun he hne => h he (by simpa using hne)) fun _ =>
      of_run_eq (Reader.run_bind_ok (run_current s) _) ?_
    exact advance.bind fun _ s₁ _ => of_ok (Reader.run_pure _ s₁)
  · obtain ⟨hkind, hinput⟩ := expect_sound hk.2.2 hok
    have hforward : Forward (expect k) := ⟨fun h => Simulation.expect_agree h hk⟩
    have hreach : Reaches s [t.symbol] s₁ := .of_sound hforward hok hinput
    exact (hf t s₁ hkind).behind hreach

theorem closeBlock_bind {f : Unit → Parser Lexed β}
    (h : E ⟨.unexpected (.token .closeBlock), s.current⟩ → V (.unexpected (.token .closeBlock)) [])
    (hf : ∀ s₁, Tells E s₁ (f ()) s₁ fun c ys => V c (⟨.closeBlock, ""⟩ :: ys)) :
    Tells E s (closeBlock >>= f) s V := by
  refine bind ?_ fun _ s₁ hok => ?_
  · unfold closeBlock requireKind
    exact require_bind (fun he _ => h he) fun _ => advance
  · have hreach : Reaches s [⟨.closeBlock, ""⟩] s₁ :=
      .of_sound ⟨Simulation.closeBlock_agree⟩ hok (closeBlock_sound hok)
    exact (hf s₁).behind hreach

/-- What holds of the symbols before a failure in one round, and is carried back over the symbols of
a round before it, holds of a loop. The rounds keep to `I`. -/
theorem repeatFrom {step : β → Parser Lexed (β ⊕ γ)} {shrinks : Reader.Shrinks step} {I : β → Prop}
    (hstep : ∀ b s, I b → Tells E s (step b) s V)
    (hround : ∀ b s b' s₁, I b → (step b).run s = (.ok (.inl b'), s₁) →
      I b' ∧ ∃ xs, Reaches s xs s₁ ∧ ∀ c ys, V c ys → V c (xs ++ ys)) {b : β} (hb : I b) :
    Tells E s (Reader.repeatFrom b step shrinks) s V := by
  intro e s' hfail he
  refine Reader.repeatFrom_error_induction (P := fun b s e₀ _ => I b → e₀ = .syntactic e →
    ∃ front back, s.tokens = front ++ e.found :: back ∧ V e.cause (front.map Token.symbol)) shrinks
    ?_ ?_ hfail hb rfl
  · rintro b s _ s' hlast hb rfl
    exact hstep b s hb e s' hlast he
  · rintro b s b' s₁ _ s' hnext ih hb rfl
    obtain ⟨hb', xs, ⟨passed, hpassed, rfl⟩, hxs⟩ := hround b s b' s₁ hb hnext
    obtain ⟨front, back, htokens, hfront⟩ := ih hb' rfl
    refine ⟨passed ++ front, back, by rw [hpassed, htokens, List.append_assoc], ?_⟩
    rw [List.map_append]
    exact hxs _ _ hfront

end Tells

/-- If the reader fails for another reason than its bound on depth, the symbols before the token that
it tells have a property. -/
abbrev Blames (s₀ : ParseState Lexed) (p : Parser Lexed α) (s : ParseState Lexed)
    (V : List Symbol → Prop) : Prop :=
  Tells (fun e => ∀ limit, e.cause ≠ .tooDeep limit) s₀ p s fun _ => V

end Parser
end Stencil
