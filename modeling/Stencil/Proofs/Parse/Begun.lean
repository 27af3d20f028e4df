import Stencil.Proofs.Parse.Passed

/-! Expressions that are begun. Wherever the reader stands in an expression, what it has passed can be
gone on with to a whole one: by an operand, if one is due, and closing parentheses. -/
namespace Stencil

/-- Operands and closing parentheses. -/
def Closing (ys : List Symbol) : Prop :=
  ∀ y ∈ ys, y = ⟨.number (.int 1), ""⟩ ∨ y = ⟨.rightParen, ""⟩

theorem Closing.concat {ys : List Symbol} (h : Closing ys) : Closing (ys ++ [⟨.rightParen, ""⟩]) :=
  List.forall_mem_append.2 ⟨h, List.forall_mem_singleton.2 (.inr rfl)⟩

namespace Expr

variable {rank : Nat} {xs : List Symbol} {e : Expr} {args : List Expr}

/-- The beginning of an expression with operators up to a rank. -/
def Begun (rank : Nat) (xs : List Symbol) : Prop :=
  ∃ ys e, Closing ys ∧ Canonical e ∧ e.rank ≤ rank ∧ e.symbols = xs ++ ys

/-- The beginning of the arguments of a call. -/
def ArgumentsBegun (xs : List Symbol) : Prop :=
  ∃ ys args, Closing ys ∧ args ≠ [] ∧ AllCanonical args ∧ argumentSymbols args = xs ++ ys

namespace Begun

theorem nil (rank : Nat) : Begun rank [] :=
  ⟨[⟨.number (.int 1), ""⟩], .number (.int 1), by simp [Closing], trivial, Nat.zero_le _, rfl⟩

theorem whole (he : e.Canonical) (hrank : e.rank ≤ rank) : Begun rank e.symbols :=
  ⟨[], e, by simp [Closing], he, hrank, (List.append_nil _).symm⟩

theorem mono {rank' : Nat} (h : Begun rank xs) (hle : rank ≤ rank') : Begun rank' xs := by
  obtain ⟨ys, e, hys, he, hrank, hsymbols⟩ := h
  exact ⟨ys, e, hys, he, Nat.le_trans hrank hle, hsymbols⟩

theorem group (h : Begun 2 xs) : Begun 0 (⟨.leftParen, ""⟩ :: xs) := by
  obtain ⟨ys, e, hys, he, -, hsymbols⟩ := h
  refine ⟨ys ++ [⟨.rightParen, ""⟩], .group e, hys.concat, he, Nat.le_refl _, ?_⟩
  simp [symbols, hsymbols]

theorem call (f : Builtin) (h : ArgumentsBegun xs) :
    Begun 0 (⟨.text, f.name⟩ :: ⟨.leftParen, ""⟩ :: xs) := by
  obtain ⟨ys, args, hys, hne, hargs, hsymbols⟩ := h
  refine ⟨ys ++ [⟨.rightParen, ""⟩], .call f args, hys.concat, ⟨hne, hargs⟩, Nat.le_refl _, ?_⟩
  simp [symbols, hsymbols]

/-- Behind an operator an operand is due that binds tighter. -/
theorem binary {op : Operator} {lhs : Expr} (hop : op.rank = rank + 1) (hlhs : lhs.Canonical)
    (hrank : lhs.rank ≤ rank + 1) (h : Begun rank xs) :
    Begun (rank + 1) (lhs.symbols ++ ⟨op.kind, ""⟩ :: xs) := by
  obtain ⟨ys, e, hys, he, hle, hsymbols⟩ := h
  have hcanonical : (Expr.binary op lhs e).Canonical :=
    ⟨hlhs, he, by rw [hop]; exact hrank, by rw [hop]; exact Nat.lt_succ_of_le hle⟩
  refine ⟨ys, .binary op lhs e, hys, hcanonical, Nat.le_of_eq hop, ?_⟩
  simp [symbols, hsymbols]

end Begun

namespace ArgumentsBegun

theorem last (h : Begun 2 xs) : ArgumentsBegun xs := by
  obtain ⟨ys, e, hys, he, -, hsymbols⟩ := h
  refine ⟨ys, [e], hys, by simp, ⟨he, trivial⟩, ?_⟩
  rw [Parser.argumentSymbols_singleton, hsymbols]

theorem cons (he : e.Canonical) (h : ArgumentsBegun xs) :
    ArgumentsBegun (e.symbols ++ ⟨.comma, ""⟩ :: xs) := by
  obtain ⟨ys, args, hys, hne, hargs, hsymbols⟩ := h
  refine ⟨ys, e :: args, hys, by simp, ⟨he, hargs⟩, ?_⟩
  rw [Parser.argumentSymbols_cons hne, hsymbols, List.append_assoc, List.cons_append]

theorem whole (hne : args ≠ []) (hargs : ∀ e ∈ args, e.Canonical) :
    ArgumentsBegun (argumentSymbols args) :=
  ⟨[], args, by simp [Closing], hne, allCanonical_iff.2 hargs, (List.append_nil _).symm⟩

end ArgumentsBegun

end Expr

open Stencil.Expr (Begun ArgumentsBegun)
open Stencil.Parser (Reaches Forward Tells Blames)

variable {rank limit depth : Nat} {s s' : ParseState Lexed} {e : Expr}

/-- A reader of expressions that tells the first token with which none can go on. -/
structure Locates (p : Parser Lexed Expr) (rank : Nat) : Prop where
  sound : ∀ {s s' e}, p.run s = (.ok e, s') → Reaches s e.symbols s' ∧ e.Canonical ∧ e.rank ≤ rank
  blames : ∀ s, Blames s p s (Begun rank)

theorem Recognizes.reaches {p : Parser Lexed Expr} (h : Recognizes p rank depth) (hp : Forward p)
    (ok : p.run s = (.ok e, s')) : Reaches s e.symbols s' ∧ e.Canonical ∧ e.rank ≤ rank := by
  obtain ⟨hinput, he⟩ := h.sound ok
  exact ⟨.of_sound hp ok hinput, he.canonical, he.rank_le⟩

namespace Chain

variable {operator? : TokenKind → Option Operator} {operand : Nat → Parser Lexed Expr}
  {rest : Nat → Expr → Parser Lexed Expr}

theorem rest_blames (c : Chain rank operator? operand rest)
    (hoperand : ∀ d ≤ depth, Locates (operand d) rank) {lhs : Expr} (hlhs : lhs.Canonical)
    (hrank : lhs.rank ≤ rank + 1) (s : ParseState Lexed) :
    Blames s (rest depth lhs) s fun ys => Begun (rank + 1) (lhs.symbols ++ ys) := by
  induction depth generalizing lhs s with
  | zero => exact .of_ok (c.zero lhs s)
  | succ depth ih =>
    cases hop : operator? s.current.kind with
    | none => exact .of_ok (c.stop _ _ _ hop)
    | some op =>
      obtain ⟨hk, hoprank⟩ := c.operator.1 hop
      have hsymbol : s.current.symbol = ⟨op.kind, ""⟩ :=
        Token.symbol_of_kind hk op.kind_proper.2
      have hlocates : Locates (operand depth) rank := hoperand depth (Nat.le_succ _)
      refine .of_run_eq (c.go _ _ _ _ hop) (.advance_bind hsymbol op.kind_proper.1 fun s₁ _ => ?_)
      refine ((hlocates.blames s₁).mono fun _ ys => ?_).bind fun rhs s₂ hok => ?_
      · exact Begun.binary hoprank hlhs hrank
      · obtain ⟨hreach, hrhs, hrhsrank⟩ := hlocates.sound hok
        have hcanonical : (Expr.binary op lhs rhs).Canonical :=
          ⟨hlhs, hrhs, by rw [hoprank]; exact hrank, by rw [hoprank]; exact Nat.lt_succ_of_le hrhsrank⟩
        have hnext := ih (fun d hd => hoperand d (Nat.le_succ_of_le hd)) hcanonical
          (Nat.le_of_eq hoprank) s₂
        refine (hnext.mono fun _ ys hys => ?_).behind hreach
        simpa [Expr.symbols] using hys

theorem locates (c : Chain rank operator? operand rest)
    (hoperand : ∀ d ≤ depth, Locates (operand d) rank)
    (hsound : Recognizes (operand depth >>= rest depth) (rank + 1) depth)
    (hforward : Forward (operand depth >>= rest depth)) :
    Locates (operand depth >>= rest depth) (rank + 1) where
  sound ok := hsound.reaches hforward ok
  blames s := by
    have hfirst : Locates (operand depth) rank := hoperand depth (Nat.le_refl _)
    refine ((hfirst.blames s).mono fun _ ys hys => hys.mono (Nat.le_succ _)).bind fun lhs s₁ hok => ?_
    obtain ⟨hreach, hlhs, hrank⟩ := hfirst.sound hok
    exact (c.rest_blames hoperand hlhs (Nat.le_succ_of_le hrank) s₁).behind hreach

end Chain

namespace Parser

variable (limit)

theorem factor_forward (depth : Nat) : Forward (factor limit depth) :=
  ⟨Simulation.factor_agree (.refl limit depth)⟩

theorem product_forward (depth : Nat) : Forward (product limit depth) :=
  ⟨Simulation.product_agree (.refl limit depth)⟩

theorem sum_forward (depth : Nat) : Forward (sum limit depth) :=
  ⟨Simulation.sum_agree (.refl limit depth)⟩

theorem argumentStep_blames (f : Builtin) {argument : Parser Lexed Expr}
    (hargument : Locates argument 2) (args : List Expr) (s : ParseState Lexed) :
    Blames s (argumentStep f argument args) s ArgumentsBegun := by
  unfold argumentStep
  refine .require_bind (fun _ _ => .last (.nil 2)) fun _ => ?_
  refine ((hargument.blames s).mono fun _ _ => .last).bind fun e s₁ hok => ?_
  obtain ⟨hreach, he, -⟩ := hargument.sound hok
  refine .behind hreach (.of_run_eq (Reader.run_bind_ok (run_kind s₁) _) ?_)
  split
  · rename_i hcomma
    refine .advance_bind (Token.symbol_of_kind hcomma (by simp)) (by simp) fun s₂ _ => ?_
    exact .require_bind (fun _ _ => .cons he (.last (.nil 2))) fun _ => .of_ok (Reader.run_pure _ s₂)
  · exact .of_ok (Reader.run_pure _ s₁)

theorem argumentStep_reaches (f : Builtin) {args args' : List Expr}
    (ok : (argumentStep f (sum limit depth) args).run s = (.ok (.inl args'), s')) :
    ∃ e : Expr, e.Canonical ∧ Reaches s (e.symbols ++ [⟨.comma, ""⟩]) s' := by
  obtain ⟨e, -, hinput, he⟩ := argumentStep_more_sound (sum_recognizes limit depth) ok
  have hforward : Forward (argumentStep f (sum limit depth) args) :=
    ⟨fun h => Simulation.argumentStep_agree f h ((sum_forward limit depth).agree h) args⟩
  exact ⟨e, he.canonical, .of_sound hforward ok (by simpa using hinput)⟩

theorem arguments_blames (f : Builtin) (hsum : Locates (sum limit depth) 2) (s : ParseState Lexed) :
    Blames s (arguments f (sum limit depth)) s ArgumentsBegun := by
  refine Tells.repeatFrom (I := fun _ => True) (fun args s _ => ?_)
    (fun args s args' s₁ _ hok => ⟨trivial, ?_⟩) trivial
  · exact argumentStep_blames f hsum args s
  · obtain ⟨e, he, hreach⟩ := argumentStep_reaches limit f hok
    refine ⟨_, hreach, fun _ ys hys => ?_⟩
    simpa using ArgumentsBegun.cons he hys

theorem arguments_reaches (f : Builtin) {args : List Expr}
    (ok : (arguments f (sum limit depth)).run s = (.ok args, s')) :
    Reaches s (Expr.argumentSymbols args) s' ∧ args ≠ [] ∧ ∀ e ∈ args, e.Canonical := by
  obtain ⟨_, rfl, hne, hinput, hargs⟩ := arguments_sound (sum_recognizes limit depth) ok
  have hforward : Forward (arguments f (sum limit depth)) :=
    ⟨fun h => Simulation.arguments_agree f h fun _ _ _ => (sum_forward limit depth).agree⟩
  exact ⟨.of_sound hforward ok hinput, hne, fun e he => (hargs e he).canonical⟩

theorem factor_blames (hsum : Locates (sum limit depth) 2) (s : ParseState Lexed) :
    Blames s (factor limit (depth + 1)) s (Begun 0) := by
  rw [factor]
  refine .of_run_eq (Reader.run_bind_ok (run_current s) _) ?_
  split
  · exact Tells.advance.bind fun _ s₁ _ => .of_ok (Reader.run_pure _ s₁)
  · rename_i htext
    refine Tells.advance.bind fun _ s₁ hok => ?_
    refine .of_run_eq (Reader.run_bind_ok (run_kind s₁) _) ?_
    split
    · rename_i hparen
      split
      · -- the name is found wrong, which is not in view any more
        obtain ⟨back, htokens⟩ := s.tokens_eq_cons
        exact .failAt [] htokens fun _ => .nil 0
      · rename_i f hf
        have hname : s.current.symbol = ⟨.text, f.name⟩ := by
          rw [Token.symbol_of_text htext, Builtin.name_of_ofName? hf]
        have hreach : Reaches s [⟨.text, f.name⟩] s₁ := by
          rw [← hname]
          exact .advance (by simp [htext]) hok
        refine .behind hreach (.require_bind (fun hdepth _ => absurd rfl (hdepth limit)) fun _ => ?_)
        refine .advance_bind (Token.symbol_of_kind hparen (by simp)) (by simp) fun s₂ _ => ?_
        refine ((arguments_blames limit f hsum s₂).mono fun _ _ => .call f).bind fun args s₃ hargs => ?_
        obtain ⟨hreach₃, hne, hcanonical⟩ := arguments_reaches limit f hargs
        refine .behind hreach₃ (.require_bind (fun _ _ => ?_) fun _ => ?_)
        · rw [List.append_nil]
          exact .call f (.whole hne hcanonical)
        · exact Tells.advance.bind fun _ s₄ _ => .of_ok (Reader.run_pure _ s₄)
    · exact .of_ok (Reader.run_pure _ s₁)
  · rename_i hparen
    refine .advance_bind (Token.symbol_of_kind hparen (by simp)) (by simp) fun s₁ _ => ?_
    refine ((hsum.blames s₁).mono fun _ _ => .group).bind fun inner s₂ hok => ?_
    obtain ⟨hreach, hinner, hrank⟩ := hsum.sound hok
    refine .behind hreach (.expect_bind (by simp [TokenKind.Plain]) (fun _ _ => ?_) fun t s₃ _ => ?_)
    · rw [List.append_nil]
      exact .group (.whole hinner hrank)
    · exact .of_ok (Reader.run_pure _ s₃)
  · exact .failHere fun _ => .nil 0
  · exact .failHere fun _ => .nil 0

theorem factor_locates (hsum : ∀ d < depth, Locates (sum limit d) 2) :
    Locates (factor limit depth) 0 where
  sound ok :=
    (factor_recognizes limit depth fun d _ => sum_recognizes limit d).reaches
      (factor_forward limit depth) ok
  blames s := by
    cases depth with
    | zero =>
      intro e s' hfail hdepth
      rw [factor] at hfail
      cases hfail
      exact absurd rfl (hdepth limit)
    | succ depth => exact factor_blames limit (hsum depth (Nat.lt_succ_self _)) s

theorem sum_locates (depth : Nat) : Locates (sum limit depth) 2 := by
  induction depth using Nat.strongRecOn with
  | ind depth ih =>
    have hfactor : ∀ d ≤ depth, Locates (factor limit d) 0 := fun d hd =>
      factor_locates limit fun d' hd' => ih d' (Nat.lt_of_lt_of_le hd' hd)
    have hproduct : ∀ d ≤ depth, Locates (product limit d) 1 := by
      intro d hd
      have hsound := product_recognizes limit d
      have hforward := product_forward limit d
      rw [product] at hsound hforward ⊢
      exact (productChain limit).locates (fun d' hd' => hfactor d' (Nat.le_trans hd' hd)) hsound
        hforward
    have hsound := sum_recognizes limit depth
    have hforward := sum_forward limit depth
    rw [sum] at hsound hforward ⊢
    exact (sumChain limit).locates hproduct hsound hforward

end Parser
end Stencil
