import Stencil.Proofs.Parse.Begun
import Stencil.Proofs.Parse.Cuts

/-! Why a loop keyword is refused inside an expression: for what is due at its place, an operand, the
first one of an argument, or what may follow an operand. -/
namespace Stencil

open Stencil.Parser (Tells Reaches)

/-- What is due at a place of an expression: an operand, the first one of an argument, or, behind a
name or another operand, what may follow it. -/
inductive Due
  | operand
  | argument
  | afterName
  | afterOperand
  deriving DecidableEq

namespace Due

def after (due : Due) : TokenKind → Due
  | .plus | .minus | .star | .slash => .operand
  | .leftParen => if due = .afterName then .argument else .operand
  | .comma => .argument
  | .text => .afterName
  | _ => .afterOperand

/-- What is due behind some symbols. -/
def behind (due : Due) (xs : List Symbol) : Due := xs.foldl (fun due x => due.after x.kind) due

@[simp] theorem behind_nil (due : Due) : due.behind [] = due := rfl

@[simp] theorem behind_cons (due : Due) (x : Symbol) (xs : List Symbol) :
    due.behind (x :: xs) = (due.after x.kind).behind xs := rfl

@[simp] theorem behind_append (due : Due) (xs ys : List Symbol) :
    due.behind (xs ++ ys) = (due.behind xs).behind ys := List.foldl_append

/-- Behind an operand, which may be the last one. -/
def Complete (due : Due) : Prop := due = .afterName ∨ due = .afterOperand

theorem after_operator (due : Due) (op : Operator) : due.after op.kind = .operand := by
  cases op <;> rfl

/-- An argument goes on like any operand. -/
theorem behind_argument {xs : List Symbol} (hne : xs ≠ []) :
    Due.argument.behind xs = Due.operand.behind xs := by
  obtain ⟨x, xs, rfl⟩ := List.exists_cons_of_ne_nil hne
  have hafter : Due.argument.after x.kind = Due.operand.after x.kind := by
    cases x.kind <;> rfl
  rw [behind_cons, behind_cons, hafter]

theorem complete_symbols (due : Due) (e : Expr) : (due.behind e.symbols).Complete := by
  cases e with
  | slot name => exact .inl rfl
  | number value => exact .inr rfl
  | group inner =>
    rw [Expr.symbols, behind_append]
    exact .inr rfl
  | binary op lhs rhs =>
    rw [Expr.symbols, behind_append, behind_cons]
    exact complete_symbols _ rhs
  | call f args =>
    rw [Expr.symbols, behind_append]
    exact .inr rfl

theorem complete_argumentSymbols (due : Due) {args : List Expr} (hne : args ≠ []) :
    (due.behind (Expr.argumentSymbols args)).Complete := by
  induction args generalizing due with
  | nil => contradiction
  | cons arg args ih =>
    by_cases hnil : args = []
    · rw [hnil, Parser.argumentSymbols_singleton]
      exact complete_symbols due arg
    · rw [Parser.argumentSymbols_cons hnil, behind_append]
      exact ih _ hnil

end Due

/-- Why a loop keyword is refused behind some symbols of an expression at whose start `due` is due,
with `depth` levels left there. -/
structure Misread (limit depth : Nat) (due : Due) (cause : SyntaxError.Cause) (xs : List Symbol) :
    Prop where
  inner : ∀ x ∈ xs, x.kind.Inner
  operand : due.behind xs = .operand →
    cause = .misplacedLoop .insideExpression ∨ cause = .tooDeep limit ∧ depth ≤ xs.length
  argument : due.behind xs = .argument → cause = .unexpected .operand
  complete : (due.behind xs).Complete → ∃ expectation, cause = .unexpected expectation

namespace Misread

variable {limit depth depth' : Nat} {due due' : Due} {cause : SyntaxError.Cause}
  {xs ys : List Symbol}

theorem append (xs : List Symbol) (h : Misread limit depth' due' cause ys)
    (hinner : ∀ x ∈ xs, x.kind.Inner) (hdue : due.behind xs = due')
    (hdepth : depth ≤ xs.length + depth') : Misread limit depth due cause (xs ++ ys) := by
  have hbehind : due.behind (xs ++ ys) = due'.behind ys := by rw [Due.behind_append, hdue]
  have hlength : (xs ++ ys).length = xs.length + ys.length := List.length_append
  constructor
  case inner => exact List.forall_mem_append.2 ⟨hinner, h.inner⟩
  case operand =>
    intro hoperand
    rw [hbehind] at hoperand
    rcases h.operand hoperand with hmisplaced | ⟨hdeep, hlevels⟩
    · exact .inl hmisplaced
    · exact .inr ⟨hdeep, by omega⟩
  case argument =>
    intro hargument
    rw [hbehind] at hargument
    exact h.argument hargument
  case complete =>
    intro hcomplete
    rw [hbehind] at hcomplete
    exact h.complete hcomplete

/-- Behind an operand anything is refused as what was not expected. -/
theorem of_complete (hinner : ∀ x ∈ xs, x.kind.Inner) (hdue : (due.behind xs).Complete)
    (expectation : Expectation) : Misread limit depth due (.unexpected expectation) xs where
  inner := hinner
  operand hoperand := by
    rw [hoperand] at hdue
    rcases hdue with h | h <;> cases h
  argument hargument := by
    rw [hargument] at hdue
    rcases hdue with h | h <;> cases h
  complete _ := ⟨expectation, rfl⟩

theorem of_operand
    (h : cause = .misplacedLoop .insideExpression ∨ cause = .tooDeep limit ∧ depth = 0) :
    Misread limit depth .operand cause [] where
  inner := by simp
  operand _ := h.imp_right fun hdeep => ⟨hdeep.1, Nat.le_of_eq hdeep.2⟩
  argument h := by cases h
  complete h := by rcases h with h | h <;> cases h

theorem of_argument : Misread limit depth .argument (.unexpected .operand) [] where
  inner := by simp
  operand h := by cases h
  argument _ := rfl
  complete h := by rcases h with h | h <;> cases h

theorem asArgument (h : Misread limit depth .operand cause xs) (hne : xs ≠ []) :
    Misread limit depth .argument cause xs := by
  have hbehind := Due.behind_argument hne
  exact ⟨h.inner, hbehind ▸ h.operand, hbehind ▸ h.argument, hbehind ▸ h.complete⟩

theorem group (h : Misread limit depth .operand cause xs) :
    Misread limit (depth + 1) .operand cause (⟨.leftParen, ""⟩ :: xs) :=
  h.append [_] (by simp [TokenKind.Inner]) rfl (Nat.le_of_eq (Nat.add_comm depth 1))

theorem call (name : String) (h : Misread limit depth .argument cause xs) :
    Misread limit (depth + 1) .operand cause (⟨.text, name⟩ :: ⟨.leftParen, ""⟩ :: xs) :=
  h.append [_, _] (by simp [TokenKind.Inner]) rfl (Nat.add_comm depth 2 ▸ Nat.le_succ _)

end Misread

/-- The errors at a loop keyword. -/
abbrev AtLoopWord (e : SyntaxError) : Prop := e.found.kind = .foreachWord

/-- A reader of expressions that passes their symbols, and tells why it refuses a loop keyword. -/
structure Refuses (limit depth : Nat) (p : Parser Lexed Expr) : Prop where
  reaches : ∀ {s s' e}, p.run s = (.ok e, s') → Reaches s e.symbols s'
  tells : ∀ s, Tells AtLoopWord s p s (Misread limit depth .operand)

namespace Chain

variable {rank limit depth : Nat} {operator? : TokenKind → Option Operator}
  {operand : Nat → Parser Lexed Expr} {rest : Nat → Expr → Parser Lexed Expr}

theorem rest_tells (c : Chain rank operator? operand rest)
    (hoperand : ∀ d ≤ depth, Refuses limit d (operand d)) (due : Due) (lhs : Expr)
    (s : ParseState Lexed) : Tells AtLoopWord s (rest depth lhs) s (Misread limit depth due) := by
  induction depth generalizing due lhs s with
  | zero => exact .of_ok (c.zero lhs s)
  | succ depth ih =>
    cases hop : operator? s.current.kind with
    | none => exact .of_ok (c.stop _ _ _ hop)
    | some op =>
      obtain ⟨hk, -⟩ := c.operator.1 hop
      have hsymbol : s.current.symbol = ⟨op.kind, ""⟩ :=
        Token.symbol_of_kind hk op.kind_proper.2
      have hinner : op.kind.Inner := op.kind_inExpression.1
      have hrefuses : Refuses limit depth (operand depth) := hoperand depth (Nat.le_succ _)
      refine .of_run_eq (c.go _ _ _ _ hop) (.advance_bind hsymbol op.kind_proper.1 fun s₁ _ => ?_)
      refine ((hrefuses.tells s₁).mono fun _ ys hys => ?_).bind fun rhs s₂ hok => ?_
      · exact hys.append [_] (by simpa using hinner) (due.after_operator op)
          (Nat.le_of_eq (Nat.add_comm depth 1))
      · have hrest := ih (fun d hd => hoperand d (Nat.le_succ_of_le hd))
          (due.behind (⟨op.kind, ""⟩ :: rhs.symbols)) (.binary op lhs rhs) s₂
        refine (hrest.mono fun _ ys hys => ?_).behind (hrefuses.reaches hok)
        refine hys.append (⟨op.kind, ""⟩ :: rhs.symbols) ?_ rfl ?_
        · exact List.forall_mem_cons.2 ⟨hinner, rhs.symbols_inner⟩
        · rw [List.length_cons]
          omega

theorem refuses (c : Chain rank operator? operand rest)
    (hoperand : ∀ d ≤ depth, Refuses limit d (operand d))
    (hreaches : ∀ {s s' e}, (operand depth >>= rest depth).run s = (.ok e, s') →
      Reaches s e.symbols s') : Refuses limit depth (operand depth >>= rest depth) where
  reaches := hreaches
  tells s := by
    have hfirst : Refuses limit depth (operand depth) := hoperand depth (Nat.le_refl _)
    refine (hfirst.tells s).bind fun lhs s₁ hok => ?_
    have hrest := c.rest_tells hoperand (Due.operand.behind lhs.symbols) lhs s₁
    refine (hrest.mono fun _ ys hys => ?_).behind (hfirst.reaches hok)
    exact hys.append _ lhs.symbols_inner rfl (Nat.le_add_left _ _)

end Chain

namespace Parser

variable {limit depth : Nat} {α : Type} {s s' : ParseState Lexed} {p : Parser Lexed α}
  {V : SyntaxError.Cause → List Symbol → Prop}

/-- Where no loop keyword is in view, one that is refused stands further on. -/
theorem Tells.later (h : Tells AtLoopWord s p s V) (hk : s.current.kind ≠ .foreachWord) :
    Tells AtLoopWord s p s fun c xs => xs ≠ [] ∧ V c xs := by
  intro e s' hfail he
  obtain ⟨front, back, htokens, hfront⟩ := h e s' hfail he
  refine ⟨front, back, htokens, ?_, hfront⟩
  intro hnil
  rw [List.map_eq_nil_iff.1 hnil, List.nil_append] at htokens
  obtain ⟨more, hcurrent⟩ := s.tokens_eq_cons
  rw [hcurrent] at htokens
  have hfound : s.current = e.found := (List.cons.inj htokens).1
  exact hk (hfound ▸ he)

/-- What is in view is not the keyword, and so not what is refused. -/
theorem not_atLoopWord {k : TokenKind} {cause : SyntaxError.Cause} {t : Token} (ht : t.kind = k)
    (hk : k ≠ .foreachWord) : ¬ AtLoopWord ⟨cause, t⟩ := fun h => hk (ht.symm.trans h)

variable (limit)

theorem argumentStep_tells (f : Builtin) {argument : Parser Lexed Expr}
    (hargument : Refuses limit depth argument) (args : List Expr) (s : ParseState Lexed) :
    Tells AtLoopWord s (argumentStep f argument args) s (Misread limit depth .argument) := by
  unfold argumentStep
  refine .require_bind (fun _ _ => .of_argument) fun hstart => ?_
  have hk : s.current.kind ≠ .foreachWord := by
    intro hword
    rw [hword] at hstart
    cases hstart
  refine (((hargument.tells s).later hk).mono fun _ xs hxs => hxs.2.asArgument hxs.1).bind
    fun e s₁ hok => ?_
  refine .behind (hargument.reaches hok) (.of_run_eq (Reader.run_bind_ok (run_kind s₁) _) ?_)
  split
  · rename_i hcomma
    refine .advance_bind (Token.symbol_of_kind hcomma (by simp)) (by simp) fun s₂ _ => ?_
    refine .require_bind (fun hword hparen => ?_) fun _ => .of_ok (Reader.run_pure _ s₂)
    exact absurd hword (not_atLoopWord (by simpa using hparen) (by simp))
  · exact .of_ok (Reader.run_pure _ s₁)

theorem arguments_tells (f : Builtin) (hsum : Refuses limit depth (sum limit depth))
    (s : ParseState Lexed) :
    Tells AtLoopWord s (arguments f (sum limit depth)) s (Misread limit depth .argument) := by
  refine .repeatFrom (I := fun _ => True) (fun args s _ => argumentStep_tells limit f hsum args s)
    (fun args s args' s₁ _ hok => ⟨trivial, ?_⟩) trivial
  obtain ⟨e, -, hreach⟩ := argumentStep_reaches limit f hok
  refine ⟨_, hreach, fun _ ys hys => hys.append _ ?_ ?_ (Nat.le_add_left _ _)⟩
  · exact List.forall_mem_append.2 ⟨e.symbols_inner, by simp [TokenKind.Inner]⟩
  · rw [Due.behind_append]
    rfl

theorem factor_tells (hsum : Refuses limit depth (sum limit depth)) (s : ParseState Lexed) :
    Tells AtLoopWord s (factor limit (depth + 1)) s (Misread limit (depth + 1) .operand) := by
  rw [factor]
  refine .of_run_eq (Reader.run_bind_ok (run_current s) _) ?_
  split
  · exact Tells.advance.bind fun _ s₁ _ => .of_ok (Reader.run_pure _ s₁)
  · rename_i htext
    refine Tells.advance.bind fun _ s₁ hok => ?_
    refine .of_run_eq (Reader.run_bind_ok (run_kind s₁) _) ?_
    split
    · rename_i hparen
      split
      · obtain ⟨back, htokens⟩ := s.tokens_eq_cons
        exact .failAt [] htokens fun hword => absurd hword (not_atLoopWord htext (by simp))
      · rename_i f hf
        have hname : s.current.symbol = ⟨.text, f.name⟩ := by
          rw [Token.symbol_of_text htext, Builtin.name_of_ofName? hf]
        have hreach : Reaches s [⟨.text, f.name⟩] s₁ := by
          rw [← hname]
          exact .advance (by simp [htext]) hok
        refine .behind hreach (.require_bind
          (fun hword _ => absurd hword (not_atLoopWord hparen (by simp))) fun _ => ?_)
        refine .advance_bind (Token.symbol_of_kind hparen (by simp)) (by simp) fun s₂ _ => ?_
        refine ((arguments_tells limit f hsum s₂).mono fun _ _ => .call f.name).bind
          fun args s₃ hargs => ?_
        obtain ⟨hreach₃, hne, -⟩ := arguments_reaches limit f hargs
        refine .behind hreach₃ (.require_bind (fun _ _ => ?_) fun _ => ?_)
        · rw [List.append_nil]
          exact .call f.name (.of_complete (Expr.argumentSymbols_inner args)
            (Due.complete_argumentSymbols _ hne) _)
        · exact Tells.advance.bind fun _ s₄ _ => .of_ok (Reader.run_pure _ s₄)
    · exact .of_ok (Reader.run_pure _ s₁)
  · rename_i hparen
    refine .advance_bind (Token.symbol_of_kind hparen (by simp)) (by simp) fun s₁ _ => ?_
    refine ((hsum.tells s₁).mono fun _ _ => .group).bind fun inner s₂ hok => ?_
    refine .behind (hsum.reaches hok)
      (.expect_bind (by simp [TokenKind.Plain]) (fun _ _ => ?_) fun t s₃ _ => ?_)
    · rw [List.append_nil]
      exact .group (.of_complete inner.symbols_inner (Due.complete_symbols _ inner) _)
    · exact .of_ok (Reader.run_pure _ s₃)
  · exact .failHere fun _ => .of_operand (.inl rfl)
  · rename_i hother
    exact .failHere fun hword => absurd hword hother

theorem factor_refuses (hsum : ∀ d < depth, Refuses limit d (sum limit d)) :
    Refuses limit depth (factor limit depth) where
  reaches ok :=
    ((factor_recognizes limit depth fun d _ => sum_recognizes limit d).reaches
      (factor_forward limit depth) ok).1
  tells s := by
    cases depth with
    | zero =>
      rw [factor]
      exact .failHere fun _ => .of_operand (.inr ⟨rfl, rfl⟩)
    | succ depth => exact factor_tells limit (hsum depth (Nat.lt_succ_self _)) s

theorem sum_refuses (depth : Nat) : Refuses limit depth (sum limit depth) := by
  induction depth using Nat.strongRecOn with
  | ind depth ih =>
    have hfactor : ∀ d ≤ depth, Refuses limit d (factor limit d) := fun d hd =>
      factor_refuses limit fun d' hd' => ih d' (Nat.lt_of_lt_of_le hd' hd)
    have hproduct : ∀ d ≤ depth, Refuses limit d (product limit d) := by
      intro d hd
      have hsound := product_recognizes limit d
      have hforward := product_forward limit d
      rw [product] at hsound hforward ⊢
      exact (productChain limit).refuses (fun d' hd' => hfactor d' (Nat.le_trans hd' hd))
        fun ok => (hsound.reaches hforward ok).1
    have hsound := sum_recognizes limit depth
    have hforward := sum_forward limit depth
    rw [sum] at hsound hforward ⊢
    exact (sumChain limit).refuses hproduct fun ok => (hsound.reaches hforward ok).1

end Parser

end Stencil
