import Stencil.Proofs.Parse.Input

/-! The reader of expressions against the grammar: it answers with the canonical trees that fit into
its depth, and leaves behind an expression what cannot belong to it. -/
namespace Stencil

theorem Operator.kind_injective {op op' : Operator} (h : op.kind = op'.kind) : op = op' := by
  cases op <;> cases op' <;> first | rfl | cases h

theorem TokenKind.productOperator?_eq_some {k : TokenKind} {op : Operator} :
    k.productOperator? = some op ↔ k = op.kind ∧ op.rank = 1 := by
  cases k <;> cases op <;> simp [productOperator?, Operator.kind, Operator.rank]

theorem TokenKind.sumOperator?_eq_some {k : TokenKind} {op : Operator} :
    k.sumOperator? = some op ↔ k = op.kind ∧ op.rank = 2 := by
  cases k <;> cases op <;> simp [sumOperator?, Operator.kind, Operator.rank]

theorem Operator.kind_proper (op : Operator) : op.kind ≠ .endOfFile ∧ op.kind ≠ .text := by
  cases op <;> simp [kind]

theorem Builtin.name_of_ofName? {text : String} {f : Builtin} (h : ofName? text = some f) :
    f.name = text := by
  have hfound := List.find?_some h
  simpa using hfound

/-- Kinds that end an expression with operators up to a rank. -/
def TokenKind.Stops (rank : Nat) (k : TokenKind) : Prop :=
  k ≠ .leftParen ∧ ∀ op : Operator, op.rank ≤ rank → k ≠ op.kind

/-- Closing parentheses, braces and commas end any expression. -/
theorem TokenKind.stops_of_closing {k : TokenKind}
    (h : k = .rightParen ∨ k = .comma ∨ k = .closeBlock) (rank : Nat) : k.Stops rank := by
  have hop : ∀ op : Operator, op.rank ≤ rank → k ≠ op.kind := by
    intro op _
    rcases h with rfl | rfl | rfl <;> cases op <;> simp [Operator.kind]
  refine ⟨?_, hop⟩
  rcases h with rfl | rfl | rfl <;> simp

theorem Operator.kind_stops {op : Operator} {rank : Nat} (h : rank < op.rank) :
    op.kind.Stops rank := by
  constructor
  · cases op <;> simp [Operator.kind]
  · intro op' hle hk
    rw [Operator.kind_injective hk] at h
    omega

/-- What a reader of expressions does: it answers with a tree within its bounds whose symbols stand
in front of it, and it reads every such tree. -/
structure Recognizes (p : Parser Lexed Expr) (rank depth : Nat) : Prop where
  sound : ∀ {s s' e}, p.run s = (.ok e, s') →
    s.input = e.symbols ++ s'.input ∧ e.Within rank depth
  complete : ∀ {s e y rest}, e.Within rank depth → s.input = e.symbols ++ y :: rest →
    y.kind.Stops rank → ∃ s', p.run s = (.ok e, s') ∧ s'.input = y :: rest

/-- A reader that joins operands by the operators of the next rank, each of which leaves less depth
for the operand behind it. -/
structure Chain (rank : Nat) (operator? : TokenKind → Option Operator)
    (operand : Nat → Parser Lexed Expr) (rest : Nat → Expr → Parser Lexed Expr) : Prop where
  operator : ∀ {k op}, operator? k = some op ↔ k = op.kind ∧ op.rank = rank + 1
  zero : ∀ lhs s, (rest 0 lhs).run s = (.ok lhs, s)
  stop : ∀ depth lhs s, operator? s.current.kind = none → (rest depth lhs).run s = (.ok lhs, s)
  go : ∀ depth lhs s op, operator? s.current.kind = some op →
    (rest (depth + 1) lhs).run s =
      (Parser.advance >>= fun _ => operand depth >>= fun rhs =>
        rest depth (.binary op lhs rhs)).run s

namespace Chain

variable {rank : Nat} {operator? : TokenKind → Option Operator}
  {operand : Nat → Parser Lexed Expr} {rest : Nat → Expr → Parser Lexed Expr}

theorem rest_sound (c : Chain rank operator? operand rest) {depth : Nat} {lhs e : Expr}
    {s s' : ParseState Lexed} (hoperand : ∀ d ≤ depth, Recognizes (operand d) rank d)
    (hlhs : lhs.Within (rank + 1) (depth + lhs.links (rank + 1)))
    (h : (rest depth lhs).run s = (.ok e, s')) :
    lhs.symbols ++ s.input = e.symbols ++ s'.input ∧
      e.Within (rank + 1) (depth + lhs.links (rank + 1)) := by
  induction depth generalizing lhs s with
  | zero =>
    rw [c.zero] at h
    cases h
    exact ⟨rfl, hlhs⟩
  | succ depth ih =>
    cases hop : operator? s.current.kind with
    | none =>
      rw [c.stop _ _ _ hop] at h
      cases h
      exact ⟨rfl, hlhs⟩
    | some op =>
      rw [c.go _ _ _ _ hop] at h
      simp only [Reader.run_bind_eq_ok] at h
      obtain ⟨_, s₁, hadvance, rhs, s₂, hread, h⟩ := h
      obtain ⟨hk, hrank⟩ := c.operator.1 hop
      obtain ⟨hinput, hrhs⟩ := (hoperand depth (Nat.le_succ _)).sound hread
      have hfirst := Parser.advance_kind_sound hk op.kind_proper hadvance
      have hlinks := Expr.links_binary op lhs rhs
      rw [hrank] at hlinks
      obtain ⟨hsymbols, hwithin⟩ :=
        ih (fun d hd => hoperand d (by omega)) (hlhs.binary hrank hrhs) h
      constructor
      · rw [← hsymbols, hfirst, hinput, Expr.symbols]
        simp
      · rw [hlinks] at hwithin
        rw [Nat.add_right_comm depth 1]
        exact hwithin

/-- From the start of an expression the reader gets behind its last operand. -/
theorem reaches (c : Chain rank operator? operand rest) {depth : Nat}
    (hoperand : ∀ d ≤ depth, Recognizes (operand d) rank d) :
    (e : Expr) → {s : ParseState Lexed} → {y : Symbol} → {ys : List Symbol} →
      e.Within (rank + 1) depth → s.input = e.symbols ++ y :: ys → y.kind.Stops rank →
      ∃ s', (operand depth >>= rest depth).run s =
        (rest (depth - e.links (rank + 1)) e).run s' ∧ s'.input = y :: ys := by
  intro e s y ys he hinput hstops
  by_cases hrank : e.rank ≤ rank
  · obtain ⟨s', hread, hinput'⟩ := (hoperand depth (Nat.le_refl _)).complete
      ⟨he.canonical, hrank, he.need_lt⟩ hinput hstops
    rw [Expr.links_of_rank_lt (Nat.lt_succ_of_le hrank)]
    exact ⟨s', Reader.run_bind_ok hread _, hinput'⟩
  · cases e with
    | binary op lhs rhs =>
      have hop : op.rank = rank + 1 := by
        have hle : op.rank ≤ rank + 1 := he.rank_le
        have hlt : ¬op.rank ≤ rank := hrank
        omega
      obtain ⟨hl, hr, hlrank, hrrank⟩ := he.canonical
      have hneed := he.need_lt
      have hlinks := Expr.links_binary op lhs rhs
      rw [hop] at hlinks hlrank hrrank
      rw [Expr.need, hop] at hneed
      rw [Expr.symbols, List.append_assoc, List.cons_append] at hinput
      obtain ⟨s₁, hreach, hinput₁⟩ := c.reaches hoperand lhs ⟨hl, hlrank, by omega⟩ hinput
        (Operator.kind_stops (by omega))
      obtain ⟨s₂, hadvance, hinput₂⟩ := Parser.advance_complete hinput₁ (by simp)
      obtain ⟨d, hd⟩ : ∃ d, depth - lhs.links (rank + 1) = d + 1 :=
        Nat.exists_eq_add_one.2 (by omega)
      obtain ⟨s₃, hread, hinput₃⟩ := (hoperand d (by omega)).complete
        ⟨hr, by omega, by omega⟩ hinput₂ hstops
      have hoperator : operator? s₁.current.kind = some op :=
        c.operator.2 ⟨ParseState.kind_of_input hinput₁, hop⟩
      have hdepth : depth - (Expr.binary op lhs rhs).links (rank + 1) = d := by omega
      refine ⟨s₃, ?_, hinput₃⟩
      rw [hreach, hd, c.go _ _ _ _ hoperator, Reader.run_bind_ok hadvance,
        Reader.run_bind_ok hread, hdepth]
    | _ => exact absurd (Nat.zero_le _) hrank

theorem recognizes (c : Chain rank operator? operand rest) {depth : Nat}
    (hoperand : ∀ d ≤ depth, Recognizes (operand d) rank d) :
    Recognizes (operand depth >>= rest depth) (rank + 1) depth where
  sound h := by
    obtain ⟨lhs, s₁, hread, h⟩ := Reader.run_bind_eq_ok.1 h
    obtain ⟨hinput, hlhs⟩ := (hoperand depth (Nat.le_refl _)).sound hread
    have hlinks := Expr.links_of_rank_lt (Nat.lt_succ_of_le hlhs.rank_le)
    obtain ⟨hsymbols, hwithin⟩ := c.rest_sound hoperand
      ⟨hlhs.canonical, Nat.le_succ_of_le hlhs.rank_le, by rw [hlinks]; exact hlhs.need_lt⟩ h
    rw [hlinks] at hwithin
    exact ⟨hinput.trans hsymbols, hwithin⟩
  complete {s e y ys} he hinput hstops := by
    obtain ⟨hparen, hop⟩ := hstops
    obtain ⟨s', hreach, hinput'⟩ := c.reaches hoperand e he hinput
      ⟨hparen, fun op hle => hop op (Nat.le_succ_of_le hle)⟩
    have hnone : operator? s'.current.kind = none := by
      cases hsome : operator? s'.current.kind with
      | none => rfl
      | some op =>
        obtain ⟨hk, hrank⟩ := c.operator.1 hsome
        rw [ParseState.kind_of_input hinput'] at hk
        exact absurd hk (hop op (Nat.le_of_eq hrank))
    exact ⟨s', by rw [hreach, c.stop _ _ _ hnone], hinput'⟩

end Chain

namespace Parser

theorem productChain (limit : Nat) :
    Chain 0 TokenKind.productOperator? (factor limit) (productRest limit) where
  operator := TokenKind.productOperator?_eq_some
  zero lhs s := by
    rw [productRest]
    rfl
  stop depth lhs s h := by
    cases depth with
    | zero =>
      rw [productRest]
      rfl
    | succ depth =>
      rw [productRest, Reader.run_bind_ok (run_kind s), h]
      rfl
  go depth lhs s op h := by
    rw [productRest, Reader.run_bind_ok (run_kind s), h]

theorem sumChain (limit : Nat) :
    Chain 1 TokenKind.sumOperator? (product limit) (sumRest limit) where
  operator := TokenKind.sumOperator?_eq_some
  zero lhs s := by
    rw [sumRest]
    rfl
  stop depth lhs s h := by
    cases depth with
    | zero =>
      rw [sumRest]
      rfl
    | succ depth =>
      rw [sumRest, Reader.run_bind_ok (run_kind s), h]
      rfl
  go depth lhs s op h := by
    rw [sumRest, Reader.run_bind_ok (run_kind s), h]

theorem startsOperand_of_input {s : ParseState Lexed} {e : Expr} {ys : List Symbol}
    (h : s.input = e.symbols ++ ys) : s.current.kind.startsOperand := by
  obtain ⟨x, xs, hsymbols, hx⟩ := e.symbols_eq_cons
  rw [hsymbols] at h
  rw [ParseState.kind_of_input h]
  exact hx

theorem argumentSymbols_cons {e : Expr} {args : List Expr} (h : args ≠ []) :
    Expr.argumentSymbols (e :: args) = e.symbols ++ ⟨.comma, ""⟩ :: Expr.argumentSymbols args := by
  cases args with
  | nil => contradiction
  | cons arg args => rfl

theorem argumentSymbols_singleton (e : Expr) : Expr.argumentSymbols [e] = e.symbols := by
  rw [Expr.argumentSymbols]
  exact List.append_nil _

variable {f : Builtin} {argument : Parser Lexed Expr} {depth : Nat} {s s' : ParseState Lexed}

theorem argumentStep_last_sound (hargument : Recognizes argument 2 depth) {done args : List Expr}
    (h : (argumentStep f argument done).run s = (.ok (.inr args), s')) :
    ∃ e, args = (e :: done).reverse ∧ s.input = e.symbols ++ s'.input ∧ e.Within 2 depth := by
  simp only [argumentStep, Reader.run_bind_eq_ok, run_require_eq_ok] at h
  obtain ⟨_, _, ⟨_, rfl⟩, e, s₁, hread, k, _, hkind, h⟩ := h
  cases hkind
  obtain ⟨hinput, he⟩ := hargument.sound hread
  split at h
  · simp only [Reader.run_bind_eq_ok] at h
    obtain ⟨_, _, _, _, _, _, h⟩ := h
    cases h
  · cases h
    exact ⟨e, rfl, hinput, he⟩

theorem argumentStep_more_sound (hargument : Recognizes argument 2 depth)
    {done done' : List Expr}
    (h : (argumentStep f argument done).run s = (.ok (.inl done'), s')) :
    ∃ e, done' = e :: done ∧ s.input = e.symbols ++ ⟨.comma, ""⟩ :: s'.input ∧
      e.Within 2 depth := by
  simp only [argumentStep, Reader.run_bind_eq_ok, run_require_eq_ok] at h
  obtain ⟨_, _, ⟨_, rfl⟩, e, s₁, hread, k, _, hkind, h⟩ := h
  cases hkind
  obtain ⟨hinput, he⟩ := hargument.sound hread
  split at h
  · rename_i hcomma
    simp only [Reader.run_bind_eq_ok, run_require_eq_ok] at h
    obtain ⟨_, s₂, hadvance, _, _, ⟨_, rfl⟩, h⟩ := h
    cases h
    rw [advance_kind_sound hcomma (by simp) hadvance] at hinput
    exact ⟨e, rfl, hinput, he⟩
  · cases h

/-- What is read of a list of arguments behind its first ones. -/
def ArgumentsRead (depth : Nat) (done : List Expr) (s : ParseState Lexed) (args : List Expr)
    (s' : ParseState Lexed) : Prop :=
  ∃ more, args = done.reverse ++ more ∧ more ≠ [] ∧
    s.input = Expr.argumentSymbols more ++ s'.input ∧ ∀ e ∈ more, e.Within 2 depth

theorem arguments_sound (hargument : Recognizes argument 2 depth) {args : List Expr}
    (h : (arguments f argument).run s = (.ok args, s')) : ArgumentsRead depth [] s args s' := by
  refine Reader.repeatFrom_ok_induction (P := ArgumentsRead depth) _ ?_ ?_ h
  · intro done s args s' hlast
    obtain ⟨e, rfl, hinput, he⟩ := argumentStep_last_sound hargument hlast
    rw [← argumentSymbols_singleton] at hinput
    exact ⟨[e], List.reverse_cons, by simp, hinput, by simpa using he⟩
  · intro done s done' s₁ args s' hround hrest
    obtain ⟨e, rfl, hinput, he⟩ := argumentStep_more_sound hargument hround
    obtain ⟨more, rfl, hne, hinput₁, hmore⟩ := hrest
    refine ⟨e :: more, by simp, by simp, ?_, ?_⟩
    · rw [hinput, hinput₁, argumentSymbols_cons hne]
      simp
    · rw [List.forall_mem_cons]
      exact ⟨he, hmore⟩

theorem argumentStep_last_complete (hargument : Recognizes argument 2 depth) {e : Expr}
    {done : List Expr} {ys : List Symbol} (he : e.Within 2 depth)
    (hinput : s.input = e.symbols ++ ⟨.rightParen, ""⟩ :: ys) :
    ∃ s', (argumentStep f argument done).run s = (.ok (.inr (e :: done).reverse), s') ∧
      s'.input = ⟨.rightParen, ""⟩ :: ys := by
  have hstart := startsOperand_of_input hinput
  obtain ⟨s₁, hread, hinput₁⟩ := hargument.complete he hinput
    (TokenKind.stops_of_closing (.inl rfl) 2)
  have hk := ParseState.kind_of_input hinput₁
  refine ⟨s₁, ?_, hinput₁⟩
  unfold argumentStep
  rw [Reader.run_bind_ok (run_require_ok hstart), Reader.run_bind_ok hread,
    Reader.run_bind_ok (run_kind s₁), if_neg (by rw [hk]; simp)]
  rfl

theorem argumentStep_more_complete (hargument : Recognizes argument 2 depth) {e e' : Expr}
    {done : List Expr} {ys : List Symbol} (he : e.Within 2 depth)
    (hinput : s.input = e.symbols ++ ⟨.comma, ""⟩ :: (e'.symbols ++ ys)) :
    ∃ s', (argumentStep f argument done).run s = (.ok (.inl (e :: done)), s') ∧
      s'.input = e'.symbols ++ ys := by
  have hstart := startsOperand_of_input hinput
  obtain ⟨s₁, hread, hinput₁⟩ := hargument.complete he hinput
    (TokenKind.stops_of_closing (.inr (.inl rfl)) 2)
  have hk := ParseState.kind_of_input hinput₁
  obtain ⟨x, xs, hsymbols, _⟩ := e'.symbols_eq_cons
  obtain ⟨s₂, hadvance, hinput₂⟩ := advance_complete hinput₁ (by rw [hsymbols]; simp)
  have hmore : s₂.current.kind ≠ .rightParen := by
    intro hparen
    have hstart' := startsOperand_of_input hinput₂
    rw [hparen] at hstart'
    cases hstart'
  refine ⟨s₂, ?_, hinput₂⟩
  unfold argumentStep
  rw [Reader.run_bind_ok (run_require_ok hstart), Reader.run_bind_ok hread,
    Reader.run_bind_ok (run_kind s₁), if_pos hk, Reader.run_bind_ok hadvance,
    Reader.run_bind_ok (run_require_ok (by simpa using hmore))]
  rfl

theorem arguments_complete (hargument : Recognizes argument 2 depth) {args : List Expr}
    {ys : List Symbol} (hne : args ≠ []) (hargs : ∀ e ∈ args, e.Within 2 depth)
    (hinput : s.input = Expr.argumentSymbols args ++ ⟨.rightParen, ""⟩ :: ys) :
    ∃ s', (arguments f argument).run s = (.ok args, s') ∧
      s'.input = ⟨.rightParen, ""⟩ :: ys := by
  suffices hloop : ∀ done, ∃ s', (Reader.repeatFrom done (argumentStep f argument)
      (argumentStep_shrinks f argument)).run s = (.ok (done.reverse ++ args), s') ∧
        s'.input = ⟨.rightParen, ""⟩ :: ys from hloop []
  induction args generalizing s with
  | nil => contradiction
  | cons arg args ih =>
    intro done
    rw [List.forall_mem_cons] at hargs
    cases args with
    | nil =>
      rw [argumentSymbols_singleton] at hinput
      obtain ⟨s₁, hstep, hinput₁⟩ := argumentStep_last_complete hargument hargs.1 hinput
      refine ⟨s₁, ?_, hinput₁⟩
      rw [Reader.run_repeatFrom_inr hstep, List.reverse_cons]
    | cons arg' args =>
      rw [argumentSymbols_cons (by simp), Expr.argumentSymbols, List.append_assoc,
        List.cons_append, List.append_assoc] at hinput
      obtain ⟨s₁, hstep, hinput₁⟩ := argumentStep_more_complete hargument hargs.1 hinput
      rw [← List.append_assoc, ← Expr.argumentSymbols] at hinput₁
      obtain ⟨s₂, hrest, hinput₂⟩ := ih (by simp) hargs.2 hinput₁ (arg :: done)
      refine ⟨s₂, ?_, hinput₂⟩
      rw [Reader.run_repeatFrom_inl hstep, hrest]
      simp

/-- The part of a call in parentheses, behind its name. -/
theorem call_sound (hargument : Recognizes argument 2 depth) {args : List Expr}
    {s₁ s₂ s₃ : ParseState Lexed} (hk : s.current.kind = .leftParen)
    (hopen : (advance : Parser Lexed Unit).run s = (.ok (), s₁))
    (hargs : (arguments f argument).run s₁ = (.ok args, s₂)) (hk' : s₂.current.kind = .rightParen)
    (hclose : (advance : Parser Lexed Unit).run s₂ = (.ok (), s₃)) :
    ⟨.text, f.name⟩ :: s.input = (Expr.call f args).symbols ++ s₃.input ∧
      (Expr.call f args).Within 0 (depth + 1) := by
  obtain ⟨args, rfl, hne, hinput, hall⟩ := arguments_sound hargument hargs
  refine ⟨?_, Expr.within_call.2 ⟨hne, hall⟩⟩
  rw [advance_kind_sound hk (by simp) hopen, hinput, advance_kind_sound hk' (by simp) hclose,
    Expr.symbols]
  simp

theorem factor_sound {limit : Nat} {e : Expr} (hsum : Recognizes (sum limit depth) 2 depth)
    (h : (factor limit (depth + 1)).run s = (.ok e, s')) :
    s.input = e.symbols ++ s'.input ∧ e.Within 0 (depth + 1) := by
  rw [factor, Reader.run_bind_ok (run_current s)] at h
  split at h
  · rename_i n hk
    simp only [Reader.run_bind_eq_ok] at h
    obtain ⟨_, s₁, hadvance, h⟩ := h
    cases h
    exact ⟨advance_kind_sound hk (by simp) hadvance, trivial, Nat.le_refl _, Nat.succ_pos _⟩
  · rename_i hk
    simp only [Reader.run_bind_eq_ok, run_kind] at h
    obtain ⟨_, s₁, hadvance, _, _, hkind, h⟩ := h
    cases hkind
    have hname := advance_text_sound hk hadvance
    split at h
    · rename_i hparen
      split at h
      · cases h
      · rename_i function hfunction
        simp only [Reader.run_bind_eq_ok, run_require_eq_ok] at h
        obtain ⟨_, _, ⟨_, rfl⟩, _, s₂, hopen, args, s₃, hargs, _, _, ⟨hk', rfl⟩, _, s₄,
          hclose, h⟩ := h
        cases h
        obtain ⟨hcall, hwithin⟩ := call_sound hsum hparen hopen hargs (beq_iff_eq.1 hk') hclose
        rw [hname, ← Builtin.name_of_ofName? hfunction]
        exact ⟨hcall, hwithin⟩
    · cases h
      exact ⟨hname, trivial, Nat.le_refl _, Nat.succ_pos _⟩
  · rename_i hk
    simp only [Reader.run_bind_eq_ok] at h
    obtain ⟨_, s₁, hopen, inner, s₂, hread, t, s₃, hclose, h⟩ := h
    cases h
    obtain ⟨hinput, hinner⟩ := hsum.sound hread
    obtain ⟨hk', hlast⟩ := expect_sound (by simp) hclose
    rw [Token.symbol_of_kind hk' (by simp)] at hlast
    refine ⟨?_, Expr.within_group.2 hinner⟩
    rw [advance_kind_sound hk (by simp) hopen, hinput, hlast, Expr.symbols]
    simp
  · cases h
  · cases h

theorem factor_complete {limit : Nat} {e : Expr} {y : Symbol} {ys : List Symbol}
    (hsum : Recognizes (sum limit depth) 2 depth) (he : e.Within 0 (depth + 1))
    (hinput : s.input = e.symbols ++ y :: ys) (hstops : y.kind.Stops 0) :
    ∃ s', (factor limit (depth + 1)).run s = (.ok e, s') ∧ s'.input = y :: ys := by
  rw [factor, Reader.run_bind_ok (run_current s)]
  cases e with
  | number value =>
    obtain ⟨s₁, hadvance, hinput₁⟩ := advance_complete hinput (by simp)
    refine ⟨s₁, ?_, hinput₁⟩
    rw [ParseState.kind_of_input hinput]
    dsimp only
    rw [Reader.run_bind_ok hadvance]
    rfl
  | slot name =>
    obtain ⟨s₁, hadvance, hinput₁⟩ := advance_complete hinput (by simp)
    have hlexeme := (Token.lexeme_of_symbol (ParseState.symbol_of_input hinput)).2
    have hk : s₁.current.kind ≠ .leftParen := by
      rw [ParseState.kind_of_input hinput₁]
      exact hstops.1
    refine ⟨s₁, ?_, hinput₁⟩
    rw [ParseState.kind_of_input hinput]
    dsimp only
    rw [Reader.run_bind_ok hadvance, Reader.run_bind_ok (run_kind s₁), if_neg hk, hlexeme]
    rfl
  | group inner =>
    rw [Expr.symbols, List.append_assoc, List.cons_append] at hinput
    obtain ⟨s₁, hopen, hinput₁⟩ := advance_complete hinput (by simp)
    obtain ⟨s₂, hread, hinput₂⟩ := hsum.complete (Expr.within_group.1 he) hinput₁
      (TokenKind.stops_of_closing (.inl rfl) 2)
    obtain ⟨t, s₃, hclose, -, hinput₃⟩ := expect_complete hinput₂ (by simp)
    refine ⟨s₃, ?_, hinput₃⟩
    rw [ParseState.kind_of_input hinput]
    dsimp only
    rw [Reader.run_bind_ok hopen, Reader.run_bind_ok hread, Reader.run_bind_ok hclose]
    rfl
  | call f args =>
    obtain ⟨hne, hargs⟩ := Expr.within_call.1 he
    obtain ⟨arg, hmem⟩ := List.exists_mem_of_ne_nil args hne
    have hpos : 0 < depth := Nat.zero_lt_of_lt (hargs arg hmem).need_lt
    have hsymbols : (Expr.call f args).symbols ++ y :: ys = ⟨.text, f.name⟩ :: ⟨.leftParen, ""⟩ ::
        (Expr.argumentSymbols args ++ ⟨.rightParen, ""⟩ :: y :: ys) := by
      rw [Expr.symbols]
      simp
    rw [hsymbols] at hinput
    obtain ⟨s₁, hname, hinput₁⟩ := advance_complete hinput (by simp)
    obtain ⟨s₂, hopen, hinput₂⟩ := advance_complete hinput₁ (by simp)
    obtain ⟨s₃, hread, hinput₃⟩ := arguments_complete hsum hne hargs hinput₂
    obtain ⟨s₄, hclose, hinput₄⟩ := advance_complete hinput₃ (by simp)
    have hlexeme := (Token.lexeme_of_symbol (ParseState.symbol_of_input hinput)).2
    have hk₁ := ParseState.kind_of_input hinput₁
    have hk₃ := ParseState.kind_of_input hinput₃
    refine ⟨s₄, ?_, hinput₄⟩
    rw [ParseState.kind_of_input hinput]
    dsimp only
    rw [Reader.run_bind_ok hname, Reader.run_bind_ok (run_kind s₁), if_pos hk₁, hlexeme,
      Builtin.ofName?_name]
    dsimp only
    rw [Reader.run_bind_ok (run_require_ok (by simpa using hpos)), Reader.run_bind_ok hopen,
      Reader.run_bind_ok hread, Reader.run_bind_ok (run_require_ok (by simpa using hk₃)),
      Reader.run_bind_ok hclose]
    rfl
  | binary op lhs rhs =>
    have hrank : op.rank ≤ 0 := he.rank_le
    cases op <;> cases hrank

theorem factor_recognizes (limit depth : Nat)
    (hsum : ∀ d < depth, Recognizes (sum limit d) 2 d) :
    Recognizes (factor limit depth) 0 depth where
  sound {s s' e} h := by
    cases depth with
    | zero =>
      rw [factor] at h
      cases h
    | succ depth => exact factor_sound (hsum depth (Nat.lt_succ_self _)) h
  complete {s e y ys} he hinput hstops := by
    cases depth with
    | zero => exact absurd he.need_lt (Nat.not_lt_zero _)
    | succ depth => exact factor_complete (hsum depth (Nat.lt_succ_self _)) he hinput hstops

theorem sum_recognizes (limit depth : Nat) : Recognizes (sum limit depth) 2 depth := by
  induction depth using Nat.strongRecOn with
  | ind depth ih =>
    have hfactor : ∀ d ≤ depth, Recognizes (factor limit d) 0 d := fun d hd =>
      factor_recognizes limit d fun d' hd' => ih d' (Nat.lt_of_lt_of_le hd' hd)
    have hproduct : ∀ d ≤ depth, Recognizes (product limit d) 1 d := by
      intro d hd
      rw [product]
      exact (productChain limit).recognizes fun d' hd' => hfactor d' (Nat.le_trans hd' hd)
    rw [sum]
    exact (sumChain limit).recognizes hproduct

theorem product_recognizes (limit depth : Nat) : Recognizes (product limit depth) 1 depth := by
  rw [product]
  exact (productChain limit).recognizes fun d _ =>
    factor_recognizes limit d fun d' _ => sum_recognizes limit d'

end Parser
end Stencil
