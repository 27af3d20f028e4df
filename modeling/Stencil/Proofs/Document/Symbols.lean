import Stencil.Document.Basic
import Stencil.Parse.Expression

/-! The grammar of templates, read from the trees: the symbols that a tree stands for, and the
trees that the grammar makes. -/
namespace Stencil

/-- A token without its place. Only text has an own lexeme. -/
structure Symbol where
  kind : TokenKind
  text : String := ""
  deriving DecidableEq

def Token.symbol (t : Token) : Symbol :=
  ⟨t.kind, if t.kind = .text then t.lexeme else ""⟩

@[simp] theorem Token.symbol_kind (t : Token) : t.symbol.kind = t.kind := rfl

theorem Token.lexeme_of_symbol {t : Token} {text : String} (h : t.symbol = ⟨.text, text⟩) :
    t.kind = .text ∧ t.lexeme = text := by
  obtain ⟨hk, ht⟩ := Symbol.mk.inj h
  rw [if_pos hk] at ht
  exact ⟨hk, ht⟩

theorem Token.symbol_of_text {t : Token} (h : t.kind = .text) : t.symbol = ⟨.text, t.lexeme⟩ := by
  rw [symbol, if_pos h, h]

theorem Token.symbol_of_kind {t : Token} {k : TokenKind} (h : t.kind = k) (hk : k ≠ .text) :
    t.symbol = ⟨k, ""⟩ := by
  subst h
  rw [symbol, if_neg hk]

namespace Operator

def kind : Operator → TokenKind
  | add => .plus
  | subtract => .minus
  | multiply => .star
  | divide => .slash

/-- How loosely an operator binds. -/
def rank : Operator → Nat
  | multiply | divide => 1
  | add | subtract => 2

end Operator

namespace Expr

mutual

def symbols : Expr → List Symbol
  | slot name => [⟨.text, name⟩]
  | number value => [⟨.number value, ""⟩]
  | group inner => ⟨.leftParen, ""⟩ :: symbols inner ++ [⟨.rightParen, ""⟩]
  | binary op lhs rhs => symbols lhs ++ ⟨op.kind, ""⟩ :: symbols rhs
  | call f args =>
    ⟨.text, f.name⟩ :: ⟨.leftParen, ""⟩ :: argumentSymbols args ++ [⟨.rightParen, ""⟩]

def argumentSymbols : List Expr → List Symbol
  | [] => []
  | arg :: args =>
    symbols arg ++ if args.isEmpty then [] else ⟨.comma, ""⟩ :: argumentSymbols args

end

/-- The rank of the operator at the root, and zero for an operand. -/
def rank : Expr → Nat
  | binary op _ _ => op.rank
  | _ => 0

mutual

/-- Operands stand in parentheses wherever precedence or grouping to the left ask for them. -/
def Canonical : Expr → Prop
  | slot _ | number _ => True
  | group inner => Canonical inner
  | binary op lhs rhs => Canonical lhs ∧ Canonical rhs ∧ lhs.rank ≤ op.rank ∧ rhs.rank < op.rank
  | call _ args => args ≠ [] ∧ AllCanonical args

def AllCanonical : List Expr → Prop
  | [] => True
  | arg :: args => Canonical arg ∧ AllCanonical args

end

/-- How many operators of a rank stand one below the other from the root on the left. -/
def links (rank : Nat) : Expr → Nat
  | binary op lhs _ => if op.rank = rank then links rank lhs + 1 else 0
  | _ => 0

mutual

/-- How many parentheses, calls and operators are open at most while the reader is at an operand. -/
def need : Expr → Nat
  | slot _ | number _ => 0
  | group inner => need inner + 1
  | binary op lhs rhs => max (need lhs) (links op.rank lhs + 1 + need rhs)
  | call _ args => argumentNeed args + 1

def argumentNeed : List Expr → Nat
  | [] => 0
  | arg :: args => max (need arg) (argumentNeed args)

end

/-- What the reader makes of a text within a depth, up to operators of a rank. -/
structure Within (rank depth : Nat) (e : Expr) : Prop where
  canonical : e.Canonical
  rank_le : e.rank ≤ rank
  need_lt : e.need < depth

theorem allCanonical_iff {args : List Expr} : AllCanonical args ↔ ∀ e ∈ args, e.Canonical := by
  induction args with
  | nil => simp [AllCanonical]
  | cons arg args ih => rw [AllCanonical, ih, List.forall_mem_cons]

theorem argumentNeed_lt_iff {args : List Expr} {depth : Nat} :
    argumentNeed args < depth + 1 ↔ ∀ e ∈ args, e.need < depth + 1 := by
  induction args with
  | nil => simp [argumentNeed]
  | cons arg args ih => rw [argumentNeed, Nat.max_lt, ih, List.forall_mem_cons]

theorem rank_le_two (e : Expr) : e.rank ≤ 2 := by
  cases e with
  | binary op lhs rhs => cases op <;> simp [rank, Operator.rank]
  | _ => exact Nat.zero_le _

theorem links_of_rank_lt {e : Expr} {rank : Nat} (h : e.rank < rank) : e.links rank = 0 := by
  cases e with
  | binary op lhs rhs =>
    have hne : op.rank ≠ rank := Nat.ne_of_lt h
    rw [links, if_neg hne]
  | _ => rfl

theorem links_binary (op : Operator) (lhs rhs : Expr) :
    (binary op lhs rhs).links op.rank = lhs.links op.rank + 1 := by
  rw [links, if_pos rfl]

theorem symbols_eq_cons : (e : Expr) → ∃ x xs, e.symbols = x :: xs ∧ x.kind.startsOperand
  | slot name => ⟨_, _, rfl, rfl⟩
  | number value => ⟨_, _, rfl, rfl⟩
  | group inner => ⟨_, _, rfl, rfl⟩
  | call f args => ⟨_, _, rfl, rfl⟩
  | binary op lhs rhs => by
    obtain ⟨x, xs, hlhs, hx⟩ := symbols_eq_cons lhs
    exact ⟨x, _, by rw [symbols, hlhs]; rfl, hx⟩

theorem within_group {inner : Expr} {depth : Nat} :
    (group inner).Within 0 (depth + 1) ↔ inner.Within 2 depth :=
  ⟨fun h => ⟨h.canonical, inner.rank_le_two, Nat.lt_of_succ_lt_succ h.need_lt⟩,
    fun h => ⟨h.canonical, Nat.le_refl _, Nat.succ_lt_succ h.need_lt⟩⟩

theorem within_call {f : Builtin} {args : List Expr} {depth : Nat} :
    (call f args).Within 0 (depth + 1) ↔ args ≠ [] ∧ ∀ e ∈ args, e.Within 2 depth := by
  constructor
  · intro h
    obtain ⟨hne, hcanonical⟩ := h.canonical
    have hneed : argumentNeed args < depth := Nat.lt_of_succ_lt_succ h.need_lt
    obtain ⟨d, rfl⟩ := Nat.exists_eq_add_one.2 (Nat.zero_lt_of_lt hneed)
    rw [allCanonical_iff] at hcanonical
    rw [argumentNeed_lt_iff] at hneed
    exact ⟨hne, fun e he => ⟨hcanonical e he, e.rank_le_two, hneed e he⟩⟩
  · rintro ⟨hne, hall⟩
    obtain ⟨arg, hmem⟩ := List.exists_mem_of_ne_nil args hne
    obtain ⟨d, rfl⟩ := Nat.exists_eq_add_one.2 (Nat.zero_lt_of_lt (hall arg hmem).need_lt)
    refine ⟨⟨hne, allCanonical_iff.2 fun e he => (hall e he).canonical⟩, Nat.le_refl _, ?_⟩
    exact Nat.succ_lt_succ (argumentNeed_lt_iff.2 fun e he => (hall e he).need_lt)

/-- An operator between two operands that were read leaves what the reader makes of them. -/
theorem Within.binary {lhs rhs : Expr} {op : Operator} {rank depth : Nat}
    (hop : op.rank = rank + 1)
    (hlhs : lhs.Within (rank + 1) (depth + 1 + lhs.links (rank + 1)))
    (hrhs : rhs.Within rank depth) :
    (binary op lhs rhs).Within (rank + 1)
      (depth + (Expr.binary op lhs rhs).links (rank + 1)) := by
  have hlinks := links_binary op lhs rhs
  rw [hop] at hlinks
  refine ⟨⟨hlhs.canonical, hrhs.canonical, ?_, ?_⟩, ?_, ?_⟩
  · rw [hop]
    exact hlhs.rank_le
  · rw [hop]
    exact Nat.lt_succ_of_le hrhs.rank_le
  · exact Nat.le_of_eq hop
  · rw [need, hop, hlinks]
    have hl := hlhs.need_lt
    have hr := hrhs.need_lt
    omega

end Expr

mutual

def Item.symbols : Item → List Symbol
  | .text content => [⟨.text, content⟩]
  | .block e => ⟨.openBlock, ""⟩ :: e.symbols ++ [⟨.closeBlock, ""⟩]
  | .loop binder array body =>
    [⟨.openBlock, ""⟩, ⟨.foreachWord, ""⟩, ⟨.text, binder⟩, ⟨.inWord, ""⟩, ⟨.text, array⟩,
      ⟨.closeBlock, ""⟩, ⟨.newline, ""⟩] ++ bodySymbols body ++
    [⟨.openBlock, ""⟩, ⟨.endforeachWord, ""⟩, ⟨.closeBlock, ""⟩]

def lineSymbols : Line → List Symbol
  | [] => []
  | item :: items => Item.symbols item ++ lineSymbols items

def bodySymbols : List Line → List Symbol
  | [] => []
  | l :: lines => lineSymbols l ++ ⟨.newline, ""⟩ :: bodySymbols lines

end

mutual

def Item.exprs : Item → List Expr
  | .text _ => []
  | .block e => [e]
  | .loop _ _ body => linesExprs body

def lineExprs : Line → List Expr
  | [] => []
  | item :: items => Item.exprs item ++ lineExprs items

def linesExprs : List Line → List Expr
  | [] => []
  | l :: lines => lineExprs l ++ linesExprs lines

end

/-- The expressions of all blocks. -/
def Document.exprs (d : Document) : List Expr := linesExprs d.lines

/-- The lines of a whole template stand between line ends, and the end of the text is the last. -/
def linesSymbols : List Line → List Symbol
  | [] => [⟨.endOfFile, ""⟩]
  | [l] => lineSymbols l ++ [⟨.endOfFile, ""⟩]
  | l :: lines => lineSymbols l ++ ⟨.newline, ""⟩ :: linesSymbols lines

theorem linesSymbols_cons {l : Line} {lines : List Line} (h : lines ≠ []) :
    linesSymbols (l :: lines) = lineSymbols l ++ ⟨.newline, ""⟩ :: linesSymbols lines := by
  cases lines with
  | nil => contradiction
  | cons _ _ => rfl

theorem linesSymbols_cons_item (item : Item) (l : Line) (lines : List Line) :
    linesSymbols ((item :: l) :: lines) = item.symbols ++ linesSymbols (l :: lines) := by
  cases lines <;> simp [linesSymbols, lineSymbols]

def Document.symbols (d : Document) : List Symbol := linesSymbols d.lines

/-- An item that may share its line: no loop, and a block's expression has a property. -/
def Item.Inline (P : Expr → Prop) : Item → Prop
  | .text _ => True
  | .block e => P e
  | .loop _ _ _ => False

/-- A line of items that may share it, or of one loop whose body is made of such lines. -/
def TopLine (P : Expr → Prop) (l : Line) : Prop :=
  (∀ item ∈ l, item.Inline P) ∨
    ∃ binder array body, l = [.loop binder array body] ∧
      ∀ bodyLine ∈ body, ∀ item ∈ bodyLine, item.Inline P

/-- Not a single empty line, and every line is one that stands outside of loops. -/
def Document.Shaped (P : Expr → Prop) (d : Document) : Prop :=
  d.lines ≠ [[]] ∧ ∀ l ∈ d.lines, TopLine P l

/-- The trees that the grammar makes. -/
def Document.Canonical (d : Document) : Prop := d.Shaped Expr.Canonical

theorem mem_lineExprs {e : Expr} {l : Line} : e ∈ lineExprs l ↔ ∃ item ∈ l, e ∈ item.exprs := by
  induction l with
  | nil => simp [lineExprs]
  | cons item items ih => simp [lineExprs, ih]

theorem mem_linesExprs {e : Expr} {lines : List Line} :
    e ∈ linesExprs lines ↔ ∃ l ∈ lines, e ∈ lineExprs l := by
  induction lines with
  | nil => simp [linesExprs]
  | cons l lines ih => simp [linesExprs, ih]

variable {P Q : Expr → Prop}

theorem Item.Inline.exprs {item : Item} (h : item.Inline P) : ∀ e ∈ item.exprs, P e := by
  cases item with
  | text content => simp [Item.exprs]
  | block e =>
    intro e' he
    rw [Item.exprs, List.mem_singleton] at he
    rw [he]
    exact h
  | loop binder array body => exact h.elim

theorem Item.Inline.of_exprs {item : Item} (h : item.Inline P) (hexprs : ∀ e ∈ item.exprs, Q e) :
    item.Inline Q := by
  cases item with
  | text content => trivial
  | block e => exact hexprs e (by simp [Item.exprs])
  | loop binder array body => exact h.elim

theorem TopLine.exprs {l : Line} (h : TopLine P l) : ∀ e ∈ lineExprs l, P e := by
  intro e he
  obtain ⟨item, hitem, hmem⟩ := mem_lineExprs.1 he
  rcases h with h | ⟨binder, array, body, rfl, hbody⟩
  · exact (h item hitem).exprs e hmem
  · rw [List.mem_singleton.1 hitem, Item.exprs] at hmem
    obtain ⟨l, hl, hmem⟩ := mem_linesExprs.1 hmem
    obtain ⟨item, hitem, hmem⟩ := mem_lineExprs.1 hmem
    exact (hbody l hl item hitem).exprs e hmem

theorem TopLine.of_exprs {l : Line} (h : TopLine P l) (hexprs : ∀ e ∈ lineExprs l, Q e) :
    TopLine Q l := by
  rcases h with h | ⟨binder, array, body, rfl, hbody⟩
  · left
    intro item hitem
    exact (h item hitem).of_exprs fun e he => hexprs e (mem_lineExprs.2 ⟨item, hitem, he⟩)
  · right
    refine ⟨binder, array, body, rfl, fun l hl item hitem => ?_⟩
    refine (hbody l hl item hitem).of_exprs fun e he => hexprs e ?_
    refine mem_lineExprs.2 ⟨_, List.mem_singleton_self _, ?_⟩
    rw [Item.exprs]
    exact mem_linesExprs.2 ⟨l, hl, mem_lineExprs.2 ⟨item, hitem, he⟩⟩

theorem Document.Shaped.exprs {d : Document} (h : d.Shaped P) : ∀ e ∈ d.exprs, P e := by
  intro e he
  obtain ⟨l, hl, he⟩ := mem_linesExprs.1 he
  exact (h.2 l hl).exprs e he

theorem Document.Shaped.of_exprs {d : Document} (h : d.Shaped P) (hexprs : ∀ e ∈ d.exprs, Q e) :
    d.Shaped Q :=
  ⟨h.1, fun l hl => (h.2 l hl).of_exprs fun e he => hexprs e (mem_linesExprs.2 ⟨l, hl, he⟩)⟩

theorem end_mem_linesSymbols (lines : List Line) : ⟨.endOfFile, ""⟩ ∈ linesSymbols lines := by
  induction lines with
  | nil => simp [linesSymbols]
  | cons l lines ih => cases lines <;> simp [linesSymbols] at ih ⊢; simp [ih]

end Stencil
