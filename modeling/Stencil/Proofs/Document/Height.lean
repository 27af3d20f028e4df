import Mathlib.Tactic.Ring
import Stencil.Proofs.Document.Symbols

/-! Heights of expressions. What a bound on depth leaves of them is a square, and towers of chains
in parentheses are that high. -/
namespace Stencil.Expr

mutual

def height : Expr → Nat
  | slot _ | number _ => 0
  | group inner => height inner + 1
  | binary _ lhs rhs => max (height lhs) (height rhs) + 1
  | call _ args => argumentHeight args + 1

def argumentHeight : List Expr → Nat
  | [] => 0
  | arg :: args => max (height arg) (argumentHeight args)

end

/-- How high a canonical tree of a rank may be that needs `n` levels of depth, with chains of
products below chains of sums. -/
def ceiling (n rank links : Nat) : Nat := n * n + (rank - 1) * n + links

theorem ceiling_mono {n n' : Nat} (h : n ≤ n') (rank links : Nat) :
    ceiling n rank links ≤ ceiling n' rank links := by
  have hsquare : n * n ≤ n' * n' := Nat.mul_le_mul h h
  have hproduct : (rank - 1) * n ≤ (rank - 1) * n' := Nat.mul_le_mul_left _ h
  unfold ceiling
  omega

theorem links_le_need (e : Expr) : e.links e.rank ≤ e.need := by
  cases e with
  | binary op lhs rhs =>
    rw [rank, links_binary, need]
    omega
  | _ => exact Nat.zero_le _

theorem links_zero (e : Expr) : e.links 0 = 0 := by
  cases e with
  | binary op lhs rhs =>
    have hne : op.rank ≠ 0 := by cases op <;> simp [Operator.rank]
    rw [links, if_neg hne]
  | _ => rfl

/-- A tree of a lower rank is no higher than an operand of a chain of the higher one. -/
theorem ceiling_le_of_rank_lt {e : Expr} {rank : Nat} (h : e.rank < rank) :
    ceiling e.need e.rank (e.links e.rank) ≤ ceiling e.need rank 0 := by
  have hlinks := e.links_le_need
  unfold ceiling
  by_cases hzero : e.rank = 0
  · rw [hzero, links_zero]
    omega
  · have hstep : (e.rank - 1) * e.need + e.need ≤ (rank - 1) * e.need := by
      calc (e.rank - 1) * e.need + e.need = (e.rank - 1 + 1) * e.need := by ring
        _ ≤ (rank - 1) * e.need := Nat.mul_le_mul_right _ (by omega)
    omega

theorem ceiling_lt (e : Expr) :
    ceiling e.need e.rank (e.links e.rank) < (e.need + 1) * (e.need + 1) := by
  have hlinks := e.links_le_need
  have hrank : (e.rank - 1) * e.need ≤ 1 * e.need := by
    have hle := e.rank_le_two
    exact Nat.mul_le_mul_right _ (by omega)
  have hsquare : (e.need + 1) * (e.need + 1) = e.need * e.need + 2 * e.need + 1 := by ring
  unfold ceiling
  omega

mutual

theorem height_le_ceiling : (e : Expr) → e.Canonical →
    e.height ≤ ceiling e.need e.rank (e.links e.rank)
  | slot _, _ => Nat.zero_le _
  | number _, _ => Nat.zero_le _
  | group inner, he => by
    have hinner := height_le_ceiling inner he
    have hlt := inner.ceiling_lt
    simp only [height, need, ceiling, rank, links] at hinner hlt ⊢
    omega
  | call f args, he => by
    have hargs := argumentHeight_lt args he.2
    simp only [height, need, ceiling, rank, links]
    omega
  | binary op lhs rhs, he => by
    obtain ⟨hl, hr, hlrank, hrrank⟩ := he
    have hlhs := height_le_ceiling lhs hl
    have hrhs := height_le_ceiling rhs hr
    have hn : need (.binary op lhs rhs) = max lhs.need (lhs.links op.rank + 1 + rhs.need) := by
      rw [need]
    have hln : lhs.need ≤ need (.binary op lhs rhs) := by omega
    have hrn : rhs.need ≤ need (.binary op lhs rhs) := by omega
    have hleft : lhs.height ≤ ceiling (need (.binary op lhs rhs)) op.rank (lhs.links op.rank) := by
      refine Nat.le_trans ?_ (ceiling_mono hln op.rank (lhs.links op.rank))
      rcases Nat.lt_or_eq_of_le hlrank with hlt | heq
      · rw [links_of_rank_lt hlt]
        exact Nat.le_trans hlhs (ceiling_le_of_rank_lt hlt)
      · rw [← heq]
        exact hlhs
    have hright : rhs.height ≤ ceiling (need (.binary op lhs rhs)) op.rank 0 :=
      Nat.le_trans (Nat.le_trans hrhs (ceiling_le_of_rank_lt hrrank))
        (ceiling_mono hrn op.rank 0)
    rw [rank, links_binary, height]
    unfold ceiling at hleft hright ⊢
    omega

theorem argumentHeight_lt : (args : List Expr) → AllCanonical args →
    argumentHeight args < (argumentNeed args + 1) * (argumentNeed args + 1)
  | [], _ => Nat.one_pos
  | arg :: args, h => by
    have harg := Nat.lt_of_le_of_lt (height_le_ceiling arg h.1) arg.ceiling_lt
    have hargs := argumentHeight_lt args h.2
    rw [argumentHeight, argumentNeed]
    refine Nat.max_lt.2 ⟨Nat.lt_of_lt_of_le harg ?_, Nat.lt_of_lt_of_le hargs ?_⟩
    · exact Nat.mul_le_mul (by omega) (by omega)
    · exact Nat.mul_le_mul (by omega) (by omega)

end

theorem Within.height_lt {e : Expr} {rank depth : Nat} (h : e.Within rank depth) :
    e.height < depth * depth := by
  have hle := Nat.lt_of_le_of_lt (height_le_ceiling e h.canonical) e.ceiling_lt
  exact Nat.lt_of_lt_of_le hle (Nat.mul_le_mul h.need_lt h.need_lt)

section Tower

/-- A chain of an operator with one number behind the other. -/
def chain (op : Operator) (e : Expr) : Nat → Expr
  | 0 => e
  | n + 1 => binary op (chain op e n) (number (.int 1))

/-- As high a tree as fits into `n` levels of depth: a chain of products below a chain of sums, and
in parentheses at the far left a tower with one level less. -/
def tower : Nat → Expr
  | 0 => number (.int 1)
  | n + 1 => chain .add (chain .multiply (group (tower n)) (n + 1)) (n + 1)

variable {op : Operator} {e : Expr} {m n : Nat}

theorem height_chain : (chain op e n).height = e.height + n := by
  induction n with
  | zero => rfl
  | succ n ih =>
    rw [chain, height, ih, height]
    omega

theorem links_chain : (chain op e n).links op.rank = e.links op.rank + n := by
  induction n with
  | zero => rfl
  | succ n ih =>
    rw [chain, links_binary, ih]
    omega

theorem rank_chain_le (h : e.rank ≤ op.rank) : (chain op e n).rank ≤ op.rank := by
  cases n with
  | zero => exact h
  | succ n => exact Nat.le_refl _

theorem Canonical.chain (he : e.Canonical) (h : e.rank ≤ op.rank) :
    (chain op e n).Canonical := by
  induction n with
  | zero => exact he
  | succ n ih => exact ⟨ih, trivial, rank_chain_le h, by cases op <;> simp [rank, Operator.rank]⟩

theorem need_chain (h : e.rank < op.rank) (hm : e.need = m) (hn : n ≤ m) :
    (chain op e n).need = m := by
  induction n with
  | zero => exact hm
  | succ n ih =>
    rw [Expr.chain, need, ih (by omega), links_chain, links_of_rank_lt h, need]
    omega

theorem tower_canonical (n : Nat) : (tower n).Canonical := by
  induction n with
  | zero => trivial
  | succ n ih =>
    have hgroup : (group (tower n)).Canonical := ih
    exact (hgroup.chain (Nat.zero_le _)).chain (Nat.le_succ_of_le (rank_chain_le (Nat.zero_le _)))

theorem tower_need (n : Nat) : (tower n).need = n := by
  induction n with
  | zero => rfl
  | succ n ih =>
    have hgroup : (group (tower n)).need = n + 1 := by rw [need, ih]
    have hproduct : (chain .multiply (group (tower n)) (n + 1)).need = n + 1 :=
      need_chain Nat.one_pos hgroup (Nat.le_refl _)
    exact need_chain (Nat.lt_succ_of_le (rank_chain_le (Nat.zero_le _))) hproduct (Nat.le_refl _)

theorem tower_height (n : Nat) : (tower n).height + 1 = (n + 1) * (n + 1) := by
  induction n with
  | zero => rfl
  | succ n ih =>
    rw [tower, height_chain, height_chain, height]
    have hsquare : (n + 1 + 1) * (n + 1 + 1) = (n + 1) * (n + 1) + 2 * (n + 1) + 1 := by ring
    omega

theorem tower_within (n : Nat) : (tower n).Within 2 (n + 1) :=
  ⟨tower_canonical n, (tower n).rank_le_two, by rw [tower_need]; exact Nat.lt_succ_self n⟩

end Tower

end Stencil.Expr
