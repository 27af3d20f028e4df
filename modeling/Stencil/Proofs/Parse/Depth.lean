import Mathlib.Data.List.Induction
import Stencil.Proofs.Parse.Grammar

/-! How deep the templates are that a bound on depth lets through. Depth is what parentheses, calls
and chains of operators add up to, whatever the reader does, and a template is read exactly if all of
its expressions stay below the bound. -/
namespace Stencil

/-- The greatest of some numbers, zero if there are none. -/
def greatest (ns : List Nat) : Nat := ns.foldr max 0

theorem greatest_cons (n : Nat) (ns : List Nat) : greatest (n :: ns) = max n (greatest ns) := rfl

theorem greatest_concat (ns : List Nat) (n : Nat) :
    greatest (ns ++ [n]) = max (greatest ns) n := by
  induction ns with
  | nil => exact Nat.max_comm n 0
  | cons m ns ih => rw [List.cons_append, greatest_cons, greatest_cons, ih, Nat.max_assoc]

namespace Expr

/-- What follows an operand in a chain: operands, each with the operator in front of it. -/
abbrev Links := List (Operator × Expr)

/-- All operators of a chain have a rank, and all operands behind them bind tighter. -/
def Links.OfRank (rank : Nat) (links : Links) : Prop :=
  ∀ link ∈ links, link.1.rank = rank ∧ link.2.rank < rank

/-- A chain, grouped from the left. -/
def chained (first : Expr) (links : Links) : Expr :=
  links.foldl (fun lhs link => .binary link.1 lhs link.2) first

/-- The greatest of a chain's operands, each taken with the number of operators in front of it. -/
def chainDepth (depth : Expr → Nat) (first : Expr) (links : Links) : Nat :=
  greatest ((first :: links.map Prod.snd).mapIdx fun i x => i + depth x)

/-- What depth is: parentheses and calls are a level around what they hold, and so is each operator
in front of an operand of its chain. -/
structure DepthMeasure (depth : Expr → Nat) : Prop where
  slot : ∀ name, depth (.slot name) = 0
  number : ∀ value, depth (.number value) = 0
  group : ∀ inner, depth (.group inner) = 1 + depth inner
  call : ∀ f args, depth (.call f args) = 1 + greatest (args.map depth)
  chain : ∀ {rank first links}, first.rank < rank → Links.OfRank rank links →
    depth (chained first links) = chainDepth depth first links

theorem chained_concat (first : Expr) (links : Links) (op : Operator) (x : Expr) :
    chained first (links ++ [(op, x)]) = .binary op (chained first links) x := by
  rw [chained, List.foldl_append]
  rfl

theorem chainDepth_concat (depth : Expr → Nat) (first : Expr) (links : Links) (op : Operator)
    (x : Expr) : chainDepth depth first (links ++ [(op, x)]) =
      max (chainDepth depth first links) (links.length + 1 + depth x) := by
  have hoperands : first :: (links ++ [(op, x)]).map Prod.snd =
      (first :: links.map Prod.snd) ++ [x] := by simp
  rw [chainDepth, hoperands, List.mapIdx_concat, greatest_concat, List.length_cons, List.length_map,
    chainDepth]

variable {rank : Nat} {first : Expr} {links : Links} {op : Operator} {x : Expr}

namespace Links.OfRank

theorem concat_iff : OfRank rank (links ++ [(op, x)]) ↔
    OfRank rank links ∧ op.rank = rank ∧ x.rank < rank := by
  rw [OfRank, List.forall_mem_append, List.forall_mem_singleton]
  rfl

/-- The operators of a chain stand one below the other. -/
theorem links_chained (h : OfRank rank links) (hfirst : first.rank < rank) :
    (chained first links).links rank = links.length := by
  induction links using List.reverseRecOn with
  | nil => exact links_of_rank_lt hfirst
  | append_singleton links link ih =>
    obtain ⟨op, x⟩ := link
    obtain ⟨hlinks, rfl, -⟩ := concat_iff.1 h
    rw [chained_concat, links_binary, ih hlinks, List.length_append, List.length_singleton]

end Links.OfRank

/-- The root of a canonical tree ends a chain of its rank. -/
theorem exists_chained (hrank : 0 < rank) : (e : Expr) → e.Canonical → e.rank ≤ rank →
    ∃ first links, e = chained first links ∧ first.rank < rank ∧ Links.OfRank rank links
  | .slot name, _, _ => ⟨.slot name, [], rfl, hrank, by simp [Links.OfRank]⟩
  | .number value, _, _ => ⟨.number value, [], rfl, hrank, by simp [Links.OfRank]⟩
  | .group inner, _, _ => ⟨.group inner, [], rfl, hrank, by simp [Links.OfRank]⟩
  | .call f args, _, _ => ⟨.call f args, [], rfl, hrank, by simp [Links.OfRank]⟩
  | .binary op lhs rhs, he, hle => by
    rcases Nat.lt_or_eq_of_le hle with hlt | heq
    · exact ⟨.binary op lhs rhs, [], rfl, hlt, by simp [Links.OfRank]⟩
    · have hop : op.rank = rank := heq
      obtain ⟨hlhs, -, hlrank, hrrank⟩ := he
      rw [hop] at hlrank hrrank
      obtain ⟨first, links, hchain, hfirst, hlinks⟩ := exists_chained hrank lhs hlhs hlrank
      have hlinks' : Links.OfRank rank (links ++ [(op, rhs)]) :=
        Links.OfRank.concat_iff.2 ⟨hlinks, hop, hrrank⟩
      refine ⟨first, links ++ [(op, rhs)], ?_, hfirst, hlinks'⟩
      rw [chained_concat, hchain]

theorem argumentNeed_eq (args : List Expr) : argumentNeed args = greatest (args.map need) := by
  induction args with
  | nil => rfl
  | cons arg args ih => rw [argumentNeed, ih, List.map_cons, greatest_cons]

theorem need_chained (hfirst : first.rank < rank) (hlinks : Links.OfRank rank links) :
    (chained first links).need = chainDepth need first links := by
  induction links using List.reverseRecOn with
  | nil => simp [chained, chainDepth, greatest]
  | append_singleton links link ih =>
    obtain ⟨op, x⟩ := link
    obtain ⟨hlinks, rfl, -⟩ := Links.OfRank.concat_iff.1 hlinks
    rw [chained_concat, chainDepth_concat, need, hlinks.links_chained hfirst, ih hlinks]

/-- What the reader keeps count of is depth. -/
theorem need_depthMeasure : DepthMeasure need where
  slot _ := rfl
  number _ := rfl
  group inner := Nat.add_comm ..
  call f args := by rw [need, argumentNeed_eq, Nat.add_comm]
  chain := need_chained

namespace DepthMeasure

variable {depth : Expr → Nat}

theorem binary (h : DepthMeasure depth) {lhs rhs : Expr}
    (he : (Expr.binary op lhs rhs).Canonical) :
    depth (.binary op lhs rhs) = max (depth lhs) (lhs.links op.rank + 1 + depth rhs) := by
  obtain ⟨hlhs, -, hlrank, hrrank⟩ := he
  have hpos : 0 < op.rank := Nat.zero_lt_of_lt hrrank
  obtain ⟨first, links, rfl, hfirst, hlinks⟩ := exists_chained hpos lhs hlhs hlrank
  have hlinks' : Links.OfRank op.rank (links ++ [(op, rhs)]) :=
    Links.OfRank.concat_iff.2 ⟨hlinks, rfl, hrrank⟩
  rw [← chained_concat, h.chain hfirst hlinks', chainDepth_concat, h.chain hfirst hlinks,
    hlinks.links_chained hfirst]

mutual

/-- There is no other measure of depth. -/
theorem eq_need (h : DepthMeasure depth) : (e : Expr) → e.Canonical → depth e = e.need
  | .slot name, _ => h.slot name
  | .number value, _ => h.number value
  | .group inner, he => by
    have hinner := eq_need h inner he
    rw [h.group, hinner, need, Nat.add_comm]
  | .binary op lhs rhs, he => by
    have hlhs := eq_need h lhs he.1
    have hrhs := eq_need h rhs he.2.1
    rw [h.binary he, hlhs, hrhs, need]
  | .call f args, he => by
    have hargs := map_eq_need h args he.2
    rw [h.call, hargs, ← argumentNeed_eq, need, Nat.add_comm]

theorem map_eq_need (h : DepthMeasure depth) :
    (args : List Expr) → AllCanonical args → args.map depth = args.map need
  | [], _ => rfl
  | arg :: args, hargs => by
    have harg := eq_need h arg hargs.1
    have hrest := map_eq_need h args hargs.2
    rw [List.map_cons, List.map_cons, harg, hrest]

end

end DepthMeasure

end Expr

/-- A source that spells a template is read as that template if all expressions in it are less deep
than the bound, and as too deep if one of them is not. -/
theorem parse_of_depth {depth : Expr → Nat} (hdepth : Expr.DepthMeasure depth) {limits : Limits}
    {source : String} {tokens : List Token} {d : Document} (hd : d.Canonical)
    (htokens : tokensAhead limits source = .ok tokens)
    (hsymbols : d.symbols = tokens.map Token.symbol) :
    ((∀ e ∈ d.exprs, depth e < limits.expressionDepth) → parse limits source = .ok d) ∧
      ((∃ e ∈ d.exprs, limits.expressionDepth ≤ depth e) → ∃ t,
        parse limits source = .error (.syntactic ⟨.tooDeep limits.expressionDepth, t⟩)) := by
  have hneed : ∀ e ∈ d.exprs, depth e = e.need := fun e he =>
    hdepth.eq_need e (Document.Shaped.exprs hd e he)
  constructor
  · intro hshallow
    refine parse_ok_iff_within.2 ⟨tokens, htokens, hd.of_exprs fun e he => ?_, hsymbols⟩
    exact ⟨Document.Shaped.exprs hd e he, e.rank_le_two, hneed e he ▸ hshallow e he⟩
  · rintro ⟨e, he, hdeep⟩
    by_contra hroom
    rw [not_exists] at hroom
    have hparse := (parse_ok_iff_canonical hroom d).2 ⟨tokens, htokens, hd, hsymbols⟩
    obtain ⟨_, -, hshaped, -⟩ := parse_ok_iff_within.1 hparse
    have hlt : e.need < limits.expressionDepth := (hshaped.exprs e he).need_lt
    rw [← hneed e he] at hlt
    exact Nat.not_lt.2 hdeep hlt

/-- A sum over a product of three, whose middle one is a call around parentheses around a sum. -/
def mixedSource : String := "\x7b\x7b a - b * Minimum(1, (c + d)) * 2 \x7d\x7d"

def mixedTemplate : Document :=
  ⟨[[.block (.binary .subtract (.slot "a") (.binary .multiply (.binary .multiply (.slot "b")
    (.call .minimum [.number (.int 1), .group (.binary .add (.slot "c") (.slot "d"))]))
      (.number (.int 2))))]]⟩

theorem mixedTemplate_canonical : mixedTemplate.Canonical := by
  refine ⟨by simp [mixedTemplate], fun l hl => ?_⟩
  rw [List.mem_singleton.1 hl]
  refine .inl (List.forall_mem_singleton.2 ?_)
  simp [Item.Inline, Expr.Canonical, Expr.AllCanonical, Expr.rank, Operator.rank]

theorem exists_tokens_mixedSource (limits : Limits)
    (h : (tokensAhead limits mixedSource).map (·.map Token.symbol) = .ok mixedTemplate.symbols) :
    ∃ tokens, tokensAhead limits mixedSource = .ok tokens ∧
      mixedTemplate.symbols = tokens.map Token.symbol := by
  cases htokens : tokensAhead limits mixedSource with
  | error e =>
    rw [htokens] at h
    cases h
  | ok tokens =>
    rw [htokens] at h
    exact ⟨tokens, rfl, (Except.ok.inj h).symm⟩

/-- Five levels are around the second operand of the inner sum. -/
theorem mixedSource_parse_of_depth : Expr.DepthMeasure Expr.need ∧ mixedTemplate.Canonical ∧
    parse { expressionDepth := 6 } mixedSource = .ok mixedTemplate ∧
      ∃ t, parse { expressionDepth := 5 } mixedSource = .error (.syntactic ⟨.tooDeep 5, t⟩) := by
  have hcanonical := mixedTemplate_canonical
  obtain ⟨tokens, htokens, hsymbols⟩ := exists_tokens_mixedSource { expressionDepth := 6 }
    (by with_unfolding_all rfl)
  obtain ⟨tokens', htokens', hsymbols'⟩ :=
    exists_tokens_mixedSource { expressionDepth := 5 } (by with_unfolding_all rfl)
  refine ⟨Expr.need_depthMeasure, hcanonical, ?_, ?_⟩
  · exact (parse_of_depth Expr.need_depthMeasure hcanonical htokens hsymbols).1 (by decide)
  · exact (parse_of_depth Expr.need_depthMeasure hcanonical htokens' hsymbols').2 (by decide)

end Stencil
