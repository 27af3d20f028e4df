import Mathlib.Data.Set.Insert
import Mathlib.Tactic.SplitIfs
import Mathlib.Tactic.Tauto
import Stencil.Proofs.Parse.Grammar
import Stencil.Proofs.Slot.Demand
import Stencil.Proofs.Slot.Unify
import Stencil.Proofs.Slot.Uses

/-! Inference against its specification. The slots of a parsed template depend on nothing but the
set of types that its free uses and its loops want of each name. -/
namespace Stencil

/-- Uses in expressions want numbers or anything, and never an array. -/
theorem Item.Free.type_eq_or {name : String} {type : SlotType} {item : Item}
    (h : item.Free name type) : type = .num ∨ type = .any := by
  induction h with
  | block h htype => exact htype ▸ Frame.wanted_eq_or (.inr rfl) _
  | loop hbinder hline hitem h ih => exact ih

theorem linesFree.type_eq_or {name : String} {type : SlotType} {lines : List Line}
    (h : linesFree name type lines) : type = .num ∨ type = .any := by
  obtain ⟨line, hline, item, hitem, hfree⟩ := h
  exact hfree.type_eq_or

theorem SlotType.sorted_of_num_or_any {types : List SlotType}
    (h : ∀ t ∈ types, t = .num ∨ t = .any) :
    sorted types =
      (if .num ∈ types then [.num] else []) ++ (if .any ∈ types then [.any] else []) := by
  have hother : ∀ t, t ≠ .num → t ≠ .any → t ∉ types := by
    intro t hnum hany ht
    rcases h t ht with heq | heq
    · exact hnum heq
    · exact hany heq
  have hstring := hother .string (by decide) (by decide)
  have hstrings := hother .stringArray (by decide) (by decide)
  have hnums := hother .numArray (by decide) (by decide)
  have hanys := hother .anyArray (by decide) (by decide)
  unfold sorted all
  simp only [List.contains_eq_mem, List.filter_cons, hstring, hstrings, hnums, hanys,
    decide_false, decide_eq_true_eq, List.filter_nil, Bool.false_eq_true, if_false]
  split_ifs <;> rfl

/-- Where numbers or anything are demanded of the binder, the loop's array has a type. -/
theorem arrayType_of_num_or_any {binder : String} (array : String) {demands : List Demand}
    (h : ∀ d ∈ demands, d.type = .num ∨ d.type = .any) :
    (arrayType binder array demands = .ok .numArray ∧ ∃ d ∈ demands, d.type = .num) ∨
      (arrayType binder array demands = .ok .anyArray ∧ ¬ ∃ d ∈ demands, d.type = .num) := by
  have hsorted := SlotType.sorted_of_num_or_any (List.forall_mem_map.2 h)
  have hnum : (∃ d ∈ demands, d.type = .num) ↔ .num ∈ demands.map Demand.type :=
    List.mem_map.symm
  rw [hnum]
  by_cases hmem : SlotType.num ∈ demands.map Demand.type
  · left
    refine ⟨?_, hmem⟩
    unfold arrayType
    rw [hsorted, if_pos hmem]
    split_ifs <;> rfl
  · right
    refine ⟨?_, hmem⟩
    unfold arrayType
    rw [hsorted, if_neg hmem]
    split_ifs <;> rfl

/-- What each item asks for by itself, a line asks for altogether. -/
theorem exists_lineOwnDemands {R : Item → Demand → Prop} {line : Line}
    (h : ∀ item ∈ line, ∃ own, item.ownDemands = .ok own ∧ ∀ d, d ∈ own ↔ R item d) :
    ∃ own, lineOwnDemands line = .ok own ∧ ∀ d, d ∈ own ↔ ∃ item ∈ line, R item d := by
  induction line with
  | nil => exact ⟨[], rfl, by simp⟩
  | cons item items ih =>
    rw [List.forall_mem_cons] at h
    obtain ⟨first, hfirst, hmem⟩ := h.1
    obtain ⟨rest, hrest, hmem'⟩ := ih h.2
    refine ⟨first ++ rest, ?_, fun d => ?_⟩
    · rw [lineOwnDemands, hfirst, hrest]
      rfl
    · rw [List.mem_append, hmem, hmem', List.exists_mem_cons_iff]

theorem exists_linesOwnDemands {R : Item → Demand → Prop} {lines : List Line}
    (h : ∀ line ∈ lines, ∃ own, lineOwnDemands line = .ok own ∧
      ∀ d, d ∈ own ↔ ∃ item ∈ line, R item d) :
    ∃ own, linesOwnDemands lines = .ok own ∧
      ∀ d, d ∈ own ↔ ∃ line ∈ lines, ∃ item ∈ line, R item d := by
  induction lines with
  | nil => exact ⟨[], rfl, by simp⟩
  | cons line lines ih =>
    rw [List.forall_mem_cons] at h
    obtain ⟨first, hfirst, hmem⟩ := h.1
    obtain ⟨rest, hrest, hmem'⟩ := ih h.2
    refine ⟨first ++ rest, ?_, fun d => ?_⟩
    · rw [linesOwnDemands, hfirst, hrest]
      rfl
    · rw [List.mem_append, hmem, hmem', List.exists_mem_cons_iff]

section Shaped

variable {P : Expr → Prop}

/-- What an item asks for, as the tree shows it. -/
def Item.Asks (item : Item) (d : Demand) : Prop :=
  item.Free d.name d.type ∨ item.Iterates d.name d.type

theorem Item.Inline.not_iterates {item : Item} (h : item.Inline P) {array : String}
    {type : SlotType} : ¬ item.Iterates array type := by
  intro hit
  cases hit <;> exact h

theorem Item.Inline.exists_ownDemands {item : Item} (h : item.Inline P) :
    ∃ own, item.ownDemands = .ok own ∧ ∀ d : Demand, d ∈ own ↔ item.Free d.name d.type := by
  cases item with
  | text content =>
    refine ⟨[], rfl, fun d => ?_⟩
    constructor
    · intro hd
      cases hd
    · intro hfree
      cases hfree
  | block e =>
    refine ⟨e.demands .any, rfl, fun d => ?_⟩
    rw [show d = ⟨d.name, d.type⟩ from rfl, e.mem_demands_iff]
    constructor
    · rintro ⟨frames, hoccurs, htype⟩
      exact .block hoccurs htype
    · intro hfree
      cases hfree with
      | block hoccurs htype => exact ⟨_, hoccurs, htype⟩
  | loop binder array body => exact h.elim

theorem Item.free_loop_iff {name binder array : String} {type : SlotType} {body : List Line} :
    (Item.loop binder array body).Free name type ↔ name ≠ binder ∧ linesFree name type body := by
  constructor
  · intro h
    cases h with
    | loop hbinder hline hitem h => exact ⟨hbinder.symm, _, hline, _, hitem, h⟩
  · rintro ⟨hname, line, hline, item, hitem, h⟩
    exact .loop hname.symm hline hitem h

theorem Item.iterates_loop_iff {name binder array : String} {type : SlotType} {body : List Line}
    (h : ∀ line ∈ body, ∀ item ∈ line, item.Inline P) :
    (Item.loop binder array body).Iterates name type ↔ name = array ∧
      ((type = .numArray ∧ linesFree binder .num body) ∨
        (type = .anyArray ∧ ¬ linesFree binder .num body)) := by
  constructor
  · intro hit
    cases hit with
    | numbers hfree => exact ⟨rfl, .inl ⟨rfl, hfree⟩⟩
    | anything hfree => exact ⟨rfl, .inr ⟨rfl, hfree⟩⟩
    | inner hline hitem hit => exact absurd hit (h _ hline _ hitem).not_iterates
  · rintro ⟨rfl, ⟨rfl, hfree⟩ | ⟨rfl, hfree⟩⟩
    · exact .numbers hfree
    · exact .anything hfree

/-- A loop whose body has no loop hands on what its body asks for, but for what is asked of the
binder, which goes over to the array. -/
theorem Item.exists_ownDemands_loop {binder array : String} {body : List Line}
    (h : ∀ line ∈ body, ∀ item ∈ line, item.Inline P) :
    ∃ own, (Item.loop binder array body).ownDemands = .ok own ∧
      ∀ d, d ∈ own ↔ (Item.loop binder array body).Asks d := by
  obtain ⟨inner, hinner, hmem⟩ : ∃ inner, linesOwnDemands body = .ok inner ∧
      ∀ d : Demand, d ∈ inner ↔ linesFree d.name d.type body :=
    exists_linesOwnDemands fun line hline =>
      exists_lineOwnDemands fun item hitem => (h line hline item hitem).exists_ownDemands
  have hplain : ∀ d ∈ inner.filter (·.name == binder), d.type = .num ∨ d.type = .any := by
    intro d hd
    exact linesFree.type_eq_or ((hmem d).1 (List.mem_of_mem_filter hd))
  have hnum : (∃ d ∈ inner.filter (fun d : Demand => d.name == binder), d.type = .num) ↔
      linesFree binder .num body := by
    constructor
    · rintro ⟨d, hd, htype⟩
      obtain ⟨hd, hname⟩ := List.mem_filter.1 hd
      have hfree := (hmem d).1 hd
      rwa [eq_of_beq hname, htype] at hfree
    · intro hfree
      have hd : ⟨binder, .num⟩ ∈ inner := (hmem ⟨binder, .num⟩).2 hfree
      exact ⟨⟨binder, .num⟩, List.mem_filter.2 ⟨hd, beq_self_eq_true binder⟩, rfl⟩
  have hfree : ∀ d, d ∈ inner.filter (·.name != binder) ↔
      (Item.loop binder array body).Free d.name d.type := by
    intro d
    rw [Item.free_loop_iff, List.mem_filter, bne_iff_ne, and_comm]
    exact and_congr_right fun _ => hmem d
  have harray : ∀ (d : Demand) (type : SlotType), d = ⟨array, type⟩ ↔
      d.name = array ∧ d.type = type := by
    rintro ⟨name, type'⟩ type
    rw [Demand.mk.injEq]
  rcases arrayType_of_num_or_any array hplain with ⟨htype, hany⟩ | ⟨htype, hany⟩
  · refine ⟨_, Item.ownDemands_loop_eq_ok.2 ⟨_, _, hinner, htype, rfl⟩, fun d => ?_⟩
    rw [List.mem_append, List.mem_singleton, hfree, harray, Item.Asks, Item.iterates_loop_iff h]
    have hbody := hnum.1 hany
    tauto
  · refine ⟨_, Item.ownDemands_loop_eq_ok.2 ⟨_, _, hinner, htype, rfl⟩, fun d => ?_⟩
    rw [List.mem_append, List.mem_singleton, hfree, harray, Item.Asks, Item.iterates_loop_iff h]
    rw [hnum] at hany
    tauto

theorem TopLine.exists_ownDemands {line : Line} (h : TopLine P line) :
    ∃ own, lineOwnDemands line = .ok own ∧ ∀ d, d ∈ own ↔ ∃ item ∈ line, item.Asks d := by
  apply exists_lineOwnDemands
  intro item hitem
  rcases h with h | ⟨binder, array, body, rfl, hbody⟩
  · obtain ⟨own, hown, hmem⟩ := (h item hitem).exists_ownDemands
    refine ⟨own, hown, fun d => (hmem d).trans ?_⟩
    exact (or_iff_left (h item hitem).not_iterates).symm
  · rw [List.mem_singleton.1 hitem]
    exact Item.exists_ownDemands_loop hbody

/-- The demands of a template of the parser's shape are what its names are wanted to be. -/
theorem Document.Shaped.exists_demands {d : Document} (h : d.Shaped P) :
    ∃ demands, d.demands = .ok demands ∧ demanded demands = d.wants := by
  obtain ⟨demands, hdemands, hmem⟩ :=
    exists_linesOwnDemands fun line hline => (h.2 line hline).exists_ownDemands
  refine ⟨demands, d.demands_eq.trans hdemands, ?_⟩
  funext name
  ext type
  show ⟨name, type⟩ ∈ demands ↔ _
  rw [hmem]
  constructor
  · rintro ⟨line, hline, item, hitem, hfree | hit⟩
    · exact .inl ⟨line, hline, item, hitem, hfree⟩
    · exact .inr ⟨line, hline, item, hitem, hit⟩
  · rintro (⟨line, hline, item, hitem, hfree⟩ | ⟨line, hline, item, hitem, hit⟩)
    · exact ⟨line, hline, item, hitem, .inl hfree⟩
    · exact ⟨line, hline, item, hitem, .inr hit⟩

theorem Document.Shaped.inferred {d : Document} (h : d.Shaped P) : Inferred d.wants d.slots := by
  obtain ⟨demands, hdemands, hwants⟩ := h.exists_demands
  rw [← hwants, Document.slots, hdemands]
  exact inferred_unify demands

/-- Numbers and anything always come to a type. -/
theorem SlotType.exists_resolves {types : Set SlotType} (hne : types.Nonempty)
    (h : ∀ t ∈ types, t = .num ∨ t = .any) : ∃ t, Resolves types t := by
  by_cases hnum : .num ∈ types
  · refine ⟨.num, ?_⟩
    by_cases hany : .any ∈ types
    · apply Resolves.refined
      ext t
      rw [Set.mem_insert_iff, Set.mem_singleton_iff]
      constructor
      · intro ht
        exact (h t ht).symm
      · rintro (rfl | rfl)
        · exact hany
        · exact hnum
    · apply Resolves.only
      refine Set.eq_singleton_iff_unique_mem.2 ⟨hnum, fun t ht => ?_⟩
      rcases h t ht with rfl | rfl
      · rfl
      · exact absurd ht hany
  · refine ⟨.any, ?_⟩
    apply Resolves.only
    refine Set.eq_singleton_iff_nonempty_unique_mem.2 ⟨hne, fun t ht => ?_⟩
    rcases h t ht with rfl | rfl
    · exact absurd ht hnum
    · rfl

/-- No loop stands in the template. A loop in a loop's body is in a loop of the template. -/
def Document.Loopless (d : Document) : Prop :=
  ∀ line ∈ d.lines, ∀ binder array body, .loop binder array body ∉ line

theorem Document.Loopless.type_eq_or {d : Document} (h : d.Loopless) {name : String}
    {type : SlotType} (htype : type ∈ d.wants name) : type = .num ∨ type = .any := by
  rcases htype with hfree | ⟨line, hline, item, hitem, hit⟩
  · exact hfree.type_eq_or
  · cases hit <;> exact absurd hitem (h line hline _ _ _)

theorem Document.Shaped.exists_slots {d : Document} (h : d.Shaped P) (hloop : d.Loopless) :
    ∃ slots, d.slots = .ok slots := by
  have hinferred := h.inferred
  cases hslots : d.slots with
  | ok slots => exact ⟨slots, rfl⟩
  | error e =>
    rw [hslots] at hinferred
    cases hinferred with
    | conflict conflict =>
      refine absurd ?_ conflict.2
      exact SlotType.exists_resolves conflict.1 fun t ht => hloop.type_eq_or ht

end Shaped

/-- Whatever is parsed, its slots are the one result that its uses and its loops leave, and names
clash only where there is a loop. -/
theorem slots_eq_iff_inferred {limits : Limits} {source : String} {d : Document}
    (h : parse limits source = .ok d) :
    (∀ result, d.slots = result ↔ Inferred d.wants result) ∧
      (∀ binder types, d.slots ≠ .error (.mixedArray binder types)) ∧
      (∀ array element, d.slots ≠ .error (.invalidArray array element)) ∧
      (d.Loopless → ∃ slots, d.slots = .ok slots) := by
  obtain ⟨tokens, -, hshaped, -⟩ := parse_ok_iff_within.1 h
  have hinferred := hshaped.inferred
  refine ⟨fun result => ?_, fun binder types hslots => ?_, fun array element hslots => ?_, ?_⟩
  · constructor
    · rintro rfl
      exact hinferred
    · exact hinferred.unique
  · rw [hslots] at hinferred
    cases hinferred
  · rw [hslots] at hinferred
    cases hinferred
  · exact hshaped.exists_slots

/-- A name that is added to a number in one place and gone through in another. -/
def clashSource : String :=
  "\x7b\x7b foreach x in xs \x7d\x7d\n-\n\x7b\x7b endforeach \x7d\x7d\n\x7b\x7b (xs) + x \x7d\x7d"

def clashTemplate : Document :=
  ⟨[[.loop "x" "xs" [[.text "-"]]],
    [.block (.binary .add (.group (.slot "xs")) (.slot "x"))]]⟩

theorem clashSource_slots_eq_iff_inferred :
    (parse {} clashSource = .ok clashTemplate ∧
      Inferred clashTemplate.wants (.error (.unresolvable "xs" [.num, .anyArray]))) ∧
    (parse {} loopSource = .ok loopTemplate ∧
      Inferred loopTemplate.wants (.ok [⟨"xs", .numArray⟩])) := by
  constructor
  · have hparse : parse {} clashSource = .ok clashTemplate := by with_unfolding_all rfl
    have hgroups : groupByName [⟨"xs", .anyArray⟩, ⟨"xs", .num⟩, ⟨"x", .num⟩] =
        [("x", [.num]), ("xs", [.anyArray, .num])] := by
      simp [groupByName, List.mergeSort, List.MergeSort.Internal.splitInTwo, addToGroups]
    have hslots : clashTemplate.slots = .error (.unresolvable "xs" [.num, .anyArray]) :=
      congrArg (List.mapM resolveGroup) hgroups
    exact ⟨hparse, ((slots_eq_iff_inferred hparse).1 _).1 hslots⟩
  · have hparse : parse {} loopSource = .ok loopTemplate := by with_unfolding_all rfl
    have hgroups : groupByName [⟨"xs", .numArray⟩] = [("xs", [.numArray])] := by
      simp [groupByName, addToGroups]
    have hslots : loopTemplate.slots = .ok [⟨"xs", .numArray⟩] :=
      congrArg (List.mapM resolveGroup) hgroups
    exact ⟨hparse, ((slots_eq_iff_inferred hparse).1 _).1 hslots⟩

end Stencil
