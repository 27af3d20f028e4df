import Mathlib.Data.Set.Insert
import Stencil.Proofs.Slot.Unify

/-! Unification of demands that were collected apart. It depends on the set of demands only, and the
slots of two collections come together name by name, as the types of a name do. -/
namespace Stencil

namespace SlotType

/-- A demand is met by its own type, and where anything is asked for, by a number. -/
def MetBy (t u : SlotType) : Prop := t = u ∨ t = .any ∧ u = .num

theorem MetBy.eq_of_any {t : SlotType} (h : t.MetBy .any) : t = .any := by
  rcases h with rfl | ⟨-, h⟩
  · rfl
  · cases h

/-- Types come to the one among them that meets all of them. -/
theorem resolves_iff {types : Set SlotType} {u : SlotType} :
    Resolves types u ↔ u ∈ types ∧ ∀ t ∈ types, t.MetBy u := by
  constructor
  · intro h
    cases h with
    | only h =>
      subst h
      exact ⟨rfl, fun t ht => .inl ht⟩
    | refined h =>
      subst h
      refine ⟨.inr rfl, ?_⟩
      rintro t (rfl | ht)
      · exact .inr ⟨rfl, rfl⟩
      · exact .inl ht
  · rintro ⟨hu, hmet⟩
    by_cases hrefined : u = .num ∧ .any ∈ types
    · obtain ⟨rfl, hany⟩ := hrefined
      apply Resolves.refined
      ext t
      constructor
      · intro ht
        exact (hmet t ht).elim .inr fun h => .inl h.1
      · rintro (rfl | rfl)
        · exact hany
        · exact hu
    · apply Resolves.only
      refine Set.eq_singleton_iff_unique_mem.2 ⟨hu, fun t ht => ?_⟩
      rcases hmet t ht with heq | ⟨rfl, hnum⟩
      · exact heq
      · exact absurd ⟨hnum, ht⟩ hrefined

/-- The type to which two types come. -/
inductive Joins : SlotType → SlotType → SlotType → Prop
  | same (t : SlotType) : Joins t t t
  | anyNum : Joins .any .num .num
  | numAny : Joins .num .any .num

namespace Joins

variable {t t' u : SlotType}

theorem metBy (h : Joins t t' u) : t.MetBy u ∧ t'.MetBy u := by
  cases h with
  | same => exact ⟨.inl rfl, .inl rfl⟩
  | anyNum => exact ⟨.inr ⟨rfl, rfl⟩, .inl rfl⟩
  | numAny => exact ⟨.inl rfl, .inr ⟨rfl, rfl⟩⟩

theorem eq_or_eq (h : Joins t t' u) : u = t ∨ u = t' := by
  cases h with
  | same => exact .inl rfl
  | anyNum => exact .inr rfl
  | numAny => exact .inl rfl

theorem of_metBy_left (h : t.MetBy t') : Joins t t' t' := by
  rcases h with rfl | ⟨rfl, rfl⟩
  · exact .same t
  · exact .anyNum

theorem of_metBy_right (h : t'.MetBy t) : Joins t t' t := by
  rcases h with rfl | ⟨rfl, rfl⟩
  · exact .same t'
  · exact .numAny

end Joins

theorem MetBy.trans {t u v : SlotType} (h : t.MetBy u) (h' : u.MetBy v) : t.MetBy v := by
  rcases h with rfl | ⟨rfl, rfl⟩
  · exact h'
  · rcases h' with rfl | ⟨h', -⟩
    · exact .inr ⟨rfl, rfl⟩
    · cases h'

section Union

variable {types types' : Set SlotType} {t u : SlotType}

/-- Some of the types that come to one come to one by themselves. -/
theorem Resolves.exists_of_subset (h : Resolves types u) (hsub : types' ⊆ types)
    (hne : types'.Nonempty) : ∃ t, Resolves types' t ∧ t.MetBy u := by
  obtain ⟨-, hmet⟩ := resolves_iff.1 h
  by_cases hu : u ∈ types'
  · exact ⟨u, resolves_iff.2 ⟨hu, fun t ht => hmet t (hsub ht)⟩, .inl rfl⟩
  · obtain ⟨t, ht⟩ := hne
    have hany : ∀ t' ∈ types', t' = .any := by
      intro t' ht'
      rcases hmet t' (hsub ht') with rfl | ⟨heq, -⟩
      · exact absurd ht' hu
      · exact heq
    refine ⟨t, resolves_iff.2 ⟨ht, fun t' ht' => .inl ?_⟩, hmet t (hsub ht)⟩
    rw [hany t ht, hany t' ht']

/-- Two collections of types come to what those come to that each of them comes to. -/
theorem resolves_union_iff (hne : types.Nonempty) (hne' : types'.Nonempty) :
    Resolves (types ∪ types') u ↔
      ∃ t t', Resolves types t ∧ Resolves types' t' ∧ Joins t t' u := by
  constructor
  · intro h
    obtain ⟨t, ht, hmet⟩ := h.exists_of_subset Set.subset_union_left hne
    obtain ⟨t', ht', hmet'⟩ := h.exists_of_subset Set.subset_union_right hne'
    refine ⟨t, t', ht, ht', ?_⟩
    rcases (resolves_iff.1 h).1 with hu | hu
    · rcases (resolves_iff.1 ht).2 u hu with rfl | ⟨rfl, rfl⟩
      · exact .of_metBy_right hmet'
      · cases hmet.eq_of_any
    · rcases (resolves_iff.1 ht').2 u hu with rfl | ⟨rfl, rfl⟩
      · exact .of_metBy_left hmet
      · cases hmet'.eq_of_any
  · rintro ⟨t, t', ht, ht', hjoins⟩
    rw [resolves_iff] at ht ht' ⊢
    refine ⟨?_, ?_⟩
    · rcases hjoins.eq_or_eq with rfl | rfl
      · exact .inl ht.1
      · exact .inr ht'.1
    · rintro t'' (h | h)
      · exact (ht.2 t'' h).trans hjoins.metBy.1
      · exact (ht'.2 t'' h).trans hjoins.metBy.2

end Union

end SlotType

open SlotType

theorem demanded_append (demands demands' : List Demand) (name : String) :
    demanded (demands ++ demands') name = demanded demands name ∪ demanded demands' name :=
  Set.ext fun _ => List.mem_append

/-- Neither order nor repetition of demands counts. -/
theorem unify_congr {demands demands' : List Demand} (h : ∀ d, d ∈ demands ↔ d ∈ demands') :
    unify demands = unify demands' := by
  have hsame : demanded demands = demanded demands' :=
    funext fun name => Set.ext fun t => h ⟨name, t⟩
  have hinferred := inferred_unify demands
  rw [hsame] at hinferred
  exact hinferred.unique (inferred_unify demands')

/-- Demands have slots if those on each name come to a type. -/
theorem exists_unify_iff {demands : List Demand} :
    (∃ slots, unify demands = .ok slots) ↔
      ∀ name, (demanded demands name).Nonempty → ∃ t, Resolves (demanded demands name) t := by
  simp only [← not_and_not_right]
  have hinferred := inferred_unify demands
  cases h : unify demands with
  | ok slots =>
    rw [h] at hinferred
    cases hinferred with
    | slots met => exact iff_of_true ⟨slots, rfl⟩ met
  | error e =>
    rw [h] at hinferred
    cases hinferred with
    | conflict conflict => exact iff_of_false (by simp) fun hnone => hnone _ conflict

section Slots

variable {demands demands' : List Demand} {slots slots' joined : List Slot}

theorem mem_slots_iff (h : unify demands = .ok slots) {s : Slot} :
    s ∈ slots ↔ Resolves (demanded demands s.name) s.type := by
  cases inferred_of_unify_ok h with
  | slots met sorted mem_iff => exact mem_iff s

/-- A name without a slot is not demanded. -/
theorem demanded_eq_empty_iff (h : unify demands = .ok slots) {name : String} :
    demanded demands name = ∅ ↔ ∀ s ∈ slots, s.name ≠ name := by
  constructor
  · rintro hnone s hs rfl
    exact ((mem_slots_iff h).1 hs).nonempty.ne_empty hnone
  · intro hnone
    refine Set.not_nonempty_iff_eq_empty.1 ?_
    rintro ⟨t, ht⟩
    obtain ⟨s, hs, hname, -⟩ := exists_slot_of_demand h ht
    exact hnone s hs hname

/-- The types of a name in both lists come to one. -/
def Compatible (slots slots' : List Slot) : Prop :=
  ∀ name t t', ⟨name, t⟩ ∈ slots → ⟨name, t'⟩ ∈ slots' → ∃ u, Joins t t' u

/-- The slots of two lists together: those of names in one of them, and for each name in both the
slot of the type to which its types come. -/
inductive InJoin (slots slots' : List Slot) : Slot → Prop
  | left {s : Slot} (h : s ∈ slots) (alone : ∀ s' ∈ slots', s'.name ≠ s.name) :
      InJoin slots slots' s
  | right {s : Slot} (h : s ∈ slots') (alone : ∀ s' ∈ slots, s'.name ≠ s.name) :
      InJoin slots slots' s
  | both {name : String} {t t' u : SlotType} (h : ⟨name, t⟩ ∈ slots) (h' : ⟨name, t'⟩ ∈ slots')
      (hjoins : Joins t t' u) : InJoin slots slots' ⟨name, u⟩

/-- The demands of two lists on a name come to a type as the slots of the lists do. -/
theorem resolves_append_iff (h : unify demands = .ok slots) (h' : unify demands' = .ok slots')
    {s : Slot} :
    Resolves (demanded (demands ++ demands') s.name) s.type ↔ InJoin slots slots' s := by
  obtain ⟨name, u⟩ := s
  rw [demanded_append]
  constructor
  · intro hres
    rcases Set.eq_empty_or_nonempty (demanded demands name) with hnone | hne
    · rw [hnone, Set.empty_union] at hres
      exact .right ((mem_slots_iff h').2 hres) ((demanded_eq_empty_iff h).1 hnone)
    · rcases Set.eq_empty_or_nonempty (demanded demands' name) with hnone' | hne'
      · rw [hnone', Set.union_empty] at hres
        exact .left ((mem_slots_iff h).2 hres) ((demanded_eq_empty_iff h').1 hnone')
      · obtain ⟨t, t', ht, ht', hjoins⟩ := (resolves_union_iff hne hne').1 hres
        exact .both ((mem_slots_iff h).2 ht) ((mem_slots_iff h').2 ht') hjoins
  · intro hjoin
    cases hjoin with
    | left hs alone =>
      rw [(demanded_eq_empty_iff h').2 alone, Set.union_empty]
      exact (mem_slots_iff h).1 hs
    | right hs alone =>
      rw [(demanded_eq_empty_iff h).2 alone, Set.empty_union]
      exact (mem_slots_iff h').1 hs
    | both hs hs' hjoins =>
      have ht := (mem_slots_iff h).1 hs
      have ht' := (mem_slots_iff h').1 hs'
      exact (resolves_union_iff ht.nonempty ht'.nonempty).2 ⟨_, _, ht, ht', hjoins⟩

/-- Fewer demands have slots, too. -/
theorem exists_unify_of_subset (h : unify demands = .ok slots) (hsub : demands' ⊆ demands) :
    ∃ slots', unify demands' = .ok slots' := by
  refine exists_unify_iff.2 fun name hne => ?_
  have hnames : demanded demands' name ⊆ demanded demands name := fun t ht => hsub ht
  obtain ⟨u, hu⟩ := exists_unify_iff.1 ⟨slots, h⟩ name (hne.mono hnames)
  obtain ⟨t, ht, -⟩ := hu.exists_of_subset hnames hne
  exact ⟨t, ht⟩

theorem compatible_of_unify_append (h : unify demands = .ok slots)
    (h' : unify demands' = .ok slots') (hjoined : unify (demands ++ demands') = .ok joined) :
    Compatible slots slots' := by
  intro name t t' hs hs'
  have ht : Resolves (demanded demands name) t := (mem_slots_iff h).1 hs
  have ht' : Resolves (demanded demands' name) t' := (mem_slots_iff h').1 hs'
  have hunion := exists_unify_iff.1 ⟨joined, hjoined⟩ name
  rw [demanded_append] at hunion
  obtain ⟨u, hu⟩ := hunion (ht.nonempty.mono Set.subset_union_left)
  obtain ⟨v, v', hv, hv', hjoins⟩ := (resolves_union_iff ht.nonempty ht'.nonempty).1 hu
  rw [ht.unique hv, ht'.unique hv']
  exact ⟨u, hjoins⟩

theorem exists_unify_append (h : unify demands = .ok slots) (h' : unify demands' = .ok slots')
    (hcompatible : Compatible slots slots') :
    ∃ joined, unify (demands ++ demands') = .ok joined := by
  refine exists_unify_iff.2 fun name hne => ?_
  suffices hjoin : ∃ u, InJoin slots slots' ⟨name, u⟩ by
    obtain ⟨u, hu⟩ := hjoin
    exact ⟨u, (resolves_append_iff h h').2 hu⟩
  rw [demanded_append] at hne
  have hslot := exists_unify_iff.1 ⟨slots, h⟩ name
  have hslot' := exists_unify_iff.1 ⟨slots', h'⟩ name
  rcases Set.eq_empty_or_nonempty (demanded demands name) with hnone | hleft
  · rw [hnone, Set.empty_union] at hne
    obtain ⟨t', ht'⟩ := hslot' hne
    exact ⟨t', .right ((mem_slots_iff h').2 ht') ((demanded_eq_empty_iff h).1 hnone)⟩
  · obtain ⟨t, ht⟩ := hslot hleft
    have hs : ⟨name, t⟩ ∈ slots := (mem_slots_iff h).2 ht
    rcases Set.eq_empty_or_nonempty (demanded demands' name) with hnone' | hright
    · exact ⟨t, .left hs ((demanded_eq_empty_iff h').1 hnone')⟩
    · obtain ⟨t', ht'⟩ := hslot' hright
      have hs' : ⟨name, t'⟩ ∈ slots' := (mem_slots_iff h').2 ht'
      obtain ⟨u, hjoins⟩ := hcompatible name t t' hs hs'
      exact ⟨u, .both hs hs' hjoins⟩

end Slots

/-- Unification is a partial join: it depends on the set of demands only, and types that come
together are joined name by name. -/
theorem unify_partial_join (demands demands' : List Demand) :
    ((∀ d, d ∈ demands ↔ d ∈ demands') → unify demands = unify demands') ∧
    ((∃ joined, unify (demands ++ demands') = .ok joined) ↔
      ∃ slots slots', unify demands = .ok slots ∧ unify demands' = .ok slots' ∧
        Compatible slots slots') ∧
    (∀ slots slots' joined, unify demands = .ok slots → unify demands' = .ok slots' →
      unify (demands ++ demands') = .ok joined →
        joined.Pairwise (fun s s' => utf8Bytes s.name < utf8Bytes s'.name) ∧
        ∀ s, s ∈ joined ↔ InJoin slots slots' s) ∧
    ∀ e, unify demands = .error e →
      ∃ name types, e = .unresolvable name types ∧ Conflict (demanded demands name) ∧
        (∀ name', Conflict (demanded demands name') → utf8Bytes name ≤ utf8Bytes name') ∧
        types.Sublist SlotType.all ∧ ∀ t, t ∈ types ↔ t ∈ demanded demands name := by
  refine ⟨unify_congr, ?_, ?_, ?_⟩
  · constructor
    · rintro ⟨joined, hjoined⟩
      obtain ⟨slots, h⟩ := exists_unify_of_subset hjoined (List.subset_append_left _ _)
      obtain ⟨slots', h'⟩ := exists_unify_of_subset hjoined (List.subset_append_right _ _)
      exact ⟨slots, slots', h, h', compatible_of_unify_append h h' hjoined⟩
    · rintro ⟨slots, slots', h, h', hcompatible⟩
      exact exists_unify_append h h' hcompatible
  · intro slots slots' joined h h' hjoined
    cases inferred_of_unify_ok hjoined with
    | slots met sorted mem_iff =>
      exact ⟨sorted, fun s => (mem_iff s).trans (resolves_append_iff h h')⟩
  · intro e he
    cases inferred_of_unify_error he with
    | conflict conflict least listed mem_iff =>
      exact ⟨_, _, rfl, conflict, least, listed, mem_iff⟩

/-- Demands of the first lines of a template, the same told otherwise, those of the lines behind
them, and some that clash. -/
def firstDemands : List Demand := [⟨"x", .any⟩, ⟨"rows", .numArray⟩]

def repeatedDemands : List Demand := [⟨"rows", .numArray⟩, ⟨"x", .any⟩, ⟨"x", .any⟩]

def laterDemands : List Demand := [⟨"x", .num⟩]

def clashingDemands : List Demand := [⟨"y", .string⟩, ⟨"x", .anyArray⟩, ⟨"y", .num⟩, ⟨"x", .any⟩]

theorem firstDemands_unify_partial_join :
    unify firstDemands = unify repeatedDemands ∧
    unify firstDemands = .ok [⟨"rows", .numArray⟩, ⟨"x", .any⟩] ∧
    unify laterDemands = .ok [⟨"x", .num⟩] ∧
    unify (firstDemands ++ laterDemands) = .ok [⟨"rows", .numArray⟩, ⟨"x", .num⟩] ∧
    InJoin [⟨"rows", .numArray⟩, ⟨"x", .any⟩] [⟨"x", .num⟩] ⟨"x", .num⟩ ∧
    unify clashingDemands = .error (.unresolvable "x" [.any, .anyArray]) ∧
    Conflict (demanded clashingDemands "x") := by
  have hfirst : unify firstDemands = .ok [⟨"rows", .numArray⟩, ⟨"x", .any⟩] := by
    have hgroups : groupByName firstDemands = [("rows", [.numArray]), ("x", [.any])] := by
      simp [groupByName, firstDemands, List.mergeSort, List.MergeSort.Internal.splitInTwo,
        addToGroups]
    exact congrArg (List.mapM resolveGroup) hgroups
  have hlater : unify laterDemands = .ok [⟨"x", .num⟩] := by
    have hgroups : groupByName laterDemands = [("x", [.num])] := by
      simp [groupByName, laterDemands, addToGroups]
    exact congrArg (List.mapM resolveGroup) hgroups
  have hjoined : unify (firstDemands ++ laterDemands) =
      .ok [⟨"rows", .numArray⟩, ⟨"x", .num⟩] := by
    have hgroups : groupByName (firstDemands ++ laterDemands) =
        [("rows", [.numArray]), ("x", [.any, .num])] := by
      simp [groupByName, firstDemands, laterDemands, List.mergeSort,
        List.MergeSort.Internal.splitInTwo, addToGroups]
    exact congrArg (List.mapM resolveGroup) hgroups
  have hclash : unify clashingDemands = .error (.unresolvable "x" [.any, .anyArray]) := by
    have hgroups : groupByName clashingDemands =
        [("x", [.anyArray, .any]), ("y", [.string, .num])] := by
      simp [groupByName, clashingDemands, List.mergeSort, List.MergeSort.Internal.splitInTwo,
        addToGroups]
    exact congrArg (List.mapM resolveGroup) hgroups
  have hsame : ∀ d, d ∈ firstDemands ↔ d ∈ repeatedDemands := by
    intro d
    simp only [firstDemands, repeatedDemands, List.mem_cons, List.not_mem_nil, or_false]
    tauto
  obtain ⟨-, -, hjoin, -⟩ := unify_partial_join firstDemands laterDemands
  obtain ⟨-, hmem⟩ := hjoin _ _ _ hfirst hlater hjoined
  obtain ⟨-, -, -, hfailed⟩ := unify_partial_join clashingDemands []
  obtain ⟨name, types, heq, hconflict, -⟩ := hfailed _ hclash
  cases heq
  exact ⟨(unify_partial_join firstDemands repeatedDemands).1 hsame, hfirst, hlater, hjoined,
    (hmem _).1 (by simp), hclash, hconflict⟩

end Stencil
