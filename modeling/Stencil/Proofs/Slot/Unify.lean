import Mathlib.Data.List.Nodup
import Mathlib.Data.List.Sort
import Mathlib.Data.Set.Insert
import Mathlib.Data.String.Basic
import Stencil.Proofs.Except
import Stencil.Proofs.Slot.Accepts
import Stencil.Proofs.Text.Bytes

/-! What unification comes to, said of the types demanded of each name and of nothing else. -/
namespace Stencil

namespace SlotType

/-- The type to which a collection of demanded types comes. A number is more than anything. -/
inductive Resolves (types : Set SlotType) : SlotType → Prop
  | only {t : SlotType} (h : types = {t}) : Resolves types t
  | refined (h : types = {.any, .num}) : Resolves types .num

/-- Types of which no single one meets all demands. -/
def Conflict (types : Set SlotType) : Prop := types.Nonempty ∧ ¬ ∃ t, Resolves types t

theorem Resolves.nonempty {types : Set SlotType} {t : SlotType} (h : Resolves types t) :
    types.Nonempty := by
  cases h with
  | only h => exact ⟨t, by simp [h]⟩
  | refined h => exact ⟨.num, by simp [h]⟩

theorem Resolves.unique {types : Set SlotType} {t t' : SlotType} (h : Resolves types t)
    (h' : Resolves types t') : t = t' := by
  cases h with
  | only h =>
    cases h' with
    | only h' => simpa [h] using h'
    | refined h' =>
      have hmem : (.num : SlotType) ∈ types := by simp [h']
      rw [h] at hmem
      exact hmem.symm
  | refined h =>
    cases h' with
    | only h' =>
      have hmem : (.num : SlotType) ∈ types := by simp [h]
      rw [h'] at hmem
      exact hmem
    | refined h' => rfl

/-- A sorted collection is resolved as the set of its types is. -/
theorem resolve?_sorted {types : List SlotType} {t : SlotType} :
    resolve? (sorted types) = some t ↔ Resolves {t' | t' ∈ types} t := by
  constructor
  · intro h
    have hmem : ∀ t', t' ∈ types ↔ t' ∈ sorted types := fun t' => mem_sorted.symm
    unfold resolve? at h
    split at h
    · rename_i only hsorted
      cases h
      apply Resolves.only
      ext t'
      rw [Set.mem_ofPred_eq, hmem, hsorted, List.mem_singleton, Set.mem_singleton_iff]
    · rename_i hsorted
      cases h
      apply Resolves.refined
      ext t'
      rw [Set.mem_ofPred_eq, hmem, hsorted]
      simp [or_comm]
    · cases h
  · intro h
    have hsorted : ∀ {set : Set SlotType} [DecidablePred (· ∈ set)], {t' | t' ∈ types} = set →
        sorted types = all.filter fun t' => decide (t' ∈ set) := by
      intro set _ hset
      unfold sorted
      congr 1
      funext t'
      rw [List.contains_eq_mem]
      exact decide_eq_decide.2 (by rw [← hset]; rfl)
    cases h with
    | only h =>
      rw [hsorted h]
      cases t <;> simp only [Set.mem_singleton_iff] <;> decide
    | refined h =>
      rw [hsorted h]
      simp only [Set.mem_insert_iff, Set.mem_singleton_iff]
      decide

end SlotType

/-- The types that a list of demands asks of one name. -/
def demanded (demands : List Demand) (name : String) : Set SlotType :=
  {t | ⟨name, t⟩ ∈ demands}

theorem name_of_mem_addToGroups {d : Demand} {groups : List (String × List SlotType)}
    {g : String × List SlotType} (hg : g ∈ addToGroups d groups) :
    d.name = g.1 ∨ ∃ g' ∈ groups, g'.1 = g.1 := by
  unfold addToGroups at hg
  split at hg
  · rename_i name types groups
    split at hg
    · rename_i hn
      rcases List.mem_cons.1 hg with rfl | hg
      · exact .inl hn
      · exact .inr ⟨g, List.mem_cons_of_mem _ hg, rfl⟩
    · rcases List.mem_cons.1 hg with rfl | hg
      · exact .inl rfl
      · exact .inr ⟨g, hg, rfl⟩
  · rw [List.mem_singleton.1 hg]
    exact .inl rfl

theorem exists_demand_of_mem_foldr {demands : List Demand} {g : String × List SlotType}
    (hg : g ∈ demands.foldr addToGroups []) : ∃ d ∈ demands, d.name = g.1 := by
  induction demands generalizing g with
  | nil => cases hg
  | cons d ds ih =>
    rcases name_of_mem_addToGroups hg with hname | ⟨g', hg', hname⟩
    · exact ⟨d, List.mem_cons_self, hname⟩
    · obtain ⟨d', hd', hname'⟩ := ih hg'
      exact ⟨d', List.mem_cons_of_mem _ hd', hname'.trans hname⟩

/-- A demand on no later a name keeps the groups apart and in order. -/
theorem pairwise_addToGroups {d : Demand} {groups : List (String × List SlotType)}
    (h : groups.Pairwise fun g g' => g.1 < g'.1) (hd : ∀ g ∈ groups, d.name ≤ g.1) :
    (addToGroups d groups).Pairwise fun g g' => g.1 < g'.1 := by
  unfold addToGroups
  split
  · rename_i name types groups
    have hrest := List.pairwise_cons.1 h
    split
    · exact List.pairwise_cons.2 hrest
    · rename_i hne
      have hlt : d.name < name := lt_of_le_of_ne (hd _ List.mem_cons_self) hne
      refine List.pairwise_cons.2 ⟨List.forall_mem_cons.2 ⟨hlt, fun g hg => ?_⟩, h⟩
      exact lt_trans hlt (hrest.1 g hg)
  · exact List.pairwise_singleton _ _

theorem pairwise_foldr_addToGroups {demands : List Demand}
    (h : demands.Pairwise fun a b => a.name ≤ b.name) :
    (demands.foldr addToGroups []).Pairwise fun g g' => g.1 < g'.1 := by
  induction demands with
  | nil => exact List.Pairwise.nil
  | cons d ds ih =>
    rw [List.pairwise_cons] at h
    refine pairwise_addToGroups (ih h.2) fun g hg => ?_
    obtain ⟨d', hd', hname⟩ := exists_demand_of_mem_foldr hg
    rw [← hname]
    exact h.1 d' hd'

/-- Groups stand in the order of their names, and there is one for each. -/
theorem pairwise_groupByName (demands : List Demand) :
    (groupByName demands).Pairwise fun g g' => g.1 < g'.1 := by
  apply pairwise_foldr_addToGroups
  have htrans : ∀ a b c : Demand, decide (a.name ≤ b.name) = true →
      decide (b.name ≤ c.name) = true → decide (a.name ≤ c.name) = true := by
    intro a b c
    simpa only [decide_eq_true_eq] using le_trans
  have htotal : ∀ a b : Demand,
      (decide (a.name ≤ b.name) || decide (b.name ≤ a.name)) = true := by
    intro a b
    simpa only [Bool.or_eq_true, decide_eq_true_eq] using le_total a.name b.name
  have hsorted := List.pairwise_mergeSort htrans htotal demands
  exact hsorted.imp of_decide_eq_true

/-- A group holds all types that are demanded of its name. -/
theorem mem_group_iff {demands : List Demand} {g : String × List SlotType}
    (hg : g ∈ groupByName demands) {t : SlotType} : t ∈ g.2 ↔ ⟨g.1, t⟩ ∈ demands := by
  constructor
  · exact demand_of_mem_groupByName hg
  · intro ht
    obtain ⟨g', hg', hname, ht'⟩ := mem_groupByName ht
    have hnodup : ((groupByName demands).map Prod.fst).Nodup :=
      List.pairwise_map.2 ((pairwise_groupByName demands).imp ne_of_lt)
    rwa [← List.inj_on_of_nodup_map hnodup hg' hg hname]

theorem resolveGroup_ok_iff {demands : List Demand} {g : String × List SlotType}
    (hg : g ∈ groupByName demands) {s : Slot} :
    resolveGroup g = .ok s ↔ s.name = g.1 ∧ SlotType.Resolves (demanded demands g.1) s.type := by
  have hset : demanded demands g.1 = {t | t ∈ g.2} := Set.ext fun t => (mem_group_iff hg).symm
  rw [hset, ← SlotType.resolve?_sorted]
  constructor
  · exact resolveGroup_eq_ok
  · rintro ⟨hname, hres⟩
    rw [resolveGroup, hres, ← hname]

theorem resolveGroup_eq_error {g : String × List SlotType} {e : TypeError}
    (h : resolveGroup g = .error e) : e = .unresolvable g.1 (SlotType.sorted g.2) := by
  unfold resolveGroup at h
  dsimp only at h
  split at h
  · cases h
  · cases h
    rfl

/-- Grouping loses and makes up no name. -/
theorem exists_group_iff {demands : List Demand} {name : String} :
    (∃ g ∈ groupByName demands, g.1 = name) ↔ (demanded demands name).Nonempty := by
  constructor
  · rintro ⟨g, hg, rfl⟩
    obtain ⟨d, hd, hname⟩ := exists_demand_of_mem_foldr hg
    refine ⟨d.type, ?_⟩
    show ⟨g.1, d.type⟩ ∈ demands
    rw [← hname]
    exact List.mem_mergeSort.1 hd
  · rintro ⟨t, ht⟩
    obtain ⟨g, hg, hname, -⟩ := mem_groupByName ht
    exact ⟨g, hg, hname⟩

/-- Each wanted name has the type that its types come to, or the first name whose types come to none
is told with all of them. -/
inductive Inferred (wants : String → Set SlotType) : Except TypeError (List Slot) → Prop
  | slots {slots : List Slot} (met : ∀ name, ¬ SlotType.Conflict (wants name))
      (sorted : slots.Pairwise fun s s' => utf8Bytes s.name < utf8Bytes s'.name)
      (mem_iff : ∀ s : Slot, s ∈ slots ↔ SlotType.Resolves (wants s.name) s.type) :
      Inferred wants (.ok slots)
  | conflict {name : String} {types : List SlotType} (conflict : SlotType.Conflict (wants name))
      (least : ∀ name', SlotType.Conflict (wants name') → utf8Bytes name ≤ utf8Bytes name')
      (listed : types.Sublist SlotType.all) (mem_iff : ∀ t, t ∈ types ↔ t ∈ wants name) :
      Inferred wants (.error (.unresolvable name types))

theorem resolveGroup_ne_ok {demands : List Demand} {g : String × List SlotType}
    (hg : g ∈ groupByName demands) (h : SlotType.Conflict (demanded demands g.1)) (s : Slot) :
    resolveGroup g ≠ .ok s := by
  intro hs
  exact h.2 ⟨s.type, ((resolveGroup_ok_iff hg).1 hs).2⟩

/-- Slots that are found have a name for every group, and the type to which its demands come. -/
theorem inferred_of_unify_ok {demands : List Demand} {slots : List Slot}
    (h : unify demands = .ok slots) : Inferred (demanded demands) (.ok slots) := by
  apply Inferred.slots
  · intro name hname
    obtain ⟨g, hg, rfl⟩ := exists_group_iff.2 hname.1
    obtain ⟨s, -, hs⟩ := Except.exists_mem_of_mapM_ok h hg
    exact resolveGroup_ne_ok hg hname s hs
  · have hnames : slots.map Slot.name = (groupByName demands).map Prod.fst :=
      Except.map_of_mapM_ok (fun _ _ hs => (resolveGroup_eq_ok hs).1) h
    have hsorted : ((groupByName demands).map Prod.fst).Pairwise (· < ·) :=
      List.pairwise_map.2 (pairwise_groupByName demands)
    rw [← hnames, List.pairwise_map] at hsorted
    exact hsorted.imp utf8Bytes_lt_iff.2
  · intro s
    constructor
    · intro hs
      obtain ⟨g, hg, hslot⟩ := Except.exists_mem_of_mem_mapM_ok h hs
      obtain ⟨hname, hres⟩ := (resolveGroup_ok_iff hg).1 hslot
      rwa [hname]
    · intro hres
      obtain ⟨g, hg, hname⟩ := exists_group_iff.2 hres.nonempty
      obtain ⟨s', hs', hslot⟩ := Except.exists_mem_of_mapM_ok h hg
      have hslot' := (resolveGroup_ok_iff hg).2 ⟨hname.symm, hname ▸ hres⟩
      cases hslot.symm.trans hslot'
      exact hs'

/-- The failure is that of the first group that fails. All groups before it have a type, and those
behind it are of later names. -/
theorem inferred_of_unify_error {demands : List Demand} {e : TypeError}
    (h : unify demands = .error e) : Inferred (demanded demands) (.error e) := by
  obtain ⟨front, g, back, hgroups, herror, hfront⟩ := Except.exists_first_of_mapM_error h
  have hg : g ∈ groupByName demands := by
    rw [hgroups]
    exact List.mem_append_right _ List.mem_cons_self
  have hpairwise := pairwise_groupByName demands
  rw [hgroups, List.pairwise_append, List.pairwise_cons] at hpairwise
  rw [resolveGroup_eq_error herror]
  apply Inferred.conflict
  · refine ⟨exists_group_iff.1 ⟨g, hg, rfl⟩, ?_⟩
    rintro ⟨t, ht⟩
    have hok : resolveGroup g = .ok ⟨g.1, t⟩ := (resolveGroup_ok_iff hg).2 ⟨rfl, ht⟩
    cases herror.symm.trans hok
  · intro name hname
    obtain ⟨g', hg', rfl⟩ := exists_group_iff.2 hname.1
    have hplace : g' ∈ front ++ g :: back := hgroups ▸ hg'
    rcases List.mem_append.1 hplace with hf | hplace
    · obtain ⟨s, hs⟩ := hfront g' hf
      exact absurd hs (resolveGroup_ne_ok hg' hname s)
    · rcases List.mem_cons.1 hplace with rfl | hb
      · exact List.le_refl _
      · exact List.le_of_lt (utf8Bytes_lt_iff.2 (hpairwise.2.1.1 g' hb))
  · exact List.filter_sublist
  · intro t
    rw [SlotType.mem_sorted, mem_group_iff hg]
    rfl

theorem inferred_unify (demands : List Demand) : Inferred (demanded demands) (unify demands) := by
  cases h : unify demands with
  | ok slots => exact inferred_of_unify_ok h
  | error e => exact inferred_of_unify_error h

/-- Two lists of slots in the order of their names are equal if their members are. -/
theorem slots_ext {slots slots' : List Slot}
    (h : slots.Pairwise fun s s' => utf8Bytes s.name < utf8Bytes s'.name)
    (h' : slots'.Pairwise fun s s' => utf8Bytes s.name < utf8Bytes s'.name)
    (hmem : ∀ s, s ∈ slots ↔ s ∈ slots') : slots = slots' := by
  have hirrefl : Std.Irrefl fun s s' : Slot => utf8Bytes s.name < utf8Bytes s'.name :=
    ⟨fun s => List.lt_irrefl (utf8Bytes s.name)⟩
  have hantisymm : Std.Antisymm fun s s' : Slot => utf8Bytes s.name < utf8Bytes s'.name :=
    ⟨fun s s' hlt hgt => absurd (List.lt_trans hlt hgt) (List.lt_irrefl _)⟩
  exact h.eq_of_mem_iff h' fun {s} => hmem s

/-- Two collections listed in the order of types are equal if their members are. -/
theorem SlotType.sublist_ext {types types' : List SlotType} (h : types.Sublist all)
    (h' : types'.Sublist all) (hmem : ∀ t, t ∈ types ↔ t ∈ types') : types = types' := by
  have hall : all.Pairwise fun t t' => all.idxOf t < all.idxOf t' := by decide
  have hirrefl : Std.Irrefl fun t t' : SlotType => all.idxOf t < all.idxOf t' :=
    ⟨fun t => Nat.lt_irrefl _⟩
  have hantisymm : Std.Antisymm fun t t' : SlotType => all.idxOf t < all.idxOf t' :=
    ⟨fun t t' hlt hgt => absurd (Nat.lt_trans hlt hgt) (Nat.lt_irrefl _)⟩
  exact (hall.sublist h).eq_of_mem_iff (hall.sublist h') fun {t} => hmem t

/-- The wanted types leave one result. -/
theorem Inferred.unique {wants : String → Set SlotType}
    {result result' : Except TypeError (List Slot)} (h : Inferred wants result)
    (h' : Inferred wants result') : result = result' := by
  cases h with
  | slots met sorted mem_iff =>
    cases h' with
    | slots _ sorted' mem_iff' =>
      have hmem := fun s => (mem_iff s).trans (mem_iff' s).symm
      rw [slots_ext sorted sorted' hmem]
    | conflict conflict' => exact absurd conflict' (met _)
  | conflict conflict least listed mem_iff =>
    cases h' with
    | slots met' => exact absurd conflict (met' _)
    | conflict conflict' least' listed' mem_iff' =>
      rename_i name types name' types'
      have hname : name = name' := by
        have hle := least _ conflict'
        have hge := least' _ conflict
        rcases lt_trichotomy name name' with hlt | heq | hgt
        · exact absurd (utf8Bytes_lt_iff.2 hlt) (List.not_lt.2 hge)
        · exact heq
        · exact absurd (utf8Bytes_lt_iff.2 hgt) (List.not_lt.2 hle)
      subst hname
      rw [SlotType.sublist_ext listed listed' fun t => (mem_iff t).trans (mem_iff' t).symm]

end Stencil
