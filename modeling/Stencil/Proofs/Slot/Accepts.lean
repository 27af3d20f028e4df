import Stencil.Proofs.Except
import Stencil.Render.Scope
import Stencil.Slot.Unify

/-! Which values a slot type accepts, and that resolving several demands on a name loses none. -/
namespace Stencil

/-- The values that a slot of a type may be filled with. -/
def SlotType.Accepts : SlotType → Value → Prop
  | string, v => v.kind = .string
  | num, v => ∃ n, v.asNumber? = some n
  | any, _ => True
  | stringArray, v => ∃ items, v.asArray? = some items ∧ ∀ item ∈ items, item.kind = .string
  | numArray, v =>
    ∃ items, v.asArray? = some items ∧ ∀ item ∈ items, ∃ n, item.asNumber? = some n
  | anyArray, v => ∃ items, v.asArray? = some items

/-- Every slot has a value of its type. -/
def Context.Conforms (c : Context) (slots : List Slot) : Prop :=
  ∀ s ∈ slots, ∃ v, c.get? s.name = some v ∧ s.type.Accepts v

/-- Every demanded name stands for a value of the demanded type. -/
def Scope.Meets (scope : Scope) (demands : List Demand) : Prop :=
  ∀ d ∈ demands, ∃ v, scope.get? d.name = some v ∧ d.type.Accepts v

theorem Scope.Meets.append {scope : Scope} {ds ds' : List Demand} :
    scope.Meets (ds ++ ds') ↔ scope.Meets ds ∧ scope.Meets ds' := by
  simp only [Meets, List.forall_mem_append]

theorem Scope.Meets.mono {scope : Scope} {ds ds' : List Demand} (h : scope.Meets ds')
    (hs : ds ⊆ ds') : scope.Meets ds :=
  fun d hd => h d (hs hd)

theorem Scope.Meets.singleton_iff {scope : Scope} {name : String} {type : SlotType} :
    scope.Meets [⟨name, type⟩] ↔ ∃ v, scope.get? name = some v ∧ type.Accepts v := by
  simp only [Meets, List.forall_mem_singleton]

namespace SlotType

/-- The resolved type meets each of the demands. -/
theorem resolve?_mem {types : List SlotType} {t d : SlotType} (h : resolve? types = some t)
    (hd : d ∈ types) : d = t ∨ d = .any := by
  unfold resolve? at h
  split at h
  · cases h
    exact .inl (List.mem_singleton.1 hd)
  · cases h
    simpa using hd
  · cases h

theorem mem_sorted {types : List SlotType} {t : SlotType} : t ∈ sorted types ↔ t ∈ types := by
  simp [sorted, mem_all t]

/-- The resolved type is one of the demands. -/
theorem mem_of_resolve? {types : List SlotType} {t : SlotType} (h : resolve? types = some t) :
    t ∈ types := by
  unfold resolve? at h
  split at h
  · cases h
    exact List.mem_singleton_self _
  · cases h
    simp
  · cases h

theorem Accepts.of_eq_or_any {t d : SlotType} {v : Value} (h : d = t ∨ d = .any)
    (hv : t.Accepts v) : d.Accepts v := by
  rcases h with rfl | rfl
  · exact hv
  · trivial

theorem Accepts.any_of_num {type : SlotType} (ht : type = .num ∨ type = .any) {v : Value}
    (hv : num.Accepts v) : type.Accepts v := by
  rcases ht with rfl | rfl
  · exact hv
  · trivial

/-- The items of an accepted array are accepted by the type of its elements. -/
theorem Accepts.items {element type : SlotType} (h : element.arrayOf? = some type) {v : Value}
    (hv : type.Accepts v) :
    ∃ items, v.asArray? = some items ∧ ∀ item ∈ items, element.Accepts item := by
  cases element <;> cases h
  · exact hv
  · obtain ⟨items, hi⟩ := hv
    exact ⟨items, hi, fun _ _ => trivial⟩

end SlotType

/-- The type of a loop's array is made from one that the body demands of the binder, or from any if
it demands none; all other demands are for anything. -/
theorem arrayType_eq_ok {binder array : String} {demands : List Demand} {type : SlotType}
    (h : arrayType binder array demands = .ok type) :
    ∃ element : SlotType, element.arrayOf? = some type ∧
      (element = .any ∨ ∃ d ∈ demands, d.type = element) ∧
      ∀ d ∈ demands, d.type = element ∨ d.type = .any := by
  unfold arrayType at h
  dsimp only at h
  split at h
  · cases h
  · rename_i element he
    split at h
    · cases h
    · rename_i found hf
      cases h
      refine ⟨element, hf, ?_⟩
      split at he
      · rename_i hempty
        have hnone : ∀ d ∈ demands, False := by
          intro d hd
          have hs := SlotType.mem_sorted.2 (List.mem_map_of_mem (f := Demand.type) hd)
          rw [List.isEmpty_iff.1 hempty] at hs
          cases hs
        cases he
        exact ⟨.inl rfl, fun d hd => (hnone d hd).elim⟩
      · have hmem := SlotType.mem_sorted.1 (SlotType.mem_of_resolve? he)
        obtain ⟨d, hd, htype⟩ := List.mem_map.1 hmem
        refine ⟨.inr ⟨d, hd, htype⟩, fun d' hd' => ?_⟩
        exact SlotType.resolve?_mem he (SlotType.mem_sorted.2 (List.mem_map_of_mem hd'))

/-- What a loop's array is asked for covers what the body asks of the binder. -/
theorem arrayType_items {binder array : String} {demands : List Demand} {type : SlotType}
    (h : arrayType binder array demands = .ok type) {v : Value} (hv : type.Accepts v) :
    ∃ items, v.asArray? = some items ∧
      ∀ item ∈ items, ∀ d ∈ demands, d.type.Accepts item := by
  obtain ⟨element, harray, -, hdemands⟩ := arrayType_eq_ok h
  obtain ⟨items, hitems, hall⟩ := SlotType.Accepts.items harray hv
  exact ⟨items, hitems, fun item hitem d hd =>
    SlotType.Accepts.of_eq_or_any (hdemands d hd) (hall item hitem)⟩

/-- A demand put before groups joins one of them. -/
theorem mem_addToGroups (d : Demand) (groups : List (String × List SlotType)) :
    (∃ g ∈ addToGroups d groups, g.1 = d.name ∧ d.type ∈ g.2) ∧
      ∀ g ∈ groups, ∃ g' ∈ addToGroups d groups, g'.1 = g.1 ∧ g.2 ⊆ g'.2 := by
  unfold addToGroups
  split
  · rename_i name types groups
    split
    · rename_i hn
      refine ⟨⟨_, List.mem_cons_self, hn.symm, List.mem_cons_self⟩, fun g hg => ?_⟩
      rcases List.mem_cons.1 hg with rfl | hg
      · exact ⟨_, List.mem_cons_self, rfl, List.subset_cons_self _ _⟩
      · exact ⟨g, List.mem_cons_of_mem _ hg, rfl, List.Subset.refl _⟩
    · refine ⟨⟨_, List.mem_cons_self, rfl, List.mem_cons_self⟩, fun g hg => ?_⟩
      exact ⟨g, List.mem_cons_of_mem _ hg, rfl, List.Subset.refl _⟩
  · exact ⟨⟨_, List.mem_cons_self, rfl, List.mem_cons_self⟩, fun g hg => by cases hg⟩

theorem mem_foldr_addToGroups {demands : List Demand} {d : Demand} (hd : d ∈ demands) :
    ∃ g ∈ demands.foldr addToGroups [], g.1 = d.name ∧ d.type ∈ g.2 := by
  induction demands with
  | nil => cases hd
  | cons first rest ih =>
    obtain ⟨hnew, hold⟩ := mem_addToGroups first (rest.foldr addToGroups [])
    rcases List.mem_cons.1 hd with rfl | hrest
    · exact hnew
    · obtain ⟨g, hg, hname, htype⟩ := ih hrest
      obtain ⟨g', hg', hname', hsub⟩ := hold g hg
      exact ⟨g', hg', hname'.trans hname, hsub htype⟩

/-- No demand is lost when demands are grouped by name. -/
theorem mem_groupByName {demands : List Demand} {d : Demand} (hd : d ∈ demands) :
    ∃ g ∈ groupByName demands, g.1 = d.name ∧ d.type ∈ g.2 :=
  mem_foldr_addToGroups (List.mem_mergeSort.2 hd)

theorem of_mem_addToGroups {d : Demand} {groups : List (String × List SlotType)}
    {g : String × List SlotType} (hg : g ∈ addToGroups d groups) {t : SlotType} (ht : t ∈ g.2) :
    (g.1 = d.name ∧ t = d.type) ∨ ∃ g' ∈ groups, g'.1 = g.1 ∧ t ∈ g'.2 := by
  unfold addToGroups at hg
  split at hg
  · rename_i name types groups
    split at hg
    · rename_i hn
      rcases List.mem_cons.1 hg with rfl | hg
      · rcases List.mem_cons.1 ht with rfl | ht
        · exact .inl ⟨hn.symm, rfl⟩
        · exact .inr ⟨_, List.mem_cons_self, rfl, ht⟩
      · exact .inr ⟨g, List.mem_cons_of_mem _ hg, rfl, ht⟩
    · rcases List.mem_cons.1 hg with rfl | hg
      · exact .inl ⟨rfl, List.mem_singleton.1 ht⟩
      · exact .inr ⟨g, hg, rfl, ht⟩
  · rw [List.mem_singleton.1 hg] at ht ⊢
    exact .inl ⟨rfl, List.mem_singleton.1 ht⟩

/-- Grouping by name makes up no demand. -/
theorem demand_of_mem_groupByName {demands : List Demand} {g : String × List SlotType}
    (hg : g ∈ groupByName demands) {t : SlotType} (ht : t ∈ g.2) : ⟨g.1, t⟩ ∈ demands := by
  suffices h : ∀ ds : List Demand, g ∈ ds.foldr addToGroups [] → ⟨g.1, t⟩ ∈ ds from
    List.mem_mergeSort.1 (h _ hg)
  clear hg
  intro ds
  induction ds generalizing g with
  | nil =>
    intro hg
    cases hg
  | cons d ds ih =>
    intro hg
    rcases of_mem_addToGroups hg ht with ⟨hname, rfl⟩ | ⟨g', hg', hname, ht'⟩
    · rw [hname]
      exact List.mem_cons_self
    · rw [← hname]
      exact List.mem_cons_of_mem _ (ih ht' hg')

theorem resolveGroup_eq_ok {g : String × List SlotType} {s : Slot} (h : resolveGroup g = .ok s) :
    s.name = g.1 ∧ SlotType.resolve? (SlotType.sorted g.2) = some s.type := by
  unfold resolveGroup at h
  dsimp only at h
  split at h
  · rename_i type hres
    cases h
    exact ⟨rfl, hres⟩
  · cases h

section Unify

variable {demands : List Demand} {slots : List Slot}

/-- Every slot is a demand of its own type. -/
theorem demand_of_slot (h : unify demands = .ok slots) {s : Slot} (hs : s ∈ slots) :
    ⟨s.name, s.type⟩ ∈ demands := by
  obtain ⟨g, hg, hslot⟩ := Except.exists_mem_of_mem_mapM_ok h hs
  obtain ⟨hname, hres⟩ := resolveGroup_eq_ok hslot
  rw [hname]
  exact demand_of_mem_groupByName hg (SlotType.mem_sorted.1 (SlotType.mem_of_resolve? hres))

/-- Every demand has a slot, of the demanded type unless anything is. -/
theorem exists_slot_of_demand (h : unify demands = .ok slots) {d : Demand} (hd : d ∈ demands) :
    ∃ s ∈ slots, s.name = d.name ∧ (d.type = s.type ∨ d.type = .any) := by
  obtain ⟨g, hg, hname, htype⟩ := mem_groupByName hd
  obtain ⟨s, hs, hslot⟩ := Except.exists_mem_of_mapM_ok h hg
  obtain ⟨hs', hres⟩ := resolveGroup_eq_ok hslot
  exact ⟨s, hs, hs'.trans hname, SlotType.resolve?_mem hres (SlotType.mem_sorted.2 htype)⟩

/-- A context that fills the slots meets every demand from which they were inferred. -/
theorem Context.Conforms.meets {c : Context} (hc : c.Conforms slots)
    (h : unify demands = .ok slots) : (Scope.root c).Meets demands := by
  intro d hd
  obtain ⟨s, hs, hname, htype⟩ := exists_slot_of_demand h hd
  obtain ⟨v, hv, hacc⟩ := hc s hs
  exact ⟨v, hname ▸ hv, SlotType.Accepts.of_eq_or_any htype hacc⟩

end Unify

end Stencil
