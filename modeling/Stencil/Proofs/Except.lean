/-! When a chain or a traversal of steps that may fail succeeds, and where it fails. -/
namespace Stencil.Except

variable {ε α β : Type}

theorem bind_eq_ok {x : Except ε α} {f : α → Except ε β} {b : β} :
    x >>= f = .ok b ↔ ∃ a, x = .ok a ∧ f a = .ok b := by
  cases x <;> simp [bind, Except.bind]

theorem bind_eq_error {x : Except ε α} {f : α → Except ε β} {e : ε} :
    x >>= f = .error e ↔ x = .error e ∨ ∃ a, x = .ok a ∧ f a = .error e := by
  cases x <;> simp [bind, Except.bind]

theorem ok_bind (a : α) (f : α → Except ε β) : (Except.ok a >>= f) = f a := rfl

theorem map_ok (a : α) (f : α → β) : f <$> (Except.ok a : Except ε α) = .ok (f a) := rfl

theorem map_eq_ok {x : Except ε α} {f : α → β} {b : β} :
    f <$> x = .ok b ↔ ∃ a, x = .ok a ∧ f a = b := by
  cases x <;> simp [Functor.map, Except.map]

theorem map_eq_error {x : Except ε α} {f : α → β} {e : ε} :
    f <$> x = .error e ↔ x = .error e := by
  cases x <;> simp [Functor.map, Except.map]

/-- Traversals are alike if they are at every member. -/
theorem mapM_congr {f g : α → Except ε β} {l : List α} (h : ∀ a ∈ l, f a = g a) :
    l.mapM f = l.mapM g := by
  induction l with
  | nil => rfl
  | cons a l ih =>
    rw [List.forall_mem_cons] at h
    rw [List.mapM_cons, List.mapM_cons, h.1, ih h.2]

theorem mapM_map_answers {γ : Type} (f : α → Except ε β) (g : β → γ) (l : List α) :
    (l.mapM fun a => g <$> f a) = List.map g <$> l.mapM f := by
  induction l with
  | nil => rfl
  | cons a l ih =>
    rw [List.mapM_cons, List.mapM_cons, ih]
    cases f a with
    | error e => rfl
    | ok b => cases l.mapM f <;> rfl

section MapError

variable {ε' : Type} {f : ε → ε'}

theorem mapError_ok (a : α) : (Except.ok a : Except ε α).mapError f = .ok a := rfl

theorem mapError_eq_ok {x : Except ε α} {a : α} : x.mapError f = .ok a ↔ x = .ok a := by
  cases x with
  | ok b => constructor <;> exact fun | rfl => rfl
  | error e => exact iff_of_false nofun nofun

theorem mapError_pure (a : α) : (pure a : Except ε α).mapError f = pure a := rfl

/-- What is done to failures can be done step by step. -/
theorem mapError_bind (x : Except ε α) (g : α → Except ε β) :
    (x >>= g).mapError f = x.mapError f >>= fun a => (g a).mapError f := by
  cases x <;> rfl

theorem mapError_map (x : Except ε α) (g : α → β) :
    (g <$> x).mapError f = g <$> x.mapError f := by
  cases x <;> rfl

theorem mapError_mapM (g : α → Except ε β) (l : List α) :
    (l.mapM g).mapError f = l.mapM fun a => (g a).mapError f := by
  induction l with
  | nil => rfl
  | cons a l ih => simp only [List.mapM_cons, mapError_bind, mapError_pure, ih]

/-- Members may be exchanged for others with the same answers. -/
theorem mapError_mapM_map {g g' : α → Except ε β} {k : α → α} {l : List α}
    (h : ∀ a ∈ l, (g' (k a)).mapError f = (g a).mapError f) :
    ((l.map k).mapM g').mapError f = (l.mapM g).mapError f := by
  rw [List.mapM_map, mapError_mapM, mapError_mapM]
  exact mapM_congr h

end MapError

/-- A traversal that succeeds has succeeded at every member. -/
theorem exists_mem_of_mapM_ok {f : α → Except ε β} {l : List α} {bs : List β}
    (h : l.mapM f = .ok bs) {a : α} (ha : a ∈ l) : ∃ b ∈ bs, f a = .ok b := by
  induction l generalizing bs with
  | nil => cases ha
  | cons x xs ih =>
    rw [List.mapM_cons, bind_eq_ok] at h
    obtain ⟨y, hy, h⟩ := h
    rw [bind_eq_ok] at h
    obtain ⟨ys, hys, h⟩ := h
    cases h
    rcases List.mem_cons.1 ha with rfl | ha
    · exact ⟨y, List.mem_cons_self, hy⟩
    · obtain ⟨b, hb, hf⟩ := ih hys ha
      exact ⟨b, List.mem_cons_of_mem y hb, hf⟩

/-- What a traversal answers with comes from its members. -/
theorem exists_mem_of_mem_mapM_ok {f : α → Except ε β} {l : List α} {bs : List β}
    (h : l.mapM f = .ok bs) {b : β} (hb : b ∈ bs) : ∃ a ∈ l, f a = .ok b := by
  induction l generalizing bs with
  | nil =>
    cases h
    cases hb
  | cons x xs ih =>
    rw [List.mapM_cons, bind_eq_ok] at h
    obtain ⟨y, hy, h⟩ := h
    rw [bind_eq_ok] at h
    obtain ⟨ys, hys, h⟩ := h
    cases h
    rcases List.mem_cons.1 hb with rfl | hb
    · exact ⟨x, List.mem_cons_self, hy⟩
    · obtain ⟨a, ha, hf⟩ := ih hys hb
      exact ⟨a, List.mem_cons_of_mem x ha, hf⟩

/-- A traversal that fails has failed at one of the members. -/
theorem exists_mem_of_mapM_error {f : α → Except ε β} {l : List α} {e : ε}
    (h : l.mapM f = .error e) : ∃ a ∈ l, f a = .error e := by
  induction l with
  | nil => cases h
  | cons x xs ih =>
    rw [List.mapM_cons, bind_eq_error] at h
    rcases h with h | ⟨y, -, h⟩
    · exact ⟨x, List.mem_cons_self, h⟩
    · rw [bind_eq_error] at h
      rcases h with h | ⟨ys, -, h⟩
      · obtain ⟨a, ha, hf⟩ := ih h
        exact ⟨a, List.mem_cons_of_mem x ha, hf⟩
      · cases h

/-- What a traversal keeps of each member, it keeps of them in order. -/
theorem map_of_mapM_ok {γ : Type} {f : α → Except ε β} {key : α → γ} {key' : β → γ}
    (hkey : ∀ a b, f a = .ok b → key' b = key a) {l : List α} {bs : List β}
    (h : l.mapM f = .ok bs) : bs.map key' = l.map key := by
  induction l generalizing bs with
  | nil =>
    cases h
    rfl
  | cons x xs ih =>
    rw [List.mapM_cons, bind_eq_ok] at h
    obtain ⟨y, hy, h⟩ := h
    rw [bind_eq_ok] at h
    obtain ⟨ys, hys, h⟩ := h
    cases h
    rw [List.map_cons, List.map_cons, hkey x y hy, ih hys]

theorem ne_nil_of_mapM_ok {f : α → Except ε β} {l : List α} {bs : List β}
    (h : l.mapM f = .ok bs) (hne : l ≠ []) : bs ≠ [] := by
  obtain ⟨a, ha⟩ := List.exists_mem_of_ne_nil l hne
  obtain ⟨b, hb, -⟩ := exists_mem_of_mapM_ok h ha
  exact List.ne_nil_of_mem hb

/-- A traversal fails at the first member at which it can. -/
theorem exists_first_of_mapM_error {f : α → Except ε β} {l : List α} {e : ε}
    (h : l.mapM f = .error e) : ∃ front a back, l = front ++ a :: back ∧ f a = .error e ∧
      ∀ x ∈ front, ∃ b, f x = .ok b := by
  induction l with
  | nil => cases h
  | cons x xs ih =>
    rw [List.mapM_cons, bind_eq_error] at h
    rcases h with h | ⟨y, hy, h⟩
    · exact ⟨[], x, xs, rfl, h, by simp⟩
    · rw [bind_eq_error] at h
      rcases h with h | ⟨ys, -, h⟩
      · obtain ⟨front, a, back, rfl, ha, hfront⟩ := ih h
        exact ⟨x :: front, a, back, rfl, ha, List.forall_mem_cons.2 ⟨⟨y, hy⟩, hfront⟩⟩
      · cases h

end Stencil.Except
