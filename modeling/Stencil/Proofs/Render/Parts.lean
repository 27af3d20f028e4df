import Stencil.Proofs.Except
import Stencil.Render.Basic

/-! Filling part by part. An item is filled alike behind any text, a line is filled with the texts
of its items, and lines with those of the lines and a line end in between. Whatever holds of the
items of a template therefore holds of its lines. -/
namespace Stencil

variable {scope scope' : Scope} {err : EvalError} {lines : List Line}

/-- What was rendered before stays in front. -/
theorem Item.render_done (front done : String) (item : Item) :
    item.render scope (front ++ done) = (front ++ ·) <$> item.render scope done := by
  cases item with
  | text content =>
    rw [Item.render, Item.render, String.append_assoc]
    rfl
  | block e =>
    rw [Item.render, Item.render]
    cases e.eval scope with
    | error e => rfl
    | ok v => exact congrArg Except.ok (String.append_assoc ..)
  | loop binder array body =>
    rw [Item.render, Item.render]
    cases scope.resolveArray array with
    | error e => rfl
    | ok items =>
      dsimp only [bind, Except.bind]
      cases items.mapM fun item => renderLines (.bind binder item scope) body with
      | error e => rfl
      | ok rounds => exact congrArg Except.ok (String.append_assoc ..)

theorem renderLine_eq (done : String) (l : Line) :
    renderLine scope done l = (done ++ String.join ·) <$> l.mapM (Item.render scope "") := by
  induction l generalizing done with
  | nil => exact congrArg Except.ok String.append_empty.symm
  | cons item l ih =>
    have hitem : item.render scope done = (done ++ ·) <$> item.render scope "" := by
      rw [← item.render_done, String.append_empty]
    rw [renderLine, List.mapM_cons, hitem]
    cases item.render scope "" with
    | error e => rfl
    | ok text =>
      have hrest := ih (done ++ text)
      show renderLine scope (done ++ text) l = _
      rw [hrest]
      cases l.mapM (Item.render scope "") with
      | error e => rfl
      | ok texts =>
        apply congrArg Except.ok
        show done ++ text ++ String.join texts = done ++ String.join (text :: texts)
        rw [String.join_cons, String.append_assoc]

theorem renderRest_eq (done : String) (lines : List Line) :
    renderRest scope done lines =
      (fun texts => "\n".intercalate (done :: texts)) <$> lines.mapM (renderLine scope "") := by
  induction lines generalizing done with
  | nil => exact congrArg Except.ok String.intercalate_singleton.symm
  | cons l lines ih =>
    have hline : renderLine scope (done ++ "\n") l =
        (done ++ "\n" ++ ·) <$> renderLine scope "" l := by
      rw [renderLine_eq, renderLine_eq, ← comp_map]
      simp only [Function.comp_def, String.empty_append]
    rw [renderRest, List.mapM_cons, hline]
    cases renderLine scope "" l with
    | error e => rfl
    | ok text =>
      have hrest := ih (done ++ "\n" ++ text)
      show renderRest scope (done ++ "\n" ++ text) lines = _
      rw [hrest]
      cases lines.mapM (renderLine scope "") with
      | error e => rfl
      | ok texts =>
        apply congrArg Except.ok
        show "\n".intercalate ((done ++ "\n" ++ text) :: texts) =
          "\n".intercalate (done :: text :: texts)
        rw [String.intercalate_cons_append, String.intercalate_cons_cons]

theorem renderLines_eq (lines : List Line) :
    renderLines scope lines = "\n".intercalate <$> lines.mapM (renderLine scope "") := by
  cases lines with
  | nil => rfl
  | cons l lines =>
    rw [renderLines, List.mapM_cons]
    cases renderLine scope "" l with
    | error e => rfl
    | ok text =>
      show renderRest scope text lines = _
      rw [renderRest_eq]
      cases lines.mapM (renderLine scope "") <;> rfl

/-- Lines are filled only if each of their items is. -/
theorem exists_render_of_renderLines {text : String} (h : renderLines scope lines = .ok text)
    {l : Line} (hl : l ∈ lines) {item : Item} (hitem : item ∈ l) :
    ∃ part, item.render scope "" = .ok part := by
  rw [renderLines_eq] at h
  obtain ⟨texts, htexts, -⟩ := Except.map_eq_ok.1 h
  obtain ⟨whole, -, hwhole⟩ := Except.exists_mem_of_mapM_ok htexts hl
  rw [renderLine_eq] at hwhole
  obtain ⟨parts, hparts, -⟩ := Except.map_eq_ok.1 hwhole
  obtain ⟨part, -, hpart⟩ := Except.exists_mem_of_mapM_ok hparts hitem
  exact ⟨part, hpart⟩

/-- Lines fail only as one of their items does. -/
theorem exists_render_of_renderLines_error (h : renderLines scope lines = .error err) :
    ∃ l ∈ lines, ∃ item ∈ l, item.render scope "" = .error err := by
  rw [renderLines_eq, Except.map_eq_error] at h
  obtain ⟨l, hl, hline⟩ := Except.exists_mem_of_mapM_error h
  rw [renderLine_eq, Except.map_eq_error] at hline
  obtain ⟨item, hitem, hfails⟩ := Except.exists_mem_of_mapM_error hline
  exact ⟨l, hl, item, hitem, hfails⟩

section Congruence

variable {f : EvalError → EvalError} {g : Item → Item}

theorem mapError_renderLine_map {l : Line}
    (h : ∀ item ∈ l, ((g item).render scope' "").mapError f = (item.render scope "").mapError f)
    (done : String) :
    (renderLine scope' done (l.map g)).mapError f = (renderLine scope done l).mapError f := by
  rw [renderLine_eq, renderLine_eq, Except.mapError_map, Except.mapError_map,
    Except.mapError_mapM_map h]

/-- Where items are put in the place of others and filled like them, so are the lines. -/
theorem mapError_renderLines_map
    (h : ∀ l ∈ lines, ∀ item ∈ l,
      ((g item).render scope' "").mapError f = (item.render scope "").mapError f) :
    (renderLines scope' (lines.map (List.map g))).mapError f =
      (renderLines scope lines).mapError f := by
  have hline : ∀ l ∈ lines, (renderLine scope' "" (l.map g)).mapError f =
      (renderLine scope "" l).mapError f :=
    fun l hl => mapError_renderLine_map (h l hl) ""
  rw [renderLines_eq, renderLines_eq, Except.mapError_map, Except.mapError_map,
    Except.mapError_mapM_map hline]

theorem renderLine_congr {l : Line}
    (h : ∀ item ∈ l, item.render scope "" = item.render scope' "") (done : String) :
    renderLine scope done l = renderLine scope' done l := by
  rw [renderLine_eq, renderLine_eq, Except.mapM_congr h]

/-- Lines are filled alike in two scopes if their items are. -/
theorem renderLines_congr
    (h : ∀ l ∈ lines, ∀ item ∈ l, item.render scope "" = item.render scope' "") :
    renderLines scope lines = renderLines scope' lines := by
  have hline : ∀ l ∈ lines, renderLine scope "" l = renderLine scope' "" l :=
    fun l hl => renderLine_congr (h l hl) ""
  rw [renderLines_eq, renderLines_eq, Except.mapM_congr hline]

end Congruence

/-- Filling `lines` in a scope comes to an item in a scope: in a loop's body, in that of the round
for an item of the array. -/
inductive Visits : Scope → List Line → Scope → Item → Prop
  | here {scope : Scope} {lines : List Line} {l : Line} {item : Item} (hl : l ∈ lines)
    (hitem : item ∈ l) : Visits scope lines scope item
  | round {scope inner : Scope} {lines body : List Line} {l : Line} {binder array : String}
    {values : List Value} {value : Value} {item : Item} (hl : l ∈ lines)
    (hloop : .loop binder array body ∈ l) (harray : scope.resolveArray array = .ok values)
    (hvalue : value ∈ values) (h : Visits (.bind binder value scope) body inner item) :
    Visits scope lines inner item

/-- A failure is that of a block, or of a loop over no array, in a scope that the filling comes to. -/
theorem exists_visits_of_renderLines_error (h : renderLines scope lines = .error err) :
    (∃ inner e, Visits scope lines inner (.block e) ∧ e.eval inner = .error err) ∨
      ∃ inner binder array body, Visits scope lines inner (.loop binder array body) ∧
        inner.resolveArray array = .error err := by
  obtain ⟨l, hl, item, hitem, hfails⟩ := exists_render_of_renderLines_error h
  clear h
  induction item using Item.induction generalizing scope lines l with
  | text content =>
    rw [Item.render] at hfails
    cases hfails
  | block e =>
    rw [Item.render, Except.bind_eq_error] at hfails
    rcases hfails with hfails | ⟨value, -, hfails⟩
    · exact .inl ⟨scope, e, .here hl hitem, hfails⟩
    · cases hfails
  | loop binder array body ih =>
    rw [Item.render] at hfails
    simp only [Except.bind_eq_error] at hfails
    rcases hfails with hfails | ⟨values, harray, hfails | ⟨rounds, -, hfails⟩⟩
    · exact .inr ⟨scope, binder, array, body, .here hl hitem, hfails⟩
    · obtain ⟨value, hvalue, hround⟩ := Except.exists_mem_of_mapM_error hfails
      obtain ⟨l', hl', item', hitem', hfails'⟩ := exists_render_of_renderLines_error hround
      rcases ih l' hl' item' hitem' l' hl' hitem' hfails' with
        ⟨inner, e, hvisit, heval⟩ | ⟨inner, binder', array', body', hvisit, hresolve⟩
      · exact .inl ⟨inner, e, .round hl hitem harray hvalue hvisit, heval⟩
      · exact .inr ⟨inner, binder', array', body', .round hl hitem harray hvalue hvisit, hresolve⟩
    · cases hfails

end Stencil
