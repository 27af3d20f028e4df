import Stencil.Proofs.Parse.Cuts
import Stencil.Proofs.Render.Parts

/-! Templates behind one another. Sources with a line end between them are read and filled as each of
them is on its own. -/
namespace Stencil

open Limits

/-- Lines are rendered with a line end in front of those that come last. -/
theorem renderLines_append {scope : Scope} {lines lines' : List Line} (h : lines ≠ [])
    (h' : lines' ≠ []) :
    renderLines scope (lines ++ lines') = (do
      let front ← renderLines scope lines
      let back ← renderLines scope lines'
      return front ++ "\n" ++ back) := by
  rw [renderLines_eq, renderLines_eq, renderLines_eq, List.mapM_append]
  cases hfront : lines.mapM (renderLine scope "") with
  | error e => rfl
  | ok front =>
    cases hback : lines'.mapM (renderLine scope "") with
    | error e => rfl
    | ok back =>
      have hne : front ≠ [] := Except.ne_nil_of_mapM_ok hfront h
      have hne' : back ≠ [] := Except.ne_nil_of_mapM_ok hback h'
      exact congrArg Except.ok (String.intercalate_append_of_ne_nil hne hne')

section Join

/-- The lines of a source. The empty source counts as one empty line. -/
def sourceLines (source : String) (d : Document) : List Line :=
  if source = "" then [[]] else d.lines

variable {source : String} {d : Document}

theorem IsTemplate.lines_eq_nil_iff (h : IsTemplate source d) : d.lines = [] ↔ source = "" := by
  obtain ⟨hd, xs, hsymbols, limits, hcuts⟩ := isTemplate_iff.1 h
  obtain ⟨text, htext, hnil, -⟩ := hcuts.exists_text
  rw [List.append_nil] at htext
  subst htext
  rw [← String.toList_eq_nil_iff, ← joinLineEnds_eq_nil, hnil]
  constructor
  · intro hlines
    rw [Document.symbols, hlines] at hsymbols
    simpa [linesSymbols] using hsymbols
  · rintro rfl
    cases hlines : d.lines with
    | nil => rfl
    | cons l lines =>
      rw [Document.symbols, hlines] at hsymbols
      obtain ⟨rfl, rfl⟩ := Parser.eq_of_linesSymbols_end hsymbols.symm
      exact absurd hlines hd.1

theorem IsTemplate.sourceLines_ne_nil (h : IsTemplate source d) : sourceLines source d ≠ [] := by
  unfold sourceLines
  split
  · simp
  · rename_i hne
    rwa [Ne, h.lines_eq_nil_iff]

theorem IsTemplate.linesSymbols_sourceLines (h : IsTemplate source d) :
    linesSymbols (sourceLines source d) = d.symbols := by
  unfold sourceLines
  split
  · rename_i hempty
    rw [Document.symbols, h.lines_eq_nil_iff.2 hempty]
    rfl
  · rfl

theorem IsTemplate.topLine (h : IsTemplate source d) :
    ∀ l ∈ sourceLines source d, TopLine Expr.Canonical l := by
  unfold sourceLines
  split
  · rw [List.forall_mem_singleton]
    exact .inl (by simp)
  · exact (isTemplate_iff.1 h).1.2

theorem IsTemplate.render (h : IsTemplate source d) (context : Context) :
    d.render context = renderLines (.root context) (sourceLines source d) := by
  unfold sourceLines
  split
  · rename_i hempty
    rw [Document.render, h.lines_eq_nil_iff.2 hempty]
    rfl
  · rfl

theorem linesSymbols_append {lines lines' : List Line} {xs : List Symbol}
    (h : linesSymbols lines = xs ++ [⟨.endOfFile, ""⟩]) (hne : lines ≠ []) (hne' : lines' ≠ []) :
    linesSymbols (lines ++ lines') = xs ++ ⟨.newline, ""⟩ :: linesSymbols lines' := by
  induction lines generalizing xs with
  | nil => contradiction
  | cons l lines ih =>
    by_cases hnil : lines = []
    · subst hnil
      obtain rfl : lineSymbols l = xs := List.append_inj_left' h rfl
      exact linesSymbols_cons hne'
    · obtain ⟨ys, hys, -⟩ := exists_linesSymbols lines
      rw [linesSymbols_cons hnil, hys, ← List.cons_append, ← List.append_assoc] at h
      obtain rfl := List.append_inj_left' h rfl
      rw [List.cons_append, linesSymbols_cons (by simp [hne']), ih hys hnil]
      simp

/-- Templates with a line end between them are one template, with the lines of both, and filled one
behind the other. -/
theorem parse_append_newline {source source' : String} {limits limits' : Limits} {d d' : Document}
    (h : parse limits source = .ok d) (h' : parse limits' source' = .ok d')
    (hreturn : source.toList.getLast? ≠ some '\r') :
    ∃ joined : Document,
      (Ample fun limits => parse limits (source ++ "\n" ++ source') = .ok joined) ∧
        joined.lines = sourceLines source d ++ sourceLines source' d' ∧
        ∀ context, joined.render context = (do
          let front ← d.render context
          let back ← d'.render context
          return front ++ "\n" ++ back) := by
  have htemplate : IsTemplate source d := ⟨limits, h⟩
  have htemplate' : IsTemplate source' d' := ⟨limits', h'⟩
  have hne := htemplate.sourceLines_ne_nil
  have hne' := htemplate'.sourceLines_ne_nil
  obtain ⟨-, xs, hsymbols, hcut⟩ := isTemplate_iff.1 htemplate
  obtain ⟨-, ys, hsymbols', hcut'⟩ := isTemplate_iff.1 htemplate'
  let joined : Document := ⟨sourceLines source d ++ sourceLines source' d'⟩
  have hjoined : IsTemplate (source ++ "\n" ++ source') joined := by
    refine isTemplate_iff.2 ⟨⟨?_, ?_⟩, xs ++ ⟨.newline, ""⟩ :: ys, ?_, ?_⟩
    · -- two lines at least
      intro hlines
      have hlength := congrArg List.length hlines
      have hpos := List.length_pos_iff.2 hne
      have hpos' := List.length_pos_iff.2 hne'
      rw [List.length_append, List.length_singleton] at hlength
      omega
    · exact List.forall_mem_append.2 ⟨htemplate.topLine, htemplate'.topLine⟩
    · rw [← htemplate.linesSymbols_sourceLines] at hsymbols
      rw [← htemplate'.linesSymbols_sourceLines] at hsymbols'
      rw [Document.symbols, linesSymbols_append hsymbols hne hne', hsymbols', List.append_assoc,
        List.cons_append]
    · have htext : (source ++ "\n" ++ source').toList =
          source.toList ++ '\n' :: source'.toList := by simp
      rw [htext, joinLineEnds_append fun hborder => hreturn hborder.1,
        joinLineEnds_cons (by simp)]
      exact hcut.append_newline hcut'
  refine ⟨joined, ?_, rfl, fun context => ?_⟩
  · exact (ample_parse_iff _).imp fun limits hlimits => (hlimits joined).2 hjoined
  · rw [htemplate.render, htemplate'.render, Document.render]
    exact renderLines_append hne hne'

/-- A loop that ends the first source, and a second source that is empty. -/
theorem loopSource_parse_append_newline :
    parse {} loopSource = .ok loopTemplate ∧ parse {} "" = .ok ⟨[]⟩ ∧
      loopSource.toList.getLast? ≠ some '\r' ∧
      ∃ joined : Document,
        (Ample fun limits => parse limits (loopSource ++ "\n" ++ "") = .ok joined) ∧
          joined.lines = loopTemplate.lines ++ [[]] ∧
          joined.render { bindings := [("xs", .array [.number (.int 1), .number (.int 2)])] } =
            .ok "4\n6\n" := by
  have hloop : parse {} loopSource = .ok loopTemplate := by with_unfolding_all rfl
  have hempty : parse {} "" = .ok ⟨[]⟩ := by with_unfolding_all rfl
  have hreturn : loopSource.toList.getLast? ≠ some '\r' := by decide
  obtain ⟨joined, hjoined, hlines, hrender⟩ := parse_append_newline hloop hempty hreturn
  refine ⟨hloop, hempty, hreturn, joined, hjoined, hlines, ?_⟩
  rw [hrender]
  with_unfolding_all rfl

end Join

end Stencil
