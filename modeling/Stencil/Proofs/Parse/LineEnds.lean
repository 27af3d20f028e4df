import Stencil.Proofs.Parse.Body

/-! Templates whose text holds line ends of two characters. Joining them shortens or drops what stands
in front of a line end, and leaves a template. -/
namespace Stencil

variable {cs text rest : List Char} {xs ys : List Symbol} {P Q : List Symbol → Prop}

/-- A line without the return that belongs to its line end. -/
def trimReturn (text : List Char) : List Char :=
  if text.getLast? = some '\r' then text.dropLast else text

theorem joinLineEnds_line (htext : '\n' ∉ text) :
    joinLineEnds [] (text ++ '\n' :: rest) = trimReturn text ++ '\n' :: joinLineEnds [] rest := by
  have hplain {line : List Char} (hline : '\n' ∉ line) : joinLineEnds [] line = line :=
    joinLineEnds_of_apart (.of_not_mem hline) []
  unfold trimReturn
  split
  · rename_i hreturn
    obtain ⟨line, rfl⟩ := List.getLast?_eq_some_iff.1 hreturn
    have hline : '\n' ∉ line := fun hmem => htext (List.mem_append_left _ hmem)
    rw [List.append_assoc, joinLineEnds_append (by simp), hplain hline, List.dropLast_concat,
      List.singleton_append, joinLineEnds_return]
  · rename_i hreturn
    rw [joinLineEnds_append fun hborder => hreturn hborder.1, hplain htext,
      joinLineEnds_cons (by simp)]

theorem Cuts.eq_of_text {limits : Limits} {content : String}
    (h : Cuts limits .literal cs [⟨.text, content⟩] .literal []) :
    cs ≠ [] ∧ (∀ c ∈ cs, Mode.literal.continues c = true) ∧ Undelimited cs := by
  cases h with
  | @cons _ _ _ cs' _ x _ _ hcut hx hend h =>
    cases h
    have hchars : x.chars ++ [] = cs := chars_append_of_cutLexeme hcut
    have hne := Lexeme.chars_ne_nil hcut hx hend
    cases x with
    | run run =>
      obtain rfl : run = cs := by simpa [Lexeme.chars] using hchars
      rcases border_of_cutLexeme hcut with ⟨hmode, -⟩ | ⟨hrun, hplain, -⟩
      · cases hmode
      · exact ⟨hne, hrun, hplain⟩
    | _ => cases hx

namespace IsCut

/-- A line that ends with a block has no return at its end. -/
theorem trimReturn_of_closed (h : IsCut text (xs ++ [⟨.closeBlock, ""⟩])) :
    trimReturn text = text := by
  obtain ⟨limits, h⟩ := h
  obtain ⟨text, braces, -, rfl, ⟨front, rfl⟩, -, -⟩ := h.exists_closing
  refine if_neg ?_
  simp

/-- Without a return at its end, the text at the end of a line is shorter, or gone. -/
theorem of_concat_return {content : String} (hmode : Mode.literal.behind xs = .literal)
    (h : IsCut (text ++ ['\r']) (xs ++ [⟨.text, content⟩])) :
    IsCut text xs ∨ ∃ content', IsCut text (xs ++ [⟨.text, content'⟩]) := by
  obtain ⟨limits, h⟩ := h
  obtain ⟨mode, run, hfront, hlast⟩ := h.exists_of_append
  obtain rfl := hfront.mode_eq.trans hmode
  obtain ⟨hne, hrun, hplain⟩ := hlast.eq_of_text
  obtain ⟨front, htext, -, -⟩ := hfront.exists_text
  rw [htext] at hfront
  obtain ⟨run, c, rfl⟩ := (List.eq_nil_or_concat' run).resolve_left hne
  rw [← List.append_assoc] at htext
  obtain ⟨rfl, -⟩ := List.append_inj' htext rfl
  by_cases hempty : run = []
  · subst hempty
    exact .inl ⟨limits, hfront.retarget .nil⟩
  · right
    have hpart : run <:+: run ++ [c] := (List.prefix_append _ _).isInfix
    have hplain' : Undelimited run := hplain.of_part hpart
    have hcut : cutLexeme .literal (run ++ []) = (.run run, []) :=
      cutLexeme_run hempty (fun d hd => hrun d (hpart.subset hd)) (by simpa using hplain') trivial
    -- what is left starts alike, so a run in front of it ends there, too
    have hends : ∀ word, Mode.literal.Border word (run ++ [c]) → Mode.literal.Border word run := by
      intro word hborder
      rw [← List.append_nil run]
      refine hborder.of_append hempty fun hstart => ?_
      rw [hplain.startsDelimiter_eq_false] at hstart
      cases hstart
    rw [List.append_nil] at hcut
    refine ⟨.ofList run, limits, (hfront.of_border hends rfl).append ?_⟩
    exact .cons (x := .run run) hcut rfl (by simp) .nil

end IsCut

theorem lineSymbols_concat (l : Line) (item : Item) :
    lineSymbols (l ++ [item]) = lineSymbols l ++ item.symbols := by
  induction l with
  | nil => simp [lineSymbols]
  | cons first l ih => rw [List.cons_append, lineSymbols, lineSymbols, ih, List.append_assoc]

/-- The symbols of a line of items that may share it. -/
def InlineLine (xs : List Symbol) : Prop :=
  ∃ l : Line, (∀ item ∈ l, item.Inline Expr.Canonical) ∧ lineSymbols l = xs

/-- The symbols of a line outside of loops. -/
def OuterLine (xs : List Symbol) : Prop := ∃ l, TopLine Expr.Canonical l ∧ lineSymbols l = xs

theorem InlineLine.outer (h : InlineLine xs) : OuterLine xs := by
  obtain ⟨l, hl, rfl⟩ := h
  exact ⟨l, .inl hl, rfl⟩

theorem InlineLine.trimReturn (hxs : InlineLine xs) (h : IsCut text xs) :
    ∃ ys, InlineLine ys ∧ IsCut (trimReturn text) ys := by
  obtain ⟨l, hl, rfl⟩ := hxs
  by_cases hreturn : text.getLast? = some '\r'
  · obtain ⟨text, rfl⟩ := List.getLast?_eq_some_iff.1 hreturn
    obtain ⟨l, item, rfl⟩ : ∃ front item, l = front ++ [item] := by
      refine (List.eq_nil_or_concat' l).resolve_left ?_
      rintro rfl
      have hnil := h.eq_nil_iff.2 rfl
      simp at hnil
    rw [List.forall_mem_append, List.forall_mem_singleton] at hl
    rw [lineSymbols_concat] at h
    cases item with
    | text content =>
      rw [Stencil.trimReturn, if_pos hreturn, List.dropLast_concat]
      rcases h.of_concat_return (behind_lineSymbols l) with hshort | ⟨content', hshort⟩
      · exact ⟨_, ⟨l, hl.1, rfl⟩, hshort⟩
      · refine ⟨lineSymbols (l ++ [.text content']), ⟨_, ?_, rfl⟩, ?_⟩
        · rw [List.forall_mem_append, List.forall_mem_singleton]
          exact ⟨hl.1, trivial⟩
        · rwa [lineSymbols_concat]
    | block e =>
      have hclosed := h
      rw [Item.symbols, ← List.append_assoc] at hclosed
      refine ⟨_, ⟨l ++ [.block e], ?_, lineSymbols_concat ..⟩, ?_⟩
      · rw [List.forall_mem_append, List.forall_mem_singleton]
        exact hl
      · rwa [hclosed.trimReturn_of_closed]
    | loop binder array body => exact hl.2.elim
  · refine ⟨_, ⟨l, hl, rfl⟩, ?_⟩
    rwa [Stencil.trimReturn, if_neg hreturn]

/-- Symbols of a text that are, once its line ends are joined, others with a property. -/
def JoinsTo (xs : List Symbol) (P : List Symbol → Prop) : Prop :=
  ∀ cs, IsCut cs xs → ∃ ys, P ys ∧ IsCut (joinLineEnds [] cs) ys

namespace JoinsTo

theorem mono (h : JoinsTo xs P) (hPQ : ∀ ys, P ys → Q ys) : JoinsTo xs Q := by
  intro cs hcs
  obtain ⟨ys, hys, hcut⟩ := h cs hcs
  exact ⟨ys, hPQ ys hys, hcut⟩

/-- Nothing changes within a line. -/
theorem line (hxs : ⟨.newline, ""⟩ ∉ xs) : JoinsTo xs (· = xs) := by
  intro cs hcs
  have hplain : '\n' ∉ cs := fun hmem => hxs (hcs.newline_mem_iff.1 hmem)
  refine ⟨xs, rfl, ?_⟩
  rwa [joinLineEnds_of_apart (.of_not_mem hplain)]

/-- What is in front of a line end changes on its own. -/
theorem newline (hys : ⟨.newline, ""⟩ ∉ ys) (hmode : Mode.literal.behind ys = .literal)
    (htrim : ∀ text, IsCut text ys → ∃ ys', P ys' ∧ IsCut (trimReturn text) ys')
    (h : JoinsTo xs Q) :
    JoinsTo (ys ++ ⟨.newline, ""⟩ :: xs) fun zs =>
      ∃ ys' xs', P ys' ∧ Q xs' ∧ zs = ys' ++ ⟨.newline, ""⟩ :: xs' := by
  intro cs hcs
  obtain ⟨text, rest, rfl, htext⟩ :=
    List.eq_append_cons_of_mem (hcs.newline_mem_iff.2 (by simp))
  obtain ⟨hline, hrest⟩ := (IsCut.newline_iff htext hys hmode).1 hcs
  obtain ⟨ys', hys', hline'⟩ := htrim text hline
  obtain ⟨xs', hxs', hrest'⟩ := h rest hrest
  refine ⟨_, ⟨ys', xs', hys', hxs', rfl⟩, ?_⟩
  rw [joinLineEnds_line htext]
  exact hline'.append_newline hrest'

/-- Nothing changes in a line that ends with a block, either. -/
theorem closed (hys : ⟨.newline, ""⟩ ∉ ys) (hmode : Mode.literal.behind ys = .block)
    (h : JoinsTo xs Q) :
    JoinsTo (ys ++ [⟨.closeBlock, ""⟩] ++ ⟨.newline, ""⟩ :: xs) fun zs =>
      ∃ xs', Q xs' ∧ zs = ys ++ [⟨.closeBlock, ""⟩] ++ ⟨.newline, ""⟩ :: xs' := by
  have hsame : ∀ text, IsCut text (ys ++ [⟨.closeBlock, ""⟩]) →
      ∃ ys', ys' = ys ++ [⟨.closeBlock, ""⟩] ∧ IsCut (trimReturn text) ys' := by
    intro text htext
    exact ⟨_, rfl, by rwa [htext.trimReturn_of_closed]⟩
  have hbehind : Mode.literal.behind (ys ++ [⟨.closeBlock, ""⟩]) = .literal := by
    rw [Mode.behind_append, hmode]
    rfl
  refine (newline (by simpa using hys) hbehind hsame h).mono ?_
  rintro zs ⟨_, xs', rfl, hxs', rfl⟩
  exact ⟨xs', hxs', rfl⟩

theorem inline (hys : InlineLine ys) (h : JoinsTo xs Q) :
    JoinsTo (ys ++ ⟨.newline, ""⟩ :: xs) fun zs =>
      ∃ ys' xs', InlineLine ys' ∧ Q xs' ∧ zs = ys' ++ ⟨.newline, ""⟩ :: xs' := by
  have htrim : ∀ text, IsCut text ys → ∃ ys', InlineLine ys' ∧ IsCut (trimReturn text) ys' :=
    fun text => hys.trimReturn
  obtain ⟨l, hl, rfl⟩ := hys
  exact newline (newline_not_mem_lineSymbols hl) (behind_lineSymbols l) htrim h

theorem body {body : List Line} (hbody : ∀ l ∈ body, ∀ item ∈ l, item.Inline Expr.Canonical)
    (h : JoinsTo xs Q) :
    JoinsTo (bodySymbols body ++ xs) fun zs => ∃ body' xs',
      (∀ l ∈ body', ∀ item ∈ l, item.Inline Expr.Canonical) ∧ Q xs' ∧
        zs = bodySymbols body' ++ xs' := by
  induction body with
  | nil => exact h.mono fun zs hzs => ⟨[], zs, by simp, hzs, rfl⟩
  | cons l body ih =>
    rw [List.forall_mem_cons] at hbody
    rw [bodySymbols, List.append_assoc, List.cons_append]
    refine (inline ⟨l, hbody.1, rfl⟩ (ih hbody.2)).mono ?_
    rintro zs ⟨_, _, ⟨l', hl', rfl⟩, ⟨body', xs', hbody', hxs', rfl⟩, rfl⟩
    refine ⟨l' :: body', xs', List.forall_mem_cons.2 ⟨hl', hbody'⟩, hxs', ?_⟩
    rw [bodySymbols, List.append_assoc, List.cons_append]

/-- The line in front of a loop's body stays, and so does the one behind it. -/
theorem loop {binder array : String} {body : List Line}
    (hbody : ∀ l ∈ body, ∀ item ∈ l, item.Inline Expr.Canonical)
    (h : JoinsTo (Parser.endSymbols ++ xs) fun zs => ∃ xs', Q xs' ∧ zs = Parser.endSymbols ++ xs') :
    JoinsTo (lineSymbols [.loop binder array body] ++ xs) fun zs =>
      ∃ ys' xs', OuterLine ys' ∧ Q xs' ∧ zs = ys' ++ xs' := by
  have hsymbols (body : List Line) (xs : List Symbol) :
      lineSymbols [.loop binder array body] ++ xs =
        headSymbols binder array ++ ⟨.newline, ""⟩ ::
          (bodySymbols body ++ (Parser.endSymbols ++ xs)) := by
    rw [lineSymbols_loop]
    simp
  rw [hsymbols, headSymbols]
  refine (closed (by simp) rfl (JoinsTo.body hbody h)).mono ?_
  rintro zs ⟨_, ⟨body', _, hbody', ⟨xs', hxs', rfl⟩, rfl⟩, rfl⟩
  exact ⟨_, xs', ⟨_, .inr ⟨binder, array, body', rfl, hbody'⟩, rfl⟩, hxs', (hsymbols body' xs').symm⟩

theorem lastLine (hys : OuterLine ys) : JoinsTo ys OuterLine := by
  obtain ⟨l, hl | ⟨binder, array, body, rfl, hbody⟩, rfl⟩ := hys
  · refine (line (newline_not_mem_lineSymbols hl)).mono ?_
    rintro zs rfl
    exact ⟨l, .inl hl, rfl⟩
  · have hend : JoinsTo (Parser.endSymbols ++ []) fun zs =>
        ∃ xs', xs' = [] ∧ zs = Parser.endSymbols ++ xs' :=
      (line (by simp [Parser.endSymbols])).mono fun zs hzs => ⟨[], rfl, hzs⟩
    rw [← List.append_nil (lineSymbols _)]
    refine (loop hbody hend).mono ?_
    rintro zs ⟨ys', _, hys', rfl, rfl⟩
    rwa [List.append_nil]

theorem nextLine (hys : OuterLine ys) (h : JoinsTo xs Q) :
    JoinsTo (ys ++ ⟨.newline, ""⟩ :: xs) fun zs =>
      ∃ ys' xs', OuterLine ys' ∧ Q xs' ∧ zs = ys' ++ ⟨.newline, ""⟩ :: xs' := by
  obtain ⟨l, hl | ⟨binder, array, body, rfl, hbody⟩, rfl⟩ := hys
  · refine (inline ⟨l, hl, rfl⟩ h).mono ?_
    rintro zs ⟨ys', xs', hys', hxs', rfl⟩
    exact ⟨ys', xs', hys'.outer, hxs', rfl⟩
  · have hclosed : JoinsTo ([⟨.openBlock, ""⟩, ⟨.endforeachWord, ""⟩] ++ [⟨.closeBlock, ""⟩] ++
        ⟨.newline, ""⟩ :: xs) _ := closed (by simp) rfl h
    have hend : JoinsTo (Parser.endSymbols ++ ⟨.newline, ""⟩ :: xs) fun zs => ∃ xs',
        (∃ more, Q more ∧ xs' = ⟨.newline, ""⟩ :: more) ∧ zs = Parser.endSymbols ++ xs' := by
      refine hclosed.mono ?_
      rintro zs ⟨more, hmore, rfl⟩
      exact ⟨_, ⟨more, hmore, rfl⟩, rfl⟩
    refine (loop hbody hend).mono ?_
    rintro zs ⟨ys', _, hys', ⟨more, hmore, rfl⟩, rfl⟩
    exact ⟨ys', more, hys', hmore, rfl⟩

end JoinsTo

/-- The symbols of a template, but for the end of the text. -/
inductive Whole : List Symbol → Prop
  | line {xs : List Symbol} (hxs : OuterLine xs) : Whole xs
  | cons {xs ys : List Symbol} (hxs : OuterLine xs) (h : Whole ys) :
      Whole (xs ++ ⟨.newline, ""⟩ :: ys)

namespace Whole

theorem joinsTo (h : Whole xs) : JoinsTo xs Whole := by
  induction h with
  | line hxs => exact (JoinsTo.lastLine hxs).mono fun _ => .line
  | cons hxs _ ih =>
    refine (JoinsTo.nextLine hxs ih).mono ?_
    rintro zs ⟨ys', xs', hys', hxs', rfl⟩
    exact .cons hys' hxs'

theorem exists_lines (h : Whole xs) : ∃ lines, lines ≠ [] ∧
    (∀ l ∈ lines, TopLine Expr.Canonical l) ∧ linesSymbols lines = xs ++ [⟨.endOfFile, ""⟩] := by
  induction h with
  | line hxs =>
    obtain ⟨l, hl, rfl⟩ := hxs
    exact ⟨[l], by simp, by simpa using hl, rfl⟩
  | cons hxs _ ih =>
    obtain ⟨l, hl, rfl⟩ := hxs
    obtain ⟨lines, hne, hlines, hsymbols⟩ := ih
    refine ⟨l :: lines, by simp, List.forall_mem_cons.2 ⟨hl, hlines⟩, ?_⟩
    rw [linesSymbols_cons hne, hsymbols, List.append_assoc, List.cons_append]

theorem exists_canonical (h : Whole xs) :
    ∃ d : Document, d.Canonical ∧ d.symbols = xs ++ [⟨.endOfFile, ""⟩] := by
  obtain ⟨lines, -, hlines, hsymbols⟩ := h.exists_lines
  by_cases hempty : lines = [[]]
  · -- a single empty line is the template without lines
    subst hempty
    exact ⟨⟨[]⟩, ⟨by simp, by simp⟩, hsymbols⟩
  · exact ⟨⟨lines⟩, ⟨hempty, hlines⟩, hsymbols⟩

/-- A text that is cut into the symbols of a template is one, although reading it joins its line
ends. -/
theorem exists_isTemplate (h : Whole xs) (hcs : IsCut cs xs) : ∃ d, IsTemplate (.ofList cs) d := by
  obtain ⟨ys, hys, hcut⟩ := h.joinsTo cs hcs
  obtain ⟨d, hd, hsymbols⟩ := hys.exists_canonical
  refine ⟨d, isTemplate_iff.2 ⟨hd, ys, hsymbols, ?_⟩⟩
  rwa [String.toList_ofList]

end Whole

end Stencil
