import Stencil.Proofs.Limits
import Stencil.Proofs.Parse.Cuts
import Stencil.Render.Basic

/-! Literal text around blocks. Whatever stands between the blocks of a source stands unchanged
between their values in the filled template. -/
namespace Stencil

/-- A block with the text behind it: what stands between the braces, and what it is read as. -/
structure Segment where
  inner : String
  expr : Expr
  after : String

/-- The source in which a first text and segments stand one behind the other. -/
def assembled (first : String) : List Segment → String
  | [] => first
  | p :: parts => first ++ ("\x7b\x7b" ++ p.inner ++ "\x7d\x7d" ++ assembled p.after parts)

/-- The same with values in the place of the blocks. -/
def filled (first : String) : List Segment → List Value → String
  | p :: parts, v :: values => first ++ (v.text ++ filled p.after parts values)
  | _, _ => first

/-- Lines of text without a delimiter. -/
structure IsLiteral (content : String) : Prop where
  printable : ∀ c ∈ content.toList, isGraphic c = true ∨ isSpace c = true ∨ c = '\n'
  undelimited : Undelimited content.toList

theorem IsLiteral.continues {content : String} (h : IsLiteral content) :
    ∀ c ∈ content.toList, Mode.literal.continues c = true ∨ c = '\n' := by
  intro c hc
  simpa [Mode.continues, or_assoc] using h.printable c hc

/-- Text around blocks that cannot be taken for a part of them, and blocks that are read on their
own. -/
structure Assembly (first : String) (parts : List Segment) : Prop where
  literal : ∀ content ∈ first :: parts.map Segment.after, IsLiteral content
  unopened : ∀ content ∈ (first :: parts.map Segment.after).dropLast,
    content.toList.getLast? ≠ some '{'
  apart : Apart '\r' '\n' (assembled first parts).toList
  reads : ∀ p ∈ parts, ∃ limits,
    parse limits ("\x7b\x7b" ++ p.inner ++ "\x7d\x7d") = .ok ⟨[[.block p.expr]]⟩

theorem Assembly.tail {first : String} {p : Segment} {parts : List Segment}
    (h : Assembly first (p :: parts)) : Assembly p.after parts where
  literal := fun content hcontent => h.literal content (List.mem_cons_of_mem _ hcontent)
  unopened := fun content hcontent => h.unopened content (List.mem_cons_of_mem _ hcontent)
  apart := h.apart.of_part ⟨(first ++ ("\x7b\x7b" ++ p.inner ++ "\x7d\x7d")).toList, [], by
    simp [assembled]⟩
  reads := fun q hq => h.reads q (List.mem_cons_of_mem _ hq)

open Limits

/-- A text that is read as some lines, in all limits that are large enough, and how they are filled
behind the text `done`. -/
structure ReadAs (cs : List Char) (fill : Scope → String → Except EvalError String) (l : Line)
    (lines : List Line) : Prop where
  symbols : ∃ xs, linesSymbols (l :: lines) = xs ++ [⟨.endOfFile, ""⟩] ∧
    Ample fun limits => Reads limits .literal cs xs .literal []
  inline : ∀ line ∈ l :: lines, ∀ item ∈ line, item.Inline Expr.Canonical
  render : ∀ scope done, (do renderRest scope (← renderLine scope done l) lines) = fill scope done

namespace ReadAs

variable {cs : List Char} {fill fill' : Scope → String → Except EvalError String} {l : Line}
  {lines : List Line}

theorem congr (h : ReadAs cs fill l lines)
    (hfill : ∀ scope done, fill scope done = fill' scope done) : ReadAs cs fill' l lines :=
  ⟨h.symbols, h.inline, fun scope done => (h.render scope done).trans (hfill scope done)⟩

theorem nil : ReadAs [] (fun _ done => .ok done) [] [] :=
  ⟨⟨[], rfl, .of_forall fun _ => .nil⟩, by simp, fun _ _ => rfl⟩

theorem newline (h : ReadAs cs fill l lines) :
    ReadAs ('\n' :: cs) (fun scope done => fill scope (done ++ "\n")) [] (l :: lines) := by
  obtain ⟨xs, hsymbols, hreads⟩ := h.symbols
  refine ⟨⟨⟨.newline, ""⟩ :: xs, ?_, ?_⟩, ?_, fun scope done => ?_⟩
  · rw [linesSymbols_cons (List.cons_ne_nil _ _), hsymbols]
    rfl
  · exact hreads.imp fun limits hread => Reads.newline.trans hread
  · exact List.forall_mem_cons.2 ⟨by simp, h.inline⟩
  · rw [← h.render]
    rfl

/-- An item in front of the first line. -/
theorem cons (item : Item) {front : List Char} (h : ReadAs cs fill l lines)
    (hitem : item.Inline Expr.Canonical)
    (hreads : Ample fun limits => Reads limits .literal (front ++ cs) item.symbols .literal cs) :
    ReadAs (front ++ cs) (fun scope done => do fill scope (← item.render scope done)) (item :: l)
      lines := by
  obtain ⟨xs, hsymbols, hrest⟩ := h.symbols
  refine ⟨⟨item.symbols ++ xs, ?_, ?_⟩, ?_, fun scope done => ?_⟩
  · rw [linesSymbols_cons_item, hsymbols, List.append_assoc]
  · exact (hreads.and hrest).imp fun limits hread => hread.1.trans hread.2
  · have hinline := List.forall_mem_cons.1 h.inline
    exact List.forall_mem_cons.2 ⟨List.forall_mem_cons.2 ⟨hitem, hinline.1⟩, hinline.2⟩
  · rw [renderLine, bind_assoc]
    exact congrArg _ (funext fun done' => h.render scope done')

/-- Text within one line, which may be empty. -/
theorem run {word : List Char} (h : ReadAs cs fill l lines)
    (hword : ∀ c ∈ word, Mode.literal.continues c = true) (hplain : Undelimited word)
    (hend : EndsBefore word cs) :
    ∃ l', ReadAs (word ++ cs) (fun scope done => fill scope (done ++ .ofList word)) l' lines := by
  by_cases hne : word = []
  · subst hne
    exact ⟨l, h.congr fun scope done => by rw [String.ofList_nil, String.append_empty]⟩
  · exact ⟨_, h.cons (.text (.ofList word)) trivial
      (.of_forall fun limits => Reads.literal hne hword hplain hend)⟩

/-- Text of any number of lines, of which `word` is the beginning of the first. -/
theorem literal (word : List Char) {text : List Char} (h : ReadAs cs fill l lines)
    (hword : ∀ c ∈ word, Mode.literal.continues c = true)
    (htext : ∀ c ∈ text, Mode.literal.continues c = true ∨ c = '\n')
    (hplain : Undelimited (word ++ text)) (hend : EndsBefore (word ++ text) cs) :
    ∃ l' lines', ReadAs (word ++ text ++ cs)
      (fun scope done => fill scope (done ++ .ofList (word ++ text))) l' lines' := by
  -- a run is cut only where it ends, so the induction on the text collects it in `word`
  induction text generalizing word with
  | nil =>
    rw [List.append_nil] at hplain hend ⊢
    obtain ⟨l', hrun⟩ := h.run hword hplain hend
    exact ⟨l', lines, hrun⟩
  | cons c text ih =>
    rw [List.forall_mem_cons] at htext
    by_cases hline : c = '\n'
    · subst hline
      have hsplit : word ++ '\n' :: text = word ++ ['\n'] ++ text := by simp
      obtain ⟨l', lines', hrest⟩ := ih [] (by simp) htext.2
        (hplain.of_part ⟨word ++ ['\n'], [], by simp⟩) (.of_append (hsplit ▸ hend))
      obtain ⟨l'', hrun⟩ := hrest.newline.run hword
        (hplain.of_part (List.prefix_append _ _).isInfix) .newline
      refine ⟨l'', l' :: lines', ?_⟩
      rw [List.append_assoc, List.cons_append]
      refine hrun.congr fun scope done => congrArg _ ?_
      rw [← String.toList_inj]
      simp
    · have hc := htext.1.resolve_right hline
      have hsplit : word ++ c :: text = word ++ [c] ++ text := by simp
      rw [hsplit] at hplain hend ⊢
      refine ih (word ++ [c]) ?_ htext.2 hplain hend
      rw [List.forall_mem_append]
      exact ⟨hword, by simpa using hc⟩

/-- The same for a whole text. -/
theorem literal_of {content : String} (h : ReadAs cs fill l lines) (hcontent : IsLiteral content)
    (hend : EndsBefore content.toList cs) :
    ∃ l' lines', ReadAs (content.toList ++ cs) (fun scope done => fill scope (done ++ content)) l'
      lines' := by
  have hread := h.literal [] (by simp) hcontent.continues hcontent.undelimited hend
  rwa [List.nil_append, String.ofList_toList] at hread

end ReadAs

/-- A source that is read as one block is cut into it wherever it stands. -/
theorem reads_of_parse {limits : Limits} {source : String} {e : Expr}
    (h : parse limits source = .ok ⟨[[.block e]]⟩) (hjoined : Apart '\r' '\n' source.toList) :
    e.Canonical ∧ ∀ limits', limits ≤ limits' → ∀ more,
      Reads limits' .literal (source.toList ++ more) (Item.block e).symbols .literal more := by
  obtain ⟨hd, xs, hsymbols, hcuts⟩ := cuts_of_parse h
  have hcanonical : e.Canonical := hd.exprs e (by
    simp [Document.exprs, linesExprs, lineExprs, Item.exprs])
  have hblock : xs = ⟨.openBlock, ""⟩ :: e.symbols ++ [⟨.closeBlock, ""⟩] := by
    rw [Document.symbols, linesSymbols, lineSymbols, lineSymbols, List.append_nil] at hsymbols
    exact (List.append_inj_left' hsymbols rfl).symm
  rw [joinLineEnds_of_apart hjoined, hblock] at hcuts
  refine ⟨hcanonical, fun limits' hle more => ?_⟩
  exact ((hcuts.closed more).mono (hle .identifierLength)).reads

/-- The value of a block in front of those of the others. -/
theorem render_block_filled (scope : Scope) (done first : String) (p : Segment)
    (parts : List Segment) :
    (do
      let done' ← Item.render scope (done ++ first) (.block p.expr)
      (fun values => done' ++ filled p.after parts values) <$>
        parts.mapM fun p => p.expr.eval scope) =
    (fun values => done ++ filled first (p :: parts) values) <$>
      (p :: parts).mapM fun p => p.expr.eval scope := by
  rw [Item.render, List.mapM_cons]
  cases p.expr.eval scope with
  | error e => rfl
  | ok v =>
    cases parts.mapM fun p => p.expr.eval scope with
    | error e => rfl
    | ok values =>
      have htext : done ++ first ++ v.text ++ filled p.after parts values =
          done ++ filled first (p :: parts) (v :: values) := by
        rw [filled, String.append_assoc, String.append_assoc]
      exact congrArg Except.ok htext

/-- Segments one behind the other, and how they are filled. -/
theorem Assembly.readAs {parts : List Segment} : ∀ {first : String}, Assembly first parts →
    ∃ l lines, ReadAs (assembled first parts).toList (fun scope done =>
      (fun values => done ++ filled first parts values) <$>
        parts.mapM fun p => p.expr.eval scope) l lines := by
  induction parts with
  | nil =>
    intro first h
    have hfirst := h.literal first (by simp)
    obtain ⟨l, lines, hread⟩ := ReadAs.nil.literal_of hfirst .nil
    refine ⟨l, lines, ?_⟩
    rw [List.append_nil] at hread
    exact hread
  | cons p parts ih =>
    intro first h
    obtain ⟨l, lines, hrest⟩ := ih h.tail
    obtain ⟨limits, hparse⟩ := h.reads p (by simp)
    have happart : Apart '\r' '\n' ("\x7b\x7b" ++ p.inner ++ "\x7d\x7d").toList :=
      h.apart.of_part ⟨first.toList, (assembled p.after parts).toList, by simp [assembled]⟩
    obtain ⟨hcanonical, hreads⟩ := reads_of_parse hparse happart
    have hblock := hrest.cons (.block p.expr) hcanonical
      ⟨limits, fun limits' hle => hreads limits' hle (assembled p.after parts).toList⟩
    have hend : EndsBefore first.toList
        (("\x7b\x7b" ++ p.inner ++ "\x7d\x7d").toList ++ (assembled p.after parts).toList) := by
      rw [String.append_assoc, String.toList_append]
      exact .openBlock (h.unopened first (by simp))
    obtain ⟨l', lines', hread⟩ := hblock.literal_of (h.literal first (by simp)) hend
    refine ⟨l', lines', ?_⟩
    rw [assembled, String.toList_append, String.toList_append]
    exact hread.congr fun scope done => render_block_filled scope done first p parts

/-- A source assembled from text and blocks is a template, and is filled with the text as it is and
the values of the blocks in between. -/
theorem render_assembled {first : String} {parts : List Segment} (h : Assembly first parts) :
    ∃ d : Document, (Ample fun limits => parse limits (assembled first parts) = .ok d) ∧
      ∀ context, d.render context =
        filled first parts <$> parts.mapM fun p => p.expr.eval (.root context) := by
  obtain ⟨l, lines, hread⟩ := h.readAs
  obtain ⟨xs, hsymbols, hreads⟩ := hread.symbols
  -- a source without any character has no line, and not one that is empty
  obtain ⟨d, hne, hd, hinline, hrender⟩ : ∃ d : Document, d.lines ≠ [[]] ∧
      d.symbols = xs ++ [⟨.endOfFile, ""⟩] ∧
      (∀ line ∈ d.lines, ∀ item ∈ line, item.Inline Expr.Canonical) ∧
      ∀ scope, renderLines scope d.lines =
        (do renderRest scope (← renderLine scope "" l) lines) := by
    by_cases hempty : l :: lines = [[]]
    · obtain ⟨rfl, rfl⟩ := List.cons.inj hempty
      exact ⟨⟨[]⟩, by simp, hsymbols, by simp, fun _ => rfl⟩
    · exact ⟨⟨l :: lines⟩, hempty, hsymbols, hread.inline, fun _ => rfl⟩
  have hcanonical : d.Canonical := ⟨hne, fun line hline => .inl (hinline line hline)⟩
  refine ⟨d, ?_, fun context => ?_⟩
  · let least : Limits := {
      inputSize := (assembled first parts).utf8ByteSize
      tokenCount := xs.length + 1
      expressionDepth := Expr.argumentNeed d.exprs + 1 }
    refine ((Ample.le least).and hreads).imp fun limits hlimits => ?_
    obtain ⟨tokens, htokens, htokenSymbols⟩ := tokensAhead_of_reads (hlimits.1 .inputSize) h.apart
      hlimits.2 (hlimits.1 .tokenCount)
    exact parse_ok_iff_within.2 ⟨tokens, htokens,
      hcanonical.within_of_need (hlimits.1 .expressionDepth), hd.trans htokenSymbols.symm⟩
  · rw [Document.render, hrender, hread.render]
    simp only [String.empty_append]

/-- Two blocks in text of three lines, with single braces next to the doubled ones. -/
def braceSegments : List Segment :=
  [⟨"x", .slot "x", "\x7d\n\x7b "⟩,
    ⟨" y * 2 ", .binary .multiply (.slot "y") (.number (.int 2)), " \x7b"⟩]

def braceContext : Context where
  bindings := [("x", .string "?"), ("y", .number (.int 5))]

theorem braceSegments_render :
    Assembly "a\x7d\n\n" braceSegments ∧
      assembled "a\x7d\n\n" braceSegments =
        "a\x7d\n\n\x7b\x7bx\x7d\x7d\x7d\n\x7b \x7b\x7b y * 2 \x7d\x7d \x7b" ∧
      ∃ d : Document,
        (Ample fun limits => parse limits (assembled "a\x7d\n\n" braceSegments) = .ok d) ∧
          d.render braceContext = .ok "a\x7d\n\n?\x7d\n\x7b 10 \x7b" := by
  have hassembly : Assembly "a\x7d\n\n" braceSegments := by
    refine ⟨?_, ?_, ?_, ?_⟩
    · simp only [braceSegments, List.map_cons, List.map_nil, List.forall_mem_cons]
      refine ⟨?_, ?_, ?_, by simp⟩
      all_goals exact ⟨forall_mem_of_all (by decide), by decide⟩
    · decide
    · decide
    · simp only [braceSegments, List.forall_mem_cons]
      exact ⟨⟨{}, by with_unfolding_all rfl⟩, ⟨{}, by with_unfolding_all rfl⟩, by simp⟩
  obtain ⟨d, hparse, hrender⟩ := render_assembled hassembly
  refine ⟨hassembly, by decide, d, hparse, ?_⟩
  rw [hrender]
  with_unfolding_all rfl

end Stencil
