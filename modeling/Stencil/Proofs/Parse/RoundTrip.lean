import Stencil.Proofs.Document.Words
import Stencil.Proofs.Parse.Grammar

/-! Templates that were written out are read back: what each part of the text is cut into, and from
it that parsing gives the tree again. -/
namespace Stencil

/-- The words are cut as the symbols, one by one. -/
def Spelled (limits : Limits) (words : List String) (xs : List Symbol) : Prop :=
  List.Forall₂ (fun word => Spells limits word.toList) words xs

/-- What may stand behind the text of a line: nothing, or the line end. -/
def AtLineEnd (rest : List Char) : Prop := rest = [] ∨ ∃ more, rest = '\n' :: more

/-- A text that is cut as the symbols if its last line ends behind it. -/
structure LineText (limits : Limits) (text : String) (xs : List Symbol) : Prop where
  reads : ∀ ⦃rest⦄, AtLineEnd rest → Reads limits .literal (text.toList ++ rest) xs .literal rest
  apart : Apart '\r' '\n' text.toList
  last : text.toList.getLast? ≠ some '\r'

variable {limits : Limits} {words words' : List String} {xs ys : List Symbol}

namespace Spelled

theorem append (h : Spelled limits words xs) (h' : Spelled limits words' ys) :
    Spelled limits (words ++ words') (xs ++ ys) :=
  List.rel_append h h'

theorem cons {word : String} {x : Symbol} (h : Spells limits word.toList x)
    (h' : Spelled limits words xs) : Spelled limits (word :: words) (x :: xs) :=
  List.Forall₂.cons h h'

theorem nil : Spelled limits [] [] := List.Forall₂.nil

theorem singleton {word : String} {x : Symbol} (h : Spells limits word.toList x) :
    Spelled limits [word] [x] :=
  cons h nil

end Spelled

namespace Expr

theorem words_ne_nil : (e : Expr) → e.words ≠ []
  | slot _ | number _ | group _ | call _ _ => List.cons_ne_nil _ _
  | binary op lhs rhs => by simp [words]

mutual

theorem spelled : (e : Expr) → e.Writable →
    (∀ name ∈ e.names, name.length ≤ limits.identifierLength) → Spelled limits e.words e.symbols
  | slot name, he, hnames => .singleton (he.spells (hnames name (List.mem_cons_self ..)))
  | number value, he, _ => by
    obtain ⟨n, rfl, hn⟩ := he
    exact .singleton (integer_spells hn)
  | group inner, he, hnames =>
    .cons .leftParen ((spelled inner he hnames).append (.singleton .rightParen))
  | binary op lhs rhs, he, hnames => by
    simp only [names, List.forall_mem_append] at hnames
    exact (spelled lhs he.1 hnames.1).append (.cons op.spells (spelled rhs he.2 hnames.2))
  | call f args, he, hnames => by
    simp only [names, List.forall_mem_cons] at hnames
    exact .cons (f.name_isName.spells hnames.1)
      (.cons .leftParen ((arguments_spelled args he hnames.2).append (.singleton .rightParen)))

theorem arguments_spelled : (args : List Expr) → AllWritable args →
    (∀ name ∈ argumentNames args, name.length ≤ limits.identifierLength) →
    Spelled limits (argumentWords args) (argumentSymbols args)
  | [], _, _ => .nil
  | arg :: args, h, hnames => by
    simp only [argumentNames, List.forall_mem_append] at hnames
    refine (spelled arg h.1 hnames.1).append ?_
    split
    · exact .nil
    · exact .cons .comma (arguments_spelled args h.2 hnames.2)

end

end Expr

theorem flatMap_blank_cons {parts : List (List Char)} (h : parts ≠ []) :
    parts.flatMap (' ' :: ·) = ' ' :: [' '].intercalate parts := by
  induction parts with
  | nil => contradiction
  | cons part parts ih =>
    cases parts with
    | nil => simp
    | cons next parts =>
      rw [List.flatMap_cons, ih (List.cons_ne_nil _ _),
        List.intercalate_cons_of_ne_nil (List.cons_ne_nil _ _)]
      simp

theorem toList_blockText (h : words ≠ []) :
    (blockText words).toList = blockChars (words.map String.toList) := by
  have hparts : words.map String.toList ≠ [] := by simpa using h
  rw [blockText, String.toList_append, String.toList_append, String.toList_intercalate, blockChars,
    flatMap_blank_cons hparts]
  rfl

theorem getLast?_append_ne {cs ds : List Char} {c : Char} (hcs : cs.getLast? ≠ some c)
    (hds : ds.getLast? ≠ some c) : (cs ++ ds).getLast? ≠ some c := by
  rw [List.getLast?_append]
  cases hend : ds.getLast? with
  | none => simpa using hcs
  | some d =>
    rw [hend] at hds
    exact hds

namespace IsText

variable {content : String}

theorem continues (h : IsText content) :
    ∀ c ∈ content.toList, Mode.literal.continues c = true := by
  intro c hc
  simpa [Mode.continues] using h.printable c hc

theorem newline_not_mem (h : IsText content) : '\n' ∉ content.toList := by
  intro hmem
  cases h.continues '\n' hmem

theorem reads {rest : List Char} (h : IsText content) (hrest : EndsBefore content.toList rest) :
    Reads limits .literal (content.toList ++ rest) [⟨.text, content⟩] .literal rest := by
  have hread : Reads limits .literal (content.toList ++ rest) [⟨.text, .ofList content.toList⟩]
      .literal rest :=
    .literal (by simpa using h.ne_empty) h.continues h.undelimited hrest
  rwa [String.ofList_toList] at hread

end IsText

namespace LineText

variable {content text text' : String}

theorem empty : LineText limits "" [] :=
  ⟨fun _ _ => .nil, .of_not_mem (by simp), by simp⟩

/-- A block in front of what is left of its line. -/
theorem cons_block (h : Spelled limits words xs) (hne : words ≠ [])
    (h' : LineText limits text ys) :
    LineText limits (blockText words ++ text)
      (⟨.openBlock, ""⟩ :: xs ++ [⟨.closeBlock, ""⟩] ++ ys) := by
  have hcut : List.Forall₂ (Spells limits) (words.map String.toList) xs :=
    List.forall₂_map_left_iff.2 h
  have hword : ∀ word ∈ words.map String.toList, '\n' ∉ word :=
    ((List.forall₂_and_left _ _).1 (hcut.imp fun _ _ hspells =>
      ⟨hspells.newline_not_mem, hspells⟩)).1
  have hlast := getLast?_blockChars (words.map String.toList)
  refine ⟨fun rest hrest => ?_, ?_, ?_⟩
  · rw [String.toList_append, toList_blockText hne, List.append_assoc]
    exact (Reads.block hcut).trans (h'.reads hrest)
  · rw [String.toList_append, toList_blockText hne, Apart.append_iff, hlast]
    exact ⟨.of_not_mem (not_mem_blockChars (by simp) hword), h'.apart, by simp⟩
  · rw [String.toList_append, toList_blockText hne]
    exact getLast?_append_ne (by simp [hlast]) h'.last

theorem block (h : Spelled limits words xs) (hne : words ≠ []) :
    LineText limits (blockText words) (⟨.openBlock, ""⟩ :: xs ++ [⟨.closeBlock, ""⟩]) := by
  have hline := cons_block h hne empty
  rwa [String.append_empty, List.append_nil] at hline

theorem of_text (hcontent : IsText content) (hlast : content.toList.getLast? ≠ some '\r') :
    LineText limits content [⟨.text, content⟩] := by
  refine ⟨fun rest hrest => ?_, .of_not_mem hcontent.newline_not_mem, hlast⟩
  rcases hrest with rfl | ⟨more, rfl⟩
  · exact hcontent.reads .nil
  · exact hcontent.reads .newline

/-- Literal text in front of a block and what is left of its line. -/
theorem cons_text (hcontent : IsText content) (hlast : content.toList.getLast? ≠ some '{')
    (h : LineText limits (blockText words ++ text) xs) :
    LineText limits (content ++ (blockText words ++ text)) (⟨.text, content⟩ :: xs) := by
  obtain ⟨more, hmore⟩ : ∃ more, (blockText words ++ text).toList = '{' :: '{' :: more :=
    ⟨(" " ++ " ".intercalate words ++ " \x7d\x7d" ++ text).toList, by simp [blockText]⟩
  refine ⟨fun rest hrest => ?_, ?_, ?_⟩
  · have hread := h.reads hrest
    rw [hmore] at hread
    rw [String.toList_append, List.append_assoc, hmore]
    exact (hcontent.reads (.openBlock hlast)).trans hread
  · rw [String.toList_append, Apart.append_iff]
    exact ⟨.of_not_mem hcontent.newline_not_mem, h.apart, by simp [hmore]⟩
  · rw [String.toList_append, List.getLast?_append_of_ne_nil _ (by simp [hmore])]
    exact h.last

/-- Lines behind one another, with a line end between them. -/
theorem append (h : LineText limits text xs) (h' : LineText limits text' ys) :
    LineText limits (text ++ "\n" ++ text') (xs ++ ⟨.newline, ""⟩ :: ys) := by
  have htext : (text ++ "\n" ++ text').toList = text.toList ++ '\n' :: text'.toList := by
    simp
  refine ⟨fun rest hrest => ?_, ?_, ?_⟩
  · rw [htext, List.append_assoc]
    exact (h.reads (.inr ⟨_, rfl⟩)).trans (Reads.newline.trans (h'.reads hrest))
  · rw [htext, Apart.append_iff, Apart.cons_iff]
    exact ⟨h.apart, ⟨by simp, h'.apart⟩, fun hend => h.last hend.1⟩
  · rw [htext, ← List.singleton_append, ← List.append_assoc]
    exact getLast?_append_ne (by simp) h'.last

end LineText

theorem InlineWritable.lineText : (l : Line) → InlineWritable l →
    (∀ name ∈ lineNames l, name.length ≤ limits.identifierLength) →
    LineText limits (printLine l) (lineSymbols l)
  | [], _, _ => .empty
  | [.text content], h, _ => by
    have htext : printLine [.text content] = content := String.append_empty
    rw [htext]
    exact .of_text h.1 h.2.1
  -- where a run of text ends shows in the block behind it, so both are looked at together
  | .text content :: .block e :: items, h, hnames =>
    .cons_text h.1 h.2.1 (lineText (.block e :: items) h.2.2 hnames)
  | .block e :: items, h, hnames => by
    simp only [lineNames, Item.names, List.forall_mem_append] at hnames
    exact .cons_block (e.spelled h.2.1 hnames.1) e.words_ne_nil (lineText items h.2.2 hnames.2)
  | .text _ :: .text _ :: _, h, _ => h.2.1.elim
  | .text _ :: .loop _ _ _ :: _, h, _ => h.2.1.elim
  | .loop _ _ _ :: _, h, _ => h.elim

/-- The lines inside a loop, and the text behind them. -/
theorem LineText.body {body : List Line} {text : String}
    (hbody : ∀ l ∈ body, LineText limits (printLine l) (lineSymbols l))
    (h : LineText limits text ys) :
    LineText limits (printBody body ++ text) (bodySymbols body ++ ys) := by
  induction body with
  | nil =>
    rw [printBody, String.empty_append]
    exact h
  | cons l body ih =>
    rw [List.forall_mem_cons] at hbody
    have hline := hbody.1.append (ih hbody.2)
    rw [String.append_assoc] at hline
    rw [printBody, bodySymbols, List.append_assoc, String.append_assoc, String.append_assoc]
    exact hline

theorem LineWritable.lineText {l : Line} (h : LineWritable l)
    (hnames : ∀ name ∈ lineNames l, name.length ≤ limits.identifierLength) :
    LineText limits (printLine l) (lineSymbols l) := by
  rcases h with h | ⟨binder, array, body, rfl, hbinder, harray, hbody⟩
  · exact h.lineText l hnames
  · simp only [lineNames, Item.names, List.append_nil, List.forall_mem_cons] at hnames
    obtain ⟨hb, ha, hnames⟩ := hnames
    have hhead : Spelled limits ["foreach", binder, "in", array]
        [⟨.foreachWord, ""⟩, ⟨.text, binder⟩, ⟨.inWord, ""⟩, ⟨.text, array⟩] :=
      .cons .foreachWord (.cons (hbinder.spells hb) (.cons .inWord (.singleton (harray.spells ha))))
    have hfoot : Spelled limits ["endforeach"] [⟨.endforeachWord, ""⟩] :=
      .singleton .endforeachWord
    have hlines : ∀ l ∈ body, LineText limits (printLine l) (lineSymbols l) := fun l hl =>
      (hbody l hl).lineText l fun name hname => hnames name (mem_linesNames.2 ⟨l, hl, hname⟩)
    have hloop := (LineText.block hhead (by simp)).append (.body hlines (.block hfoot (by simp)))
    have htext : printLine [.loop binder array body] = blockText ["foreach", binder, "in", array] ++
        "\n" ++ (printBody body ++ blockText ["endforeach"]) := by
      rw [printLine, printLine, String.append_empty, Item.print, String.append_assoc]
    rw [htext]
    simpa [lineSymbols, Item.symbols] using hloop

/-- Lines joined by line ends, and the end of the text behind them. -/
theorem lineText_intercalate {lines : List Line}
    (h : ∀ l ∈ lines, LineText limits (printLine l) (lineSymbols l)) :
    ∃ xs, linesSymbols lines = xs ++ [⟨.endOfFile, ""⟩] ∧
      LineText limits ("\n".intercalate (lines.map printLine)) xs := by
  induction lines with
  | nil => exact ⟨[], rfl, .empty⟩
  | cons l lines ih =>
    rw [List.forall_mem_cons] at h
    by_cases hnil : lines = []
    · subst hnil
      exact ⟨lineSymbols l, rfl, by simpa using h.1⟩
    · obtain ⟨xs, hsymbols, htext⟩ := ih h.2
      refine ⟨lineSymbols l ++ ⟨.newline, ""⟩ :: xs, ?_, ?_⟩
      · rw [linesSymbols_cons hnil, hsymbols, List.append_assoc, List.cons_append]
      · rw [List.map_cons, String.intercalate_cons_of_ne_nil (by simpa using hnil)]
        exact h.1.append htext

/-- A template that was written out is read back, within limits that allow what it costs. -/
theorem parse_print {d : Document} (hd : d.Writable) {limits : Limits} (h : d.cost ≤ limits) :
    parse limits d.print = .ok d := by
  have hsize : d.print.utf8ByteSize ≤ limits.inputSize := h .inputSize
  have hcount : d.symbols.length ≤ limits.tokenCount := h .tokenCount
  have hlength : longest d.names ≤ limits.identifierLength := h .identifierLength
  have hdepth : Expr.argumentNeed d.exprs + 1 ≤ limits.expressionDepth := h .expressionDepth
  have hlines : ∀ l ∈ d.lines, LineText limits (printLine l) (lineSymbols l) := by
    intro l hl
    refine (hd.2 l hl).lineText fun name hname => ?_
    exact Nat.le_trans (length_le_longest (mem_linesNames.2 ⟨l, hl, hname⟩)) hlength
  obtain ⟨xs, hsymbols, htext⟩ := lineText_intercalate hlines
  have hreads := htext.reads (.inl rfl)
  rw [List.append_nil] at hreads
  rw [Document.symbols, hsymbols, List.length_append, List.length_singleton] at hcount
  obtain ⟨tokens, htokens, htokenSymbols⟩ := tokensAhead_of_reads hsize htext.apart hreads hcount
  exact parse_ok_iff_within.2
    ⟨tokens, htokens, hd.canonical.within_of_need hdepth, hsymbols.trans htokenSymbols.symm⟩

/-- Single braces in text and in a name, a sum below a product, a call, and a loop over an empty
line. -/
def braceTemplate : Document :=
  ⟨[[.text "a \x7d b ", .block (.binary .multiply (.group (.binary .add (.slot "x\x7b")
      (.number (.int 1)))) (.call .minimum [.slot "y", .number (.int 2)])), .text "\x7d c"],
    [.loop "x" "xs" [[.block (.slot "x")], []]], []]⟩

def braceSource : String :=
  "a \x7d b \x7b\x7b ( x\x7b + 1 ) * Minimum ( y , 2 ) \x7d\x7d\x7d c\n" ++
    "\x7b\x7b foreach x in xs \x7d\x7d\n\x7b\x7b x \x7d\x7d\n\n\x7b\x7b endforeach \x7d\x7d\n"

theorem braceTemplate_parse_print :
    braceTemplate.Writable ∧ braceTemplate.cost ≤ {} ∧ braceTemplate.print = braceSource ∧
      parse {} braceTemplate.print = .ok braceTemplate := by
  have hname : ∀ name ∈ ["x\x7b", "y", "x", "xs"], IsName name := by
    simp only [List.forall_mem_cons]
    refine ⟨?_, ?_, ?_, ?_, by simp⟩
    all_goals
      refine ⟨by decide, forall_mem_of_all (by decide), by decide, by decide, ?_⟩
      exact not_numberShaped (by rfl) (by decide)
  have hfirst : IsText "a \x7d b " ∧ "a \x7d b ".toList.getLast? ≠ some '{' :=
    ⟨⟨by decide, forall_mem_of_all (by decide), by decide⟩, by decide⟩
  have hlast : IsText "\x7d c" ∧ "\x7d c".toList.getLast? ≠ some '\r' :=
    ⟨⟨by decide, forall_mem_of_all (by decide), by decide⟩, by decide⟩
  have hone : (Expr.number (.int 1)).Writable := ⟨1, rfl, by decide⟩
  have htwo : (Expr.number (.int 2)).Writable := ⟨2, rfl, by decide⟩
  have hwritable : braceTemplate.Writable := by
    refine ⟨by simp [braceTemplate], ?_⟩
    simp only [braceTemplate, List.forall_mem_cons]
    refine ⟨.inl ⟨hfirst.1, hfirst.2, ?_, ?_, hlast.1, hlast.2, trivial⟩,
      .inr ⟨"x", "xs", _, rfl, hname _ (by simp), hname _ (by simp), ?_⟩, .inl trivial, by simp⟩
    · simp [Expr.Canonical, Expr.AllCanonical, Expr.rank, Operator.rank]
    · exact ⟨⟨hname _ (by simp), hone⟩, hname _ (by simp), htwo, trivial⟩
    · simp only [List.forall_mem_cons]
      exact ⟨⟨trivial, hname _ (by simp), trivial⟩, trivial, by simp⟩
  have hcost : braceTemplate.cost ≤ {} := by
    intro limit
    cases limit <;> decide
  exact ⟨hwritable, hcost, by decide, parse_print hwritable hcost⟩

end Stencil
