import Stencil.Proofs.Document.Words
import Stencil.Proofs.Parse.Cuts

/-! The lines of a loop. Whatever the reader looks at ahead to find the end of the loop, each line is
read as it is on its own. -/
namespace Stencil

open Limits

variable {limits : Limits} {l : Line} {body : List Line}

/-- The source of a loop with one line of text for each line of its body. -/
def loopText (binder array : String) (lines : List String) : String :=
  "\x7b\x7b foreach " ++ binder ++ " in " ++ array ++ " \x7d\x7d\n" ++
    String.join (lines.map (· ++ "\n")) ++ "\x7b\x7b endforeach \x7d\x7d"

/-- The lines of a text, each with its line end. -/
def lineChars (lines : List String) : List Char := lines.flatMap fun l => l.toList ++ ['\n']

/-- The block in front of a loop, and the one behind it. -/
def headChars (binder array : String) : List Char :=
  blockChars ["foreach".toList, binder.toList, "in".toList, array.toList]

def footChars : List Char := blockChars ["endforeach".toList]

theorem toList_loopText (binder array : String) (lines : List String) :
    (loopText binder array lines).toList =
      headChars binder array ++ '\n' :: (lineChars lines ++ footChars) := by
  have hlines : (String.join (lines.map (· ++ "\n"))).toList = lineChars lines := by
    rw [String.toList_join, List.flatMap_map]
    simp [lineChars]
  have hopen : "\x7b\x7b foreach ".toList = '{' :: '{' :: ' ' :: ("foreach".toList ++ [' ']) := rfl
  have hin : " in ".toList = ' ' :: ("in".toList ++ [' ']) := rfl
  have hclose : " \x7d\x7d\n".toList = [' ', '}', '}', '\n'] := rfl
  have hfoot : "\x7b\x7b endforeach \x7d\x7d".toList = footChars := rfl
  unfold loopText
  simp only [String.toList_append, hlines, hopen, hin, hclose, hfoot, headChars, blockChars,
    List.flatMap_cons, List.flatMap_nil, List.append_assoc, List.cons_append, List.nil_append]

/-- The symbols of the block in front of a loop. -/
def headSymbols (binder array : String) : List Symbol :=
  ⟨.openBlock, ""⟩ :: [⟨.foreachWord, ""⟩, ⟨.text, binder⟩, ⟨.inWord, ""⟩, ⟨.text, array⟩] ++
    [⟨.closeBlock, ""⟩]

theorem isCut_blockChars {words : List (List Char)} {xs : List Symbol}
    (h : List.Forall₂ (Spells limits) words xs) :
    IsCut (blockChars words) (⟨.openBlock, ""⟩ :: xs ++ [⟨.closeBlock, ""⟩]) := by
  have hcut : Cuts limits .literal (blockChars words ++ []) _ .literal [] := Cuts.block h
  rw [List.append_nil] at hcut
  exact ⟨limits, hcut⟩

theorem isCut_footChars :
    IsCut footChars Parser.endSymbols ∧ '\n' ∉ footChars := by
  have hword : List.Forall₂ (Spells {}) ["endforeach".toList] [⟨.endforeachWord, ""⟩] :=
    .cons .endforeachWord .nil
  exact ⟨isCut_blockChars hword, by decide⟩

theorem isCut_headChars {binder array : String} (hbinder : ScansAsName binder)
    (harray : ScansAsName array) :
    IsCut (headChars binder array) (headSymbols binder array) ∧ '\n' ∉ headChars binder array := by
  obtain ⟨limits, hb⟩ := hbinder.spells
  obtain ⟨limits', ha⟩ := harray.spells
  have hwords : List.Forall₂ (Spells (limits.sup limits'))
      ["foreach".toList, binder.toList, "in".toList, array.toList]
      [⟨.foreachWord, ""⟩, ⟨.text, binder⟩, ⟨.inWord, ""⟩, ⟨.text, array⟩] :=
    .cons .foreachWord (.cons (hb.mono (Nat.le_max_left _ _))
      (.cons .inWord (.cons (ha.mono (Nat.le_max_right _ _)) .nil)))
  refine ⟨isCut_blockChars hwords, not_mem_blockChars (by simp) ?_⟩
  simp only [List.forall_mem_cons]
  exact ⟨by simp, hb.newline_not_mem, by simp, ha.newline_not_mem, by simp⟩

/-- A line of items that may share it, as it stands in a text. -/
def LineOf (text : String) (l : Line) : Prop :=
  (∀ item ∈ l, item.Inline Expr.Canonical) ∧ IsCut text.toList (lineSymbols l)

/-- A text within a line is a template of that line, unless there is nothing in it. -/
theorem lineOf_iff {text : String} (htext : '\n' ∉ text.toList) :
    LineOf text l ↔ if text = "" then l = [] else IsTemplate text ⟨[l]⟩ := by
  have hsymbols : lineSymbols l = [] ↔ l = [] := by
    constructor
    · intro hnil
      have hend : [⟨.endOfFile, ""⟩] = lineSymbols l ++ [⟨.endOfFile, ""⟩] := by rw [hnil]; rfl
      exact eq_nil_of_lineSymbols (.inr rfl) hend
    · rintro rfl
      rfl
  split
  · rename_i hempty
    subst hempty
    constructor
    · rintro ⟨-, hcut⟩
      exact hsymbols.1 (hcut.eq_nil_iff.1 rfl)
    · rintro rfl
      exact ⟨by simp, {}, .nil⟩
  · rename_i hempty
    rw [isTemplate_iff, joinLineEnds_of_apart (.of_not_mem htext), List.reverse_nil, List.nil_append]
    constructor
    · rintro ⟨hinline, hcut⟩
      have hne : l ≠ [] := by
        rwa [Ne, ← hsymbols, ← hcut.eq_nil_iff, String.toList_eq_nil_iff]
      refine ⟨⟨by simpa using hne, ?_⟩, lineSymbols l, rfl, hcut⟩
      exact List.forall_mem_singleton.2 (.inl hinline)
    · rintro ⟨⟨-, hlines⟩, xs, hxs, hcut⟩
      obtain rfl : lineSymbols l = xs := List.append_inj_left' hxs rfl
      refine ⟨(hlines l (by simp)).resolve_right ?_, hcut⟩
      -- a loop takes more than one line
      rintro ⟨binder, array, body, rfl, -⟩
      exact htext (hcut.newline_mem_iff.2 (by simp [lineSymbols, Item.symbols]))

/-- The lines in front of the block that ends a loop are cut one by one. -/
theorem isCut_body_iff {lines : List String} (hlines : ∀ text ∈ lines, '\n' ∉ text.toList) :
    (∀ l ∈ body, ∀ item ∈ l, item.Inline Expr.Canonical) ∧
        IsCut (lineChars lines ++ footChars) (bodySymbols body ++ Parser.endSymbols) ↔
      List.Forall₂ LineOf lines body := by
  induction lines generalizing body with
  | nil =>
    cases body with
    | nil => exact iff_of_true ⟨by simp, isCut_footChars.1⟩ .nil
    | cons l body =>
      refine iff_of_false ?_ (by simp)
      rintro ⟨-, hcut⟩
      exact isCut_footChars.2 (hcut.newline_mem_iff.2 (by simp [bodySymbols]))
  | cons text lines ih =>
    rw [List.forall_mem_cons] at hlines
    have hchars : lineChars (text :: lines) ++ footChars =
        text.toList ++ '\n' :: (lineChars lines ++ footChars) := by
      simp [lineChars]
    cases body with
    | nil =>
      refine iff_of_false ?_ (by simp)
      rintro ⟨-, hcut⟩
      have hmem := hcut.newline_mem_iff.1 (by simp [hchars])
      simp [bodySymbols, Parser.endSymbols] at hmem
    | cons l body =>
      rw [List.forall₂_cons, ← ih hlines.2, List.forall_mem_cons, hchars, bodySymbols,
        List.append_assoc, List.cons_append]
      constructor
      · rintro ⟨⟨hl, hbody⟩, hcut⟩
        obtain ⟨hline, hrest⟩ := (IsCut.newline_iff hlines.1 (newline_not_mem_lineSymbols hl)
          (behind_lineSymbols l)).1 hcut
        exact ⟨⟨hl, hline⟩, hbody, hrest⟩
      · rintro ⟨⟨hl, hline⟩, hbody, hrest⟩
        exact ⟨⟨hl, hbody⟩, hline.append_newline hrest⟩

theorem apart_lineChars {lines : List String}
    (hlines : ∀ text ∈ lines, '\n' ∉ text.toList ∧ text.toList.getLast? ≠ some '\r') :
    Apart '\r' '\n' (lineChars lines ++ footChars) := by
  induction lines with
  | nil => decide
  | cons text lines ih =>
    rw [List.forall_mem_cons] at hlines
    have hchars : lineChars (text :: lines) ++ footChars =
        text.toList ++ '\n' :: (lineChars lines ++ footChars) := by
      simp [lineChars]
    rw [hchars, Apart.append_iff, Apart.cons_iff]
    exact ⟨.of_not_mem hlines.1.1, ⟨by simp, ih hlines.2⟩, fun hborder => hlines.1.2 hborder.1⟩

theorem lineSymbols_loop (binder array : String) (body : List Line) :
    lineSymbols [.loop binder array body] =
      headSymbols binder array ++ ⟨.newline, ""⟩ :: (bodySymbols body ++ Parser.endSymbols) := by
  simp [lineSymbols, Item.symbols, headSymbols, Parser.endSymbols]

theorem canonical_loop_iff {binder array : String} :
    Document.Canonical ⟨[[.loop binder array body]]⟩ ↔
      ∀ l ∈ body, ∀ item ∈ l, item.Inline Expr.Canonical := by
  constructor
  · rintro ⟨-, hlines⟩
    rcases hlines _ (List.mem_singleton_self _) with hinline | ⟨_, _, _, heq, hbody⟩
    · exact (hinline _ (List.mem_singleton_self _)).elim
    · cases heq
      exact hbody
  · intro hbody
    refine ⟨by simp, ?_⟩
    rw [List.forall_mem_singleton]
    exact .inr ⟨binder, array, body, rfl, hbody⟩

theorem isTemplate_loopText_iff {binder array : String} {lines : List String}
    (hbinder : ScansAsName binder) (harray : ScansAsName array)
    (hlines : ∀ text ∈ lines, '\n' ∉ text.toList ∧ text.toList.getLast? ≠ some '\r') :
    IsTemplate (loopText binder array lines) ⟨[[.loop binder array body]]⟩ ↔
      List.Forall₂ LineOf lines body := by
  obtain ⟨hhead, hline⟩ := isCut_headChars hbinder harray
  have hjoined : joinLineEnds [] (loopText binder array lines).toList =
      headChars binder array ++ '\n' :: (lineChars lines ++ footChars) := by
    rw [toList_loopText]
    refine joinLineEnds_of_apart (Apart.append_iff.2 ⟨.of_not_mem hline,
      Apart.cons_iff.2 ⟨by simp, apart_lineChars hlines⟩, ?_⟩) []
    simp [headChars, getLast?_blockChars]
  rw [isTemplate_iff, canonical_loop_iff, hjoined,
    ← isCut_body_iff fun text htext => (hlines text htext).1]
  refine and_congr_right fun _ => ?_
  have hcut : IsCut (headChars binder array ++ '\n' :: (lineChars lines ++ footChars))
      (lineSymbols [.loop binder array body]) ↔
        IsCut (lineChars lines ++ footChars) (bodySymbols body ++ Parser.endSymbols) := by
    rw [lineSymbols_loop, IsCut.newline_iff hline (by simp [headSymbols]) rfl]
    exact and_iff_right hhead
  rw [← hcut]
  constructor
  · rintro ⟨xs, hxs, h⟩
    obtain rfl : lineSymbols [.loop binder array body] = xs := List.append_inj_left' hxs rfl
    exact h
  · exact fun h => ⟨_, rfl, h⟩

/-- Relations that agree on the members of a list agree on the list. -/
theorem forall₂_congr_of_mem {α β : Type} {R S : α → β → Prop} {as : List α} {bs : List β}
    (h : ∀ a ∈ as, ∀ b, R a b ↔ S a b) : List.Forall₂ R as bs ↔ List.Forall₂ S as bs := by
  constructor
  · intro hR
    exact ((List.forall₂_and_left as bs).2 ⟨h, hR⟩).imp fun a b hab => (hab.1 b).1 hab.2
  · intro hS
    exact ((List.forall₂_and_left as bs).2 ⟨h, hS⟩).imp fun a b hab => (hab.1 b).2 hab.2

/-- The lines of a loop are read as each of them is on its own, where nothing is looked at ahead. -/
theorem parse_loopText {binder array : String} {lines : List String}
    (hbinder : ScansAsName binder) (harray : ScansAsName array)
    (hlines : ∀ text ∈ lines, '\n' ∉ text.toList ∧ text.toList.getLast? ≠ some '\r') :
    Ample fun limits => ∀ body,
      parse limits (loopText binder array lines) = .ok ⟨[[.loop binder array body]]⟩ ↔
        List.Forall₂ (fun text l => if text = "" then l = [] else parse limits text = .ok ⟨[l]⟩)
          lines body := by
  have heach : Ample fun limits => ∀ text ∈ lines, ∀ d,
      parse limits text = .ok d ↔ IsTemplate text d := .forall_mem fun text _ => ample_parse_iff text
  refine ((ample_parse_iff (loopText binder array lines)).and heach).imp ?_
  rintro limits ⟨hwhole, hsingle⟩ body
  rw [hwhole, isTemplate_loopText_iff hbinder harray hlines]
  refine forall₂_congr_of_mem fun text htext l => ?_
  rw [lineOf_iff (hlines text htext).1, hsingle text htext]

/-- Lines that start with a block, with a single brace and with nothing. -/
def braceLines : List String := ["\x7b\x7b x \x7d\x7d \x7d", "", "\x7b a \x7b\x7b(x)\x7d\x7d"]

def braceBody : List Line :=
  [[.block (.slot "x"), .text " \x7d"], [], [.text "\x7b a ", .block (.group (.slot "x"))]]

theorem braceLines_parse_loopText :
    ScansAsName "x" ∧ ScansAsName "xs" ∧
      (∀ text ∈ braceLines, '\n' ∉ text.toList ∧ text.toList.getLast? ≠ some '\r') ∧
      Ample fun limits => parse limits (loopText "x" "xs" braceLines) =
        .ok ⟨[[.loop "x" "xs" braceBody]]⟩ := by
  have hx : ScansAsName "x" :=
    ⟨{}, [⟨.text, "x", 1, 1⟩, ⟨.endOfFile, "", 1, 2⟩], by with_unfolding_all rfl, rfl⟩
  have hxs : ScansAsName "xs" :=
    ⟨{}, [⟨.text, "xs", 1, 1⟩, ⟨.endOfFile, "", 1, 3⟩], by with_unfolding_all rfl, rfl⟩
  have hlines : ∀ text ∈ braceLines, '\n' ∉ text.toList ∧ text.toList.getLast? ≠ some '\r' := by
    decide
  refine ⟨hx, hxs, hlines, ((parse_loopText hx hxs hlines).and (.le {})).imp ?_⟩
  rintro limits ⟨hloop, hle⟩
  refine (hloop braceBody).2 (.cons ?_ (.cons rfl (.cons ?_ .nil)))
  · exact parse_of_le_of_ok hle (by with_unfolding_all rfl)
  · exact parse_of_le_of_ok hle (by with_unfolding_all rfl)

end Stencil
