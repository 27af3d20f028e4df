import Stencil.Proofs.Token.Coverage
import Stencil.Proofs.Token.Reads

/-! A text cut into symbols, seen from the text: where it may be broken off and go on in another way
without a change of what was cut before. -/
namespace Stencil

variable {limits : Limits} {mode mode' mode'' : Mode} {cs rest rest' : List Char} {x : Lexeme}
  {y : Symbol} {xs ys : List Symbol}

/-- Nothing at the start of the text lengthens a run in front of it. -/
def Mode.HaltsAt (mode : Mode) (rest : List Char) : Prop :=
  ∀ c, rest.head? = some c → mode.continues c = false

namespace Mode.HaltsAt

theorem nil : mode.HaltsAt [] := by
  rintro c ⟨⟩

theorem cons {c : Char} (h : mode.continues c = false) : mode.HaltsAt (c :: rest) := by
  rintro d hd
  cases hd
  exact h

theorem newline : mode.HaltsAt ('\n' :: rest) := by
  cases mode <;> exact cons rfl

theorem stopsAt (h : mode.HaltsAt rest) : mode.StopsAt rest := by
  cases rest with
  | nil => trivial
  | cons c cs => exact .inr (h c rfl)

/-- Braces lengthen runs. -/
theorem ne_brace (h : mode.HaltsAt rest) {c : Char} (hc : rest.head? = some c) :
    c ≠ '{' ∧ c ≠ '}' := by
  have hends := h c hc
  constructor <;> (rintro rfl; cases mode <;> cases hends)

end Mode.HaltsAt

/-- A run in a mode ends where `rest` starts: nothing there lengthens it, and no delimiter comes
about on the border. -/
structure Mode.Border (mode : Mode) (word rest : List Char) : Prop where
  stops : mode.StopsAt rest
  apart : ∀ c, word.getLast? = some c → rest.head? = some c → c ≠ '{' ∧ c ≠ '}'

theorem Mode.HaltsAt.border (h : mode.HaltsAt rest) (word : List Char) : mode.Border word rest :=
  ⟨h.stopsAt, fun _ _ hc => h.ne_brace hc⟩

/-- No blank is left in front of the next lexeme inside a block. -/
theorem Mode.isSpace_of_skip {c : Char} (h : Mode.block.skip cs = c :: rest) :
    isSpace c = false := by
  have hhead := List.head?_dropWhile_not isSpace cs
  rw [show cs.dropWhile isSpace = c :: rest from h] at hhead
  exact hhead

/-- A run that was cut off is a separator, or ends where it has to. -/
theorem border_of_cutLexeme {run : List Char}
    (h : cutLexeme mode (mode.skip cs) = (.run run, rest)) :
    (mode = .block ∧ ∃ c, isSeparator c = true ∧ run = [c]) ∨
      (∀ c ∈ run, mode.continues c = true) ∧ Undelimited run ∧ mode.Border run rest := by
  unfold cutLexeme at h
  split at h
  · cases h
  · cases h
  · cases h
  · cases h
  · rename_i c ds _ hopen hclose hskip
    have hstart : startsDelimiter (c :: ds) = false := by
      refine Bool.eq_false_iff.2 fun hstart => ?_
      obtain ⟨more, heq | heq⟩ := startsDelimiter_eq_true hstart <;> cases heq
      · exact hopen more rfl rfl
      · exact hclose more rfl rfl
    split at h
    · cases h
    · rename_i hvalid
      simp only [Bool.not_eq_true', Bool.not_eq_false] at hvalid
      split at h
      · rename_i hseparator
        rw [Bool.and_eq_true, decide_eq_true_eq] at hseparator
        cases h
        exact .inl ⟨hseparator.1, c, hseparator.2, rfl⟩
      · rename_i hseparator
        cases h
        right
        obtain ⟨taken, hrun, hrest, htaken, hplain, hstops⟩ := exists_splitRun mode [c] ds
        have hc : mode.continues c = true := by
          cases mode with
          | literal => exact hvalid
          | block =>
            have hspace := Mode.isSpace_of_skip hskip
            simp only [hspace, Bool.or_false] at hvalid
            simpa [Mode.continues, hvalid] using hseparator
        have hplain' : Undelimited (c :: taken ++ (splitRun mode [c] ds).2.take 1) :=
          hplain.cons_append_take_one (by rw [hrest]; exact hstart)
        have hone : ∀ d, (splitRun mode [c] ds).2.head? = some d →
            ((splitRun mode [c] ds).2.take 1).head? = some d := by
          cases (splitRun mode [c] ds).2 <;> simp
        rw [hrun, List.reverse_singleton, List.singleton_append]
        refine ⟨List.forall_mem_cons.2 ⟨hc, htaken⟩, hplain'.of_part (List.prefix_append _ _).isInfix,
          hstops, ?_⟩
        rintro d hlast hhead
        constructor
        · rintro rfl
          exact (Apart.append_iff.1 hplain'.1).2.2 ⟨hlast, hone _ hhead⟩
        · rintro rfl
          exact (Apart.append_iff.1 hplain'.2).2.2 ⟨hlast, hone _ hhead⟩

/-- A text that starts alike lets a run end alike. -/
theorem Mode.Border.of_append {run text : List Char} (h : mode.Border run (text ++ rest))
    (hne : text ≠ []) (hstart : startsDelimiter (text ++ rest) = true → startsDelimiter text = true) :
    mode.Border run (text ++ rest') := by
  obtain ⟨c, cs, rfl⟩ := List.exists_cons_of_ne_nil hne
  exact ⟨h.stops.imp_left fun hdelimiter => startsDelimiter_append (hstart hdelimiter) rest', h.apart⟩

/-- A lexeme is cut off again where another text follows, if a run ends in front of that text, too. -/
theorem cutLexeme_of_border (h : cutLexeme mode (mode.skip cs) = (x, rest)) (hx : x.chars ≠ [])
    (hborder : ∀ run, x = .run run → mode.Border run rest → mode.Border run rest') :
    cutLexeme mode (x.chars ++ rest') = (x, rest') := by
  cases x with
  | endOfFile => exact absurd rfl hx
  | invalid c => exact absurd rfl hx
  | newline => rfl
  | openBlock => rfl
  | closeBlock => rfl
  | run run =>
    rcases border_of_cutLexeme h with ⟨rfl, c, hc, rfl⟩ | ⟨hrun, hplain, hends⟩
    · have hline : c ≠ '\n' := by
        rintro rfl
        cases hc
      have hbrace : c ≠ '{' ∧ c ≠ '}' := by
        constructor <;> (rintro rfl; cases hc)
      have hgraphic : isGraphic c = true := by
        simp only [isSeparator, Bool.or_eq_true, beq_iff_eq] at hc
        rcases hc with (rfl | rfl) | rfl <;> rfl
      rw [Lexeme.chars, List.singleton_append,
        cutLexeme_cons hline (startsDelimiter_cons_of_ne hbrace.1 hbrace.2),
        if_neg (by simp [hgraphic]), if_pos (by simp [hc])]
    · have hends' := hborder run rfl hends
      exact cutLexeme_run hx hrun (hplain.append_take_one hends'.apart) hends'.stops

/-- Behind blanks, a lexeme stands in front of what is left. -/
theorem exists_blanks (h : cutLexeme mode (mode.skip cs) = (x, rest)) (hx : x.chars ≠ []) :
    ∃ blanks, cs = blanks ++ (x.chars ++ rest) ∧ (∀ c ∈ blanks, isSpace c = true) ∧
      (blanks ≠ [] → mode = .block) ∧ ∀ more, mode.skip (blanks ++ (x.chars ++ more)) =
        x.chars ++ more := by
  have hchars : x.chars ++ rest = mode.skip cs := chars_append_of_cutLexeme h
  cases mode with
  | literal => exact ⟨[], hchars.symm, by simp, fun hne => absurd rfl hne, fun _ => rfl⟩
  | block =>
    obtain ⟨c, word, hword⟩ := List.exists_cons_of_ne_nil hx
    rw [hword] at hchars ⊢
    have hc : isSpace c = false := Mode.isSpace_of_skip hchars.symm
    have hblanks : ∀ c ∈ cs.takeWhile isSpace, isSpace c = true := fun c hc =>
      List.all_eq_true.1 List.all_takeWhile c hc
    refine ⟨cs.takeWhile isSpace, ?_, hblanks, fun _ => rfl, fun more => ?_⟩
    · rw [hchars]
      exact List.takeWhile_append_dropWhile.symm
    · rw [Mode.skip, List.dropWhile_append_of_pos hblanks, List.cons_append,
        List.dropWhile_cons_of_neg (by simp [hc])]

/-- A lexeme that stands for something other than the end of the text takes part of the text. -/
theorem Lexeme.chars_ne_nil (hcut : cutLexeme mode (mode.skip cs) = (x, rest))
    (hx : x.symbol? limits mode = some y) (hend : y.kind ≠ .endOfFile) : x.chars ≠ [] := by
  cases x with
  | endOfFile =>
    cases hx
    exact absurd rfl hend
  | invalid c => cases hx
  | newline => simp [chars]
  | openBlock => simp [chars]
  | closeBlock => simp [chars]
  | run run => exact (forall_mem_of_cutLexeme hcut).1

theorem wordKind_ne_newline {line : Nat} {run : List Char} :
    wordKind limits line run ≠ .ok .newline := by
  unfold wordKind reserved?
  grind

/-- Only a line end stands for one. -/
theorem Lexeme.eq_newline_iff (hx : x.symbol? limits mode = some y) :
    x = .newline ↔ y = ⟨.newline, ""⟩ := by
  cases x with
  | newline =>
    cases hx
    simp
  | run run =>
    refine iff_of_false (by simp) ?_
    rintro rfl
    cases mode with
    | literal => cases hx
    | block =>
      simp only [symbol?] at hx
      split at hx
      · rename_i k hk
        cases hx
        exact wordKind_ne_newline hk
      · cases hx
  | invalid c => cases hx
  | _ =>
    cases hx
    simp

/-- No run asks for another mode. -/
theorem Lexeme.after_of_run {run : List Char} (hx : (Lexeme.run run).symbol? limits mode = some y) :
    mode.after y.kind = mode := by
  cases mode with
  | literal =>
    cases hx
    rfl
  | block =>
    simp only [symbol?] at hx
    split at hx
    · rename_i k hk
      cases hx
      obtain ⟨-, hclose, -⟩ := wordKind_proper hk
      unfold Mode.after
      split
      · rfl
      · contradiction
      · rfl
    · cases hx

/-- The mode behind some symbols. -/
def Mode.behind (mode : Mode) (xs : List Symbol) : Mode :=
  xs.foldl (fun mode y => mode.after y.kind) mode

@[simp] theorem Mode.behind_nil (mode : Mode) : mode.behind [] = mode := rfl

@[simp] theorem Mode.behind_cons (mode : Mode) (y : Symbol) (xs : List Symbol) :
    mode.behind (y :: xs) = (mode.after y.kind).behind xs := rfl

@[simp] theorem Mode.behind_append (mode : Mode) (xs ys : List Symbol) :
    mode.behind (xs ++ ys) = (mode.behind xs).behind ys :=
  List.foldl_append

/-- Symbols that a text is cut into, one behind the other, each in the mode that those before it ask
for, and what is left then. -/
inductive Cuts (limits : Limits) : Mode → List Char → List Symbol → Mode → List Char → Prop
  | nil {mode : Mode} {cs : List Char} : Cuts limits mode cs [] mode cs
  | cons {mode mode' : Mode} {cs cs' rest : List Char} {x : Lexeme} {y : Symbol}
      {xs : List Symbol} (hcut : cutLexeme mode (mode.skip cs) = (x, cs'))
      (hx : x.symbol? limits mode = some y) (hend : y.kind ≠ .endOfFile)
      (h : Cuts limits (mode.after y.kind) cs' xs mode' rest) :
      Cuts limits mode cs (y :: xs) mode' rest

namespace Cuts

theorem append (h : Cuts limits mode cs xs mode' rest) (h' : Cuts limits mode' rest ys mode'' rest') :
    Cuts limits mode cs (xs ++ ys) mode'' rest' := by
  induction h with
  | nil => exact h'
  | cons hcut hx hend _ ih => exact .cons hcut hx hend (ih h')

theorem exists_of_append (h : Cuts limits mode cs (xs ++ ys) mode' rest) :
    ∃ mode'' rest', Cuts limits mode cs xs mode'' rest' ∧ Cuts limits mode'' rest' ys mode' rest := by
  induction xs generalizing mode cs with
  | nil => exact ⟨mode, cs, .nil, h⟩
  | cons x xs ih =>
    cases h with
    | cons hcut hx hend h =>
      obtain ⟨mode'', rest', hfirst, hrest⟩ := ih h
      exact ⟨mode'', rest', .cons hcut hx hend hfirst, hrest⟩

theorem mono {limits' : Limits} (hle : limits.identifierLength ≤ limits'.identifierLength)
    (h : Cuts limits mode cs xs mode' rest) : Cuts limits' mode cs xs mode' rest := by
  induction h with
  | nil => exact .nil
  | cons hcut hx hend _ ih => exact .cons hcut (Lexeme.symbol?_mono hle hx) hend ih

theorem reads (h : Cuts limits mode cs xs mode' rest) : Reads limits mode cs xs mode' rest := by
  induction h with
  | nil => exact .nil
  | cons hcut hx hend _ ih => exact (Reads.of_cut hcut hx hend).trans ih

theorem mode_eq (h : Cuts limits mode cs xs mode' rest) :
    mode' = mode.behind xs := by
  induction h with
  | nil => rfl
  | cons _ _ _ _ ih => exact ih

/-- The text of some symbols. A delimiter at its start is not cut in two. -/
theorem exists_text (h : Cuts limits mode cs xs mode' rest) :
    ∃ text, cs = text ++ rest ∧ (text = [] ↔ xs = []) ∧
      (xs ≠ [] → startsDelimiter cs = true → startsDelimiter text = true) := by
  induction h with
  | nil => exact ⟨[], rfl, by simp, fun hne => absurd rfl hne⟩
  | @cons mode mode' cs cs' rest x y xs hcut hx hend h ih =>
    obtain ⟨text, rfl, -, -⟩ := ih
    have hne := Lexeme.chars_ne_nil hcut hx hend
    obtain ⟨blanks, rfl, hblanks, -, hskip⟩ := exists_blanks hcut hne
    refine ⟨blanks ++ (x.chars ++ text), by simp, by simp [hne], fun _ hstart => ?_⟩
    -- a delimiter in front is the lexeme itself
    obtain ⟨more, hmore⟩ := startsDelimiter_eq_true hstart
    have hnone : blanks = [] := by
      cases blanks with
      | nil => rfl
      | cons c cs =>
        have hc := hblanks c (by simp)
        rcases hmore with hmore | hmore <;>
          (obtain rfl := (List.cons.inj hmore).1; cases hc)
    subst hnone
    rw [hskip] at hcut
    rw [List.nil_append] at hmore ⊢
    rcases hmore with hmore | hmore <;>
      (rw [hmore] at hcut; cases hcut; rfl)

/-- What the symbols are cut off may be followed by another text, if a run ends in front of that
text, too. -/
theorem of_border (h : Cuts limits mode cs xs mode' rest)
    (hends : ∀ run, mode'.Border run rest → mode'.Border run rest') {text : List Char}
    (htext : cs = text ++ rest) : Cuts limits mode (text ++ rest') xs mode' rest' := by
  induction h generalizing text with
  | nil =>
    obtain rfl : text = [] := by simpa using htext
    exact .nil
  | @cons mode mode' cs cs' rest x y xs hcut hx hend h ih =>
    obtain ⟨behind, rfl, hnil, hstart⟩ := h.exists_text
    have hne := Lexeme.chars_ne_nil hcut hx hend
    obtain ⟨blanks, rfl, -, -, hskip⟩ := exists_blanks hcut hne
    obtain rfl : text = blanks ++ (x.chars ++ behind) := by
      simpa [← List.append_assoc] using htext.symm
    refine .cons ?_ hx hend (ih hends rfl)
    rw [List.append_assoc, List.append_assoc, hskip]
    refine cutLexeme_of_border hcut hne fun run hrun hborder => ?_
    by_cases hxs : xs = []
    · subst hxs hrun
      obtain rfl := hnil.2 rfl
      have hmode := h.mode_eq
      rw [Mode.behind_nil, Lexeme.after_of_run hx] at hmode
      subst hmode
      exact hends run hborder
    · exact hborder.of_append (fun hbehind => hxs (hnil.1 hbehind)) (hstart hxs)

/-- What the symbols are cut off may be followed by any text that does not lengthen a run. -/
theorem retarget {text : List Char} (h : Cuts limits mode (text ++ rest) xs mode' rest)
    (hends : mode'.HaltsAt rest') : Cuts limits mode (text ++ rest') xs mode' rest' :=
  h.of_border (fun run _ => hends.border run) rfl

/-- A text that is cut up to closing braces ends with them, and they are cut off whatever follows. -/
theorem exists_closing (h : Cuts limits mode cs (xs ++ [⟨.closeBlock, ""⟩]) mode' []) :
    ∃ text braces mode'', cs = text ++ braces ∧ ['}', '}'] <:+ braces ∧
      Cuts limits mode (text ++ braces) xs mode'' braces ∧
      ∀ more, Cuts limits mode'' (braces ++ more) [⟨.closeBlock, ""⟩] mode' more := by
  obtain ⟨mode'', last, hfront, hlast⟩ := h.exists_of_append
  obtain ⟨text, rfl, -, -⟩ := hfront.exists_text
  cases hlast with
  | cons hcut hx hend hnone =>
    cases hnone
    obtain rfl := Lexeme.eq_closeBlock_of_symbol? hx
    obtain ⟨blanks, rfl, -, -, hskip⟩ := exists_blanks hcut (by simp [Lexeme.chars])
    rw [List.append_nil] at hfront ⊢
    refine ⟨text, _, mode'', rfl, List.suffix_append _ _, hfront, fun more => ?_⟩
    refine .cons ?_ hx hend .nil
    rw [List.append_assoc, hskip]
    rfl

/-- What is cut off a text up to closing braces at its end is cut off it alike if more text
follows. -/
theorem closed (h : Cuts limits mode cs (xs ++ [⟨.closeBlock, ""⟩]) mode' [])
    (more : List Char) : Cuts limits mode (cs ++ more) (xs ++ [⟨.closeBlock, ""⟩]) mode' more := by
  obtain ⟨text, braces, mode'', rfl, hbraces, hfront, hclose⟩ := h.exists_closing
  have hne : braces ≠ [] := by
    rintro rfl
    simp at hbraces
  rw [List.append_assoc]
  refine Cuts.append (hfront.of_border (fun run hborder => ?_) rfl) (hclose more)
  rw [← List.append_nil braces] at hborder
  refine hborder.of_append hne fun hstart => ?_
  rwa [List.append_nil] at hstart

/-- The line ends of a text are those among its symbols. -/
theorem newline_mem_iff (h : Cuts limits mode cs xs mode' rest) {text : List Char}
    (htext : cs = text ++ rest) : '\n' ∈ text ↔ ⟨.newline, ""⟩ ∈ xs := by
  induction h generalizing text with
  | nil =>
    obtain rfl : text = [] := by simpa using htext
    simp
  | @cons mode mode' cs cs' rest x y xs hcut hx hend h ih =>
    obtain ⟨behind, rfl, -, -⟩ := h.exists_text
    obtain ⟨blanks, rfl, hblanks, -, -⟩ := exists_blanks hcut (Lexeme.chars_ne_nil hcut hx hend)
    obtain rfl : text = blanks ++ (x.chars ++ behind) := by
      simpa [← List.append_assoc] using htext.symm
    have hnone : '\n' ∉ blanks := fun hmem => by cases hblanks _ hmem
    have hlexeme : '\n' ∈ x.chars ↔ x = .newline := by
      cases x with
      | run run => simpa [Lexeme.chars] using newline_not_mem_of_cutLexeme hcut
      | _ => simp [Lexeme.chars]
    rw [List.mem_append, List.mem_append, List.mem_cons, ih rfl, hlexeme,
      Lexeme.eq_newline_iff hx, eq_comm (a := y)]
    simp [hnone]

/-- Texts with a line end between them, of which the first closes its last block. -/
theorem append_newline {text : List Char} (h : Cuts limits mode text ys .literal [])
    (h' : Cuts limits .literal rest xs mode' rest') :
    Cuts limits mode (text ++ '\n' :: rest) (ys ++ ⟨.newline, ""⟩ :: xs) mode' rest' := by
  rw [← List.append_nil text] at h
  exact (h.retarget .newline).append (.cons (x := .newline) rfl rfl (by simp) h')

/-- A text is cut at a line end in front of which the block that was opened last is closed. -/
theorem newline_iff {text : List Char} (htext : '\n' ∉ text) (hys : ⟨.newline, ""⟩ ∉ ys)
    (hmode : Mode.literal.behind ys = .literal) :
    Cuts limits .literal (text ++ '\n' :: rest) (ys ++ ⟨.newline, ""⟩ :: xs) mode' rest' ↔
      Cuts limits .literal text ys .literal [] ∧ Cuts limits .literal rest xs mode' rest' := by
  constructor
  · intro h
    obtain ⟨mode'', more, hline, h⟩ := h.exists_of_append
    obtain rfl := hline.mode_eq.trans hmode
    cases h with
    | @cons _ _ _ cs' _ x _ _ hcut hx hend h =>
      obtain rfl := (Lexeme.eq_newline_iff hx).2 rfl
      obtain rfl : '\n' :: cs' = more := chars_append_of_cutLexeme hcut
      obtain ⟨text', heq, -, -⟩ := hline.exists_text
      have htext' : '\n' ∉ text' := fun hmem => hys ((hline.newline_mem_iff heq).1 hmem)
      obtain ⟨rfl, rfl⟩ : text = text' ∧ rest = cs' := by
        rcases List.append_eq_append_iff.1 heq with ⟨_ | ⟨c, ds⟩, rfl, hbehind⟩ |
          ⟨_ | ⟨c, ds⟩, rfl, hbehind⟩
        · simpa using hbehind
        · obtain rfl := (List.cons.inj hbehind).1
          simp at htext'
        · simpa [eq_comm] using hbehind
        · obtain rfl := (List.cons.inj hbehind).1
          simp at htext
      have hcut := hline.retarget .nil
      rw [List.append_nil] at hcut
      exact ⟨hcut, h⟩
  · rintro ⟨hline, h⟩
    exact hline.append_newline h

end Cuts

namespace Cursor

/-- What a cursor gives is cut off the text in front of it, and another cursor gives what is left. -/
theorem exists_cuts_of_lex {s : Cursor} {front back : List Token}
    (h : s.lex.tokens = front ++ back) :
    ∃ s' : Cursor, Cuts s.limits s.mode s.rest (front.map Token.symbol) s'.mode s'.rest ∧
      s'.lex.tokens = back ∧ s'.lex.last = s.lex.last ∧
      ∀ text passed, s.Behind text passed → ∃ passed', s'.Behind text passed' := by
  induction front generalizing s with
  | nil => exact ⟨s, .nil, h, rfl, fun _ passed hbehind => ⟨passed, hbehind⟩⟩
  | cons t front ih =>
    obtain ⟨s₁, hnext, hend, htokens, hlast⟩ := next_of_lex_cons h
    obtain ⟨x, hcut, hx, hlimits, hmode⟩ := cut_of_proper hnext hend
    obtain ⟨s', hcuts, htokens', hlast', hbehind'⟩ := ih htokens
    refine ⟨s', .cons hcut hx hend ?_, htokens', hlast'.trans hlast, fun text passed hbehind => ?_⟩
    · have hlimits' : (s₁.switch t).limits = s.limits := hlimits
      have hmode' : (s₁.switch t).mode = s.mode.after t.kind := by rw [← hmode]; rfl
      rwa [hlimits', hmode'] at hcuts
    · obtain ⟨part, -, hbehind₁⟩ := hbehind.next
      rw [hnext] at hbehind₁
      exact hbehind' _ _ (hbehind₁.setMode _)

end Cursor

end Stencil
