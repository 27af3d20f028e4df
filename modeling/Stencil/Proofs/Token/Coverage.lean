import Stencil.Proofs.Token.Apart
import Stencil.Proofs.Token.Place

/-! What a cursor passes over while it is asked for tokens and switched from outside. The text is
made of the lexemes of its tokens, of refused words, and of blanks inside blocks, and each token
tells where it stands. -/
namespace Stencil

open String (utf8Len)

theorem utf8Size_of_isGraphic {c : Char} (h : isGraphic c = true) : c.utf8Size = 1 := by
  have hle : c ≤ '~' := by
    rw [isGraphic, Bool.and_eq_true] at h
    exact of_decide_eq_true h.2
  rw [Char.utf8Size_eq_one_iff]
  exact UInt32.le_trans hle (by decide)

theorem utf8Size_of_isSpace {c : Char} (h : isSpace c = true) : c.utf8Size = 1 := by
  simp only [isSpace, Bool.or_eq_true, beq_iff_eq] at h
  rcases h with (((rfl | rfl) | rfl) | rfl) | rfl <;> rfl

/-- A text within a line whose characters are one byte each. -/
def IsPlain (cs : List Char) : Prop := '\n' ∉ cs ∧ utf8Len cs = cs.length

theorem isPlain_of_forall {cs : List Char} (h : ∀ c ∈ cs, isGraphic c = true ∨ isSpace c = true) :
    IsPlain cs := by
  constructor
  · intro hmem
    rcases h _ hmem with hc | hc <;> cases hc
  · induction cs with
    | nil => rfl
    | cons c cs ih =>
      rw [List.forall_mem_cons] at h
      have hc : c.utf8Size = 1 := h.1.elim utf8Size_of_isGraphic utf8Size_of_isSpace
      rw [String.utf8Len_cons, ih h.2, hc, List.length_cons]

section Cut

variable {mode : Mode} {cs rest : List Char}

/-- The characters that a lexeme takes. -/
def Lexeme.chars : Lexeme → List Char
  | endOfFile | invalid _ => []
  | newline => ['\n']
  | openBlock => ['{', '{']
  | closeBlock => ['}', '}']
  | run chars => chars

/-- A run is lengthened by what it takes off the text behind it. No delimiter starts in there, and
the run ends where it has to. -/
theorem exists_splitRun (mode : Mode) (run cs : List Char) :
    ∃ taken, (splitRun mode run cs).1 = run.reverse ++ taken ∧
      taken ++ (splitRun mode run cs).2 = cs ∧ (∀ c ∈ taken, mode.continues c = true) ∧
      Undelimited (taken ++ (splitRun mode run cs).2.take 1) ∧
      mode.StopsAt (splitRun mode run cs).2 := by
  induction cs generalizing run with
  | nil => exact ⟨[], by simp [splitRun], rfl, by simp, by simp [splitRun]; decide, trivial⟩
  | cons c cs ih =>
    rw [splitRun]
    split
    · rename_i hends
      exact ⟨[], by simp, rfl, by simp, .singleton c, by simpa [Mode.StopsAt] using hends⟩
    · rename_i hgoes
      simp only [Bool.or_eq_true, not_or, Bool.not_eq_true', Bool.not_eq_false,
        Bool.not_eq_true] at hgoes
      obtain ⟨taken, hrun, hrest, htaken, hplain, hstops⟩ := ih (c :: run)
      refine ⟨c :: taken, ?_, ?_, List.forall_mem_cons.2 ⟨hgoes.2, htaken⟩, ?_, hstops⟩
      · rw [hrun, List.reverse_cons, List.append_assoc]
        rfl
      · rw [List.cons_append, hrest]
      · refine hplain.cons_append_take_one ?_
        rw [hrest]
        exact hgoes.1

/-- Cutting a lexeme off loses nothing. -/
theorem chars_append_of_cutLexeme {x : Lexeme} (h : cutLexeme mode cs = (x, rest)) :
    x.chars ++ rest = cs := by
  unfold cutLexeme at h
  split at h
  · cases h
    rfl
  · cases h
    rfl
  · cases h
    rfl
  · cases h
    rfl
  · rename_i c cs _ _ _
    split at h
    · cases h
      rfl
    · split at h
      · cases h
        rfl
      · cases h
        obtain ⟨taken, hrun, hrest, -, -⟩ := exists_splitRun mode [c] cs
        rw [Lexeme.chars, hrun, List.append_assoc, hrest]
        rfl

/-- A run is not empty, and is made of visible characters and blanks. -/
theorem forall_mem_of_cutLexeme {run : List Char}
    (h : cutLexeme mode cs = (.run run, rest)) :
    run ≠ [] ∧ ∀ c ∈ run, isGraphic c = true ∨ isSpace c = true := by
  have hgoes : ∀ c, mode.continues c = true → isGraphic c = true ∨ isSpace c = true := by
    intro c hc
    cases mode with
    | literal => simpa [Mode.continues] using hc
    | block =>
      have hparts : isGraphic c = true ∧ isSeparator c = false := by
        simpa [Mode.continues] using hc
      exact .inl hparts.1
  unfold cutLexeme at h
  split at h
  · cases h
  · cases h
  · cases h
  · cases h
  · rename_i c cs _ _ _
    split at h
    · cases h
    · rename_i hvalid
      have hc : isGraphic c = true ∨ isSpace c = true := by
        rwa [Bool.not_eq_true', Bool.not_eq_false, Bool.or_eq_true] at hvalid
      split at h
      · cases h
        exact ⟨List.cons_ne_nil _ _, List.forall_mem_singleton.2 hc⟩
      · cases h
        obtain ⟨taken, hrun, -, htaken, -⟩ := exists_splitRun mode [c] cs
        rw [hrun]
        exact ⟨List.cons_ne_nil _ _,
          List.forall_mem_cons.2 ⟨hc, fun d hd => hgoes d (htaken d hd)⟩⟩

end Cut

/-- The line that a failure tells. -/
def LexError.line? : LexError → Option Nat
  | unexpectedCharacter _ line | tooManyTokens _ line | identifierTooLong _ _ line
  | numberOutOfRange _ line => some line
  | inputTooLarge _ _ => none

/-- A lexeme stands in a text from a byte on. -/
def StandsAt (text lexeme : List Char) (byte : Nat) : Prop :=
  ∃ before after, text = before ++ lexeme ++ after ∧ utf8Len before = byte

namespace Cursor

/-- What can be done to a cursor from outside. -/
inductive Action
  | next
  | setMode (mode : Mode)

/-- A call for the next token: the mode, the answer, and what is left of the text behind it. -/
structure Call where
  mode : Mode
  answer : Except LexError Token
  rest : List Char

/-- The calls for tokens among some actions. -/
def calls : Cursor → List Action → List Call
  | _, [] => []
  | s, .next :: actions => ⟨s.mode, s.next.1, s.next.2.rest⟩ :: s.next.2.calls actions
  | s, .setMode mode :: actions => (s.setMode mode).calls actions

def Call.token? (call : Call) : Option Token := call.answer.toOption

/-- What a call passes over: blanks, and then at most one lexeme. -/
structure Part where
  blanks : List Char := []
  lexeme : List Char := []

def Part.chars (part : Part) : List Char := part.blanks ++ part.lexeme

/-- An answer accounts for the lexeme that was passed: that of its token, or the word that it
refuses. -/
inductive Accounts : Except LexError Token → List Char → Prop
  | token {t : Token} {lexeme : List Char} (h : t.lexeme = .ofList lexeme) : Accounts (.ok t) lexeme
  | tooLong (run : List Char) (max line : Nat) :
      Accounts (.error (.identifierTooLong (utf8Len run) max line)) run
  | outOfRange (run : List Char) (line : Nat) :
      Accounts (.error (.numberOutOfRange (.ofList run) line)) run
  | unexpected (c : Char) (line : Nat) : Accounts (.error (.unexpectedCharacter c line)) []
  | tooMany (max line : Nat) : Accounts (.error (.tooManyTokens max line)) []

/-- A call that passes over a part of a text, behind what was passed before. -/
structure Call.Covers (text passed : List Char) (call : Call) (part : Part) : Prop where
  text_eq : text = passed ++ part.chars ++ call.rest
  blanks : ∀ c ∈ part.blanks, isSpace c = true
  mode : part.blanks ≠ [] → call.mode = .block
  accounts : Accounts call.answer part.lexeme
  place : ∀ t, call.answer = .ok t →
    byteAt? text t.line t.column = some (utf8Len (passed ++ part.blanks))
  last : ∀ t, call.answer = .ok t → (t.kind = .endOfFile ↔ t.lexeme = "") ∧
    (t.kind = .endOfFile → call.rest = [])
  line : ∀ e, call.answer = .error e →
    e.line? = some ((passed ++ part.chars).count '\n' + 1)

/-- Calls that pass over a text part by part, behind what was passed before. -/
inductive Covered (text : List Char) : List Char → List Call → List Part → Prop
  | nil (passed : List Char) : Covered text passed [] []
  | cons {passed : List Char} {call : Call} {part : Part} {calls : List Call} {parts : List Part}
      (first : call.Covers text passed part)
      (rest : Covered text (passed ++ part.chars) calls parts) :
      Covered text passed (call :: calls) (part :: parts)

/-- A cursor stands behind what was passed of a text, and knows the place. -/
structure Behind (text passed : List Char) (s : Cursor) : Prop where
  text_eq : text = passed ++ s.rest
  line_eq : s.line = passed.count '\n' + 1
  byte_eq : byteAt? text s.line s.column = some (utf8Len passed)

variable {text passed : List Char} {s : Cursor}

namespace Behind

theorem setMode (h : s.Behind text passed) (mode : Mode) : (s.setMode mode).Behind text passed :=
  ⟨h.text_eq, h.line_eq, h.byte_eq⟩

theorem pass (h : s.Behind text passed) {lexeme rest : List Char} (hrest : lexeme ++ rest = s.rest)
    (hplain : IsPlain lexeme) : (s.pass lexeme rest).Behind text (passed ++ lexeme) where
  text_eq := by
    rw [h.text_eq, ← hrest, List.append_assoc]
    rfl
  line_eq := by
    have hnone : lexeme.count '\n' = 0 := List.count_eq_zero.2 hplain.1
    rw [List.count_append, hnone]
    exact h.line_eq
  byte_eq := by
    rw [String.utf8Len_append, hplain.2]
    exact byteAt?_add h.byte_eq lexeme.length

theorem passLine (h : s.Behind text passed) {rest : List Char} (hrest : '\n' :: rest = s.rest) :
    (s.passLine rest).Behind text (passed ++ ['\n']) where
  text_eq := by
    rw [h.text_eq, ← hrest, List.append_assoc]
    rfl
  line_eq := by
    rw [List.count_append]
    exact congrArg (· + 1) h.line_eq
  byte_eq := by
    have hline : (s.passLine rest).line = passed.count '\n' + 1 + 1 := congrArg (· + 1) h.line_eq
    rw [hline, h.text_eq, ← hrest, String.utf8Len_append]
    exact byteAt?_line passed rest

theorem skipSpaces (h : s.Behind text passed) :
    ∃ blanks, (∀ c ∈ blanks, isSpace c = true) ∧ (blanks ≠ [] → s.mode = .block) ∧
      s.skipSpaces.Behind text (passed ++ blanks) := by
  unfold Cursor.skipSpaces
  split
  · exact ⟨[], by simp, fun hne => absurd rfl hne, by rwa [List.append_nil]⟩
  · rename_i hmode
    have hblank : ∀ c ∈ s.rest.takeWhile isSpace, isSpace c = true := fun c hc =>
      List.all_eq_true.1 List.all_takeWhile c hc
    have hplain : IsPlain (s.rest.takeWhile isSpace) :=
      isPlain_of_forall fun c hc => .inr (hblank c hc)
    exact ⟨_, hblank, fun _ => hmode, h.pass List.takeWhile_append_dropWhile hplain⟩

end Behind

/-- A word is refused for its length or for its value, and the failure tells the line. -/
theorem accounts_of_wordKind {limits : Limits} {line : Nat} {run : List Char} {e : LexError}
    (hplain : IsPlain run) (h : wordKind limits line run = .error e) :
    Accounts (.error e) run ∧ e.line? = some line := by
  unfold wordKind at h
  split at h
  · cases h
  · cases h
  · split at h
    · split at h
      · cases h
      · cases h
        exact ⟨.outOfRange run line, rfl⟩
    · split at h
      · cases h
        rw [← hplain.2]
        exact ⟨.tooLong run _ line, rfl⟩
      · cases h

theorem accounts_of_runKind {run : List Char} {e : LexError} (hplain : IsPlain run)
    (h : s.runKind run = .error e) : Accounts (.error e) run ∧ e.line? = some s.line := by
  unfold runKind at h
  split at h
  · cases h
  · exact accounts_of_wordKind hplain h

namespace Behind

/-- What a step says of the lexeme that it passes. -/
structure Step (text passed : List Char) (s : Cursor) (answer : Except LexError Token)
    (s' : Cursor) (lexeme : List Char) : Prop where
  accounts : Accounts answer lexeme
  behind : s'.Behind text (passed ++ lexeme)
  place : ∀ t, answer = .ok t → t.line = s.line ∧ t.column = s.column
  last : ∀ t, answer = .ok t → (t.kind = .endOfFile ↔ lexeme = []) ∧
    (t.kind = .endOfFile → s'.rest = [])
  line : ∀ e, answer = .error e → e.line? = some s'.line

/-- A lexeme other than the end of the text is given as a token, and the cursor moves behind it. -/
theorem give {s' : Cursor} {kind : TokenKind} {lexeme : List Char} (hkind : kind ≠ .endOfFile)
    (hne : lexeme ≠ []) (h : s'.Behind text (passed ++ lexeme)) :
    Step text passed s (s.give kind lexeme s').1 (s.give kind lexeme s').2 lexeme where
  accounts := .token rfl
  behind := ⟨h.text_eq, h.line_eq, h.byte_eq⟩
  place t ht := by
    cases ht
    exact ⟨rfl, rfl⟩
  last t ht := by
    cases ht
    exact ⟨iff_of_false hkind hne, fun hend => absurd hend hkind⟩
  line e he := by cases he

theorem giveEnd (h : s.Behind text passed) (hrest : s.rest = []) :
    Step text passed s (s.give .endOfFile [] s).1 (s.give .endOfFile [] s).2 [] where
  accounts := .token rfl
  behind := by
    rw [List.append_nil]
    exact ⟨h.text_eq, h.line_eq, h.byte_eq⟩
  place t ht := by
    cases ht
    exact ⟨rfl, rfl⟩
  last t ht := by
    cases ht
    exact ⟨iff_of_true rfl rfl, fun _ => hrest⟩
  line e he := by cases he

/-- A step passes the lexeme in front of the cursor, unless a character there is invalid. -/
theorem step (h : s.Behind text passed) :
    ∃ lexeme, Step text passed s s.step.1 s.step.2 lexeme := by
  rcases hcut : cutLexeme s.mode s.rest with ⟨x, rest⟩
  have hchars : x.chars ++ rest = s.rest := chars_append_of_cutLexeme hcut
  unfold Cursor.step
  rw [hcut]
  cases x with
  | endOfFile => exact ⟨[], h.giveEnd (eq_nil_of_cutLexeme hcut)⟩
  | newline => exact ⟨['\n'], give (by simp) (by simp) (h.passLine hchars)⟩
  | openBlock => exact ⟨['{', '{'], give (by simp) (by simp) (h.pass hchars ⟨by decide, rfl⟩)⟩
  | closeBlock => exact ⟨['}', '}'], give (by simp) (by simp) (h.pass hchars ⟨by decide, rfl⟩)⟩
  | invalid c =>
    refine ⟨[], .unexpected c s.line, by rwa [List.append_nil], ?_, ?_, ?_⟩
    · rintro t ⟨⟩
    · rintro t ⟨⟩
    · rintro e ⟨⟩
      rfl
  | run run =>
    obtain ⟨hne, hrun⟩ := forall_mem_of_cutLexeme hcut
    have hplain : IsPlain run := isPlain_of_forall hrun
    have hpass : (s.pass run rest).Behind text (passed ++ run) := h.pass hchars hplain
    refine ⟨run, ?_⟩
    dsimp only
    cases hkind : s.runKind run with
    | ok kind =>
      have hproper : kind ≠ .endOfFile := by
        rintro rfl
        exact s.runKind_ne_endOfFile run hkind
      exact give hproper hne hpass
    | error e =>
      obtain ⟨haccounts, hline⟩ := accounts_of_runKind hplain hkind
      refine ⟨haccounts, hpass, ?_, ?_, ?_⟩
      · rintro t ⟨⟩
      · rintro t ⟨⟩
      · rintro e' ⟨⟩
        exact hline

/-- A call for a token passes over a part of the text, and tells where. -/
theorem next (h : s.Behind text passed) :
    ∃ part : Part, Call.Covers text passed ⟨s.mode, s.next.1, s.next.2.rest⟩ part ∧
      s.next.2.Behind text (passed ++ part.chars) := by
  unfold Cursor.next
  split
  · refine ⟨{}, ?_, by rwa [Part.chars, List.append_nil, List.append_nil]⟩
    refine ⟨by simpa [Part.chars] using h.text_eq, by simp, fun hne => absurd rfl hne,
      .tooMany _ _, ?_, ?_, ?_⟩
    · rintro t ⟨⟩
    · rintro t ⟨⟩
    · rintro e ⟨⟩
      simpa [Part.chars, LexError.line?] using h.line_eq
  · obtain ⟨blanks, hblanks, hmode, hskip⟩ := h.skipSpaces
    obtain ⟨lexeme, hstep⟩ := hskip.step
    have hbehind : s.skipSpaces.step.2.Behind text (passed ++ (blanks ++ lexeme)) := by
      rw [← List.append_assoc]
      exact hstep.behind
    refine ⟨⟨blanks, lexeme⟩, ?_, hbehind⟩
    refine ⟨hbehind.text_eq, hblanks, hmode, hstep.accounts, fun t ht => ?_, fun t ht => ?_,
      fun e he => ?_⟩
    · obtain ⟨hline, hcolumn⟩ := hstep.place t ht
      rw [hline, hcolumn]
      exact hskip.byte_eq
    · have haccounts := hstep.accounts
      have hlast := hstep.last t ht
      rw [show s.skipSpaces.step.1 = .ok t from ht] at haccounts
      cases haccounts with
      | token hlexeme =>
        refine ⟨hlast.1.trans ?_, hlast.2⟩
        rw [hlexeme, String.ofList_eq_empty_iff]
    · rw [hstep.line e he, hbehind.line_eq]
      rfl

/-- Whatever is done to a cursor, its calls for tokens pass over the text part by part. -/
theorem covered (h : s.Behind text passed) (actions : List Action) :
    ∃ parts, Covered text passed (s.calls actions) parts := by
  induction actions generalizing s passed with
  | nil => exact ⟨[], .nil passed⟩
  | cons action actions ih =>
    cases action with
    | next =>
      obtain ⟨part, hcovers, hbehind⟩ := h.next
      obtain ⟨parts, hparts⟩ := ih hbehind
      exact ⟨part :: parts, .cons hcovers hparts⟩
    | setMode mode => exact ih (h.setMode mode)

end Behind

/-- A token that ends where another one starts, or before. -/
def TokenBefore (text : List Char) (t t' : Token) : Prop :=
  ∃ byte byte', byteAt? text t.line t.column = some byte ∧
    byteAt? text t'.line t'.column = some byte' ∧ byte + t.lexeme.utf8ByteSize ≤ byte'

theorem Call.token?_eq_some {call : Call} {t : Token} :
    call.token? = some t ↔ call.answer = .ok t := by
  unfold Call.token?
  cases call.answer with
  | ok t' => simp [Except.toOption]
  | error e => simp [Except.toOption]

/-- The token of a call stands behind the blanks that it passes, and ends its part. -/
theorem Call.Covers.token {call : Call} {part : Part} (h : call.Covers text passed part)
    {t : Token} (ht : call.token? = some t) :
    byteAt? text t.line t.column = some (utf8Len (passed ++ part.blanks)) ∧
      part.lexeme = t.lexeme.toList ∧
      utf8Len (passed ++ part.blanks) + t.lexeme.utf8ByteSize = utf8Len (passed ++ part.chars) := by
  rw [Call.token?_eq_some] at ht
  have haccounts := h.accounts
  rw [ht] at haccounts
  cases haccounts with
  | token hlexeme =>
    have hsize : t.lexeme.utf8ByteSize = utf8Len part.lexeme := by
      rw [hlexeme, String.utf8ByteSize_ofList]
    refine ⟨h.place t ht, by rw [hlexeme, String.toList_ofList], ?_⟩
    rw [hsize, ← String.utf8Len_append, List.append_assoc]
    rfl

namespace Covered

variable {calls : List Call} {parts : List Part}

/-- Each token of a covered text stands where it tells, behind what was passed before. -/
theorem stands (h : Covered text passed calls parts) : ∀ t ∈ calls.filterMap Call.token?,
    ∃ byte, byteAt? text t.line t.column = some byte ∧ StandsAt text t.lexeme.toList byte ∧
      (t.kind = .endOfFile → byte = utf8Len text) ∧ utf8Len passed ≤ byte := by
  induction h with
  | nil passed => simp
  | @cons passed call part calls parts first rest ih =>
    intro t ht
    obtain ⟨call', hcall, htoken⟩ := List.mem_filterMap.1 ht
    rcases List.mem_cons.1 hcall with rfl | hcall
    · obtain ⟨hplace, hlexeme, hend⟩ := first.token htoken
      have htext : text = passed ++ part.blanks ++ t.lexeme.toList ++ call'.rest := by
        rw [← hlexeme, first.text_eq, Part.chars, ← List.append_assoc]
      refine ⟨_, hplace, ⟨_, _, htext, rfl⟩, fun hkind => ?_, ?_⟩
      · obtain ⟨hempty, hrest⟩ := first.last t (Call.token?_eq_some.1 htoken)
        rw [hrest hkind, hempty.1 hkind] at htext
        rw [htext]
        simp
      · rw [String.utf8Len_append]
        exact Nat.le_add_right _ _
    · obtain ⟨byte, hbyte, hstands, hlast, hle⟩ :=
        ih t (List.mem_filterMap.2 ⟨call', hcall, htoken⟩)
      rw [String.utf8Len_append] at hle
      exact ⟨byte, hbyte, hstands, hlast, by omega⟩

/-- The tokens of a covered text follow one another. -/
theorem pairwise (h : Covered text passed calls parts) :
    (calls.filterMap Call.token?).Pairwise (TokenBefore text) := by
  induction h with
  | nil passed => exact .nil
  | @cons passed call part calls parts first rest ih =>
    cases htoken : call.token? with
    | none => rwa [List.filterMap_cons_none htoken]
    | some t =>
      rw [List.filterMap_cons_some htoken, List.pairwise_cons]
      refine ⟨fun t' ht' => ?_, ih⟩
      obtain ⟨hplace, -, hend⟩ := first.token htoken
      obtain ⟨byte', hbyte', -, -, hle⟩ := rest.stands t' ht'
      exact ⟨_, byte', hplace, hbyte', by omega⟩

end Covered

/-- However its mode is switched, a cursor passes over nothing but blanks in blocks and refused
words beside its tokens, and each token tells where it stands. -/
theorem calls_covered {limits : Limits} {source : String}
    (hsize : source.utf8ByteSize ≤ limits.inputSize) (actions : List Action) :
    ∃ s, ofSource limits source = .ok s ∧
      let text := joinLineEnds [] source.toList
      let tokens := (s.calls actions).filterMap Call.token?
      (∀ t ∈ tokens, ∃ byte, byteAt? text t.line t.column = some byte ∧
        StandsAt text t.lexeme.toList byte ∧ (t.kind = .endOfFile → byte = utf8Len text)) ∧
      tokens.Pairwise (TokenBefore text) ∧
      ∃ parts, Covered text [] (s.calls actions) parts := by
  have hfits : ¬ limits.inputSize < source.utf8ByteSize := by omega
  refine ⟨_, if_neg hfits, ?_⟩
  have hstart : Behind (joinLineEnds [] source.toList) []
      { limits, rest := joinLineEnds [] source.toList } := ⟨rfl, rfl, byteAt?_start _⟩
  obtain ⟨parts, hparts⟩ := hstart.covered actions
  refine ⟨fun t ht => ?_, hparts.pairwise, parts, hparts⟩
  obtain ⟨byte, hbyte, hstands, hlast, -⟩ := hparts.stands t ht
  exact ⟨byte, hbyte, hstands, hlast⟩

/-- A block over two lines, with a number that is refused and a character that is none. -/
def brokenSource : String := "a \x7b\x7b x\r\n  99999999999999999999 y é"

def brokenActions : List Action :=
  [.next, .next, .setMode .block, .next, .next, .next, .next, .next]

theorem brokenSource_calls_covered :
    brokenSource.utf8ByteSize ≤ ({} : Limits).inputSize ∧
      ∃ s, ofSource {} brokenSource = .ok s ∧
        (s.calls brokenActions).map Call.answer =
          [.ok ⟨.text, "a ", 1, 1⟩, .ok ⟨.openBlock, "\x7b\x7b", 1, 3⟩, .ok ⟨.text, "x", 1, 6⟩,
            .ok ⟨.newline, "\n", 1, 7⟩, .error (.numberOutOfRange "99999999999999999999" 2),
            .ok ⟨.text, "y", 2, 24⟩, .error (.unexpectedCharacter 'é' 2)] ∧
        ∃ parts, Covered (joinLineEnds [] brokenSource.toList) [] (s.calls brokenActions) parts := by
  have hsize : brokenSource.utf8ByteSize ≤ ({} : Limits).inputSize := by decide
  obtain ⟨s, hs, -, -, hcovered⟩ := calls_covered hsize brokenActions
  refine ⟨hsize, s, hs, ?_, hcovered⟩
  cases hs
  with_unfolding_all rfl

end Cursor
end Stencil
