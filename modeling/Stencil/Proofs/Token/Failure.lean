import Stencil.Proofs.Token.Literal

/-! What a cursor does once it has failed. Where no token is left to give, or the next character is
none that may stand in a text, it fails alike for ever; a word that it refuses is behind it. -/
namespace Stencil

/-- The failures that do not go away. -/
inductive LexError.Lasting : LexError → Prop
  | unexpectedCharacter (c : Char) (line : Nat) : Lasting (.unexpectedCharacter c line)
  | tooManyTokens (max line : Nat) : Lasting (.tooManyTokens max line)

theorem exists_cons_of_cutLexeme_invalid {mode : Mode} {cs cs' : List Char} {c : Char}
    (h : cutLexeme mode cs = (.invalid c, cs')) : ∃ rest, cs = c :: rest ∧ ¬ Printable c := by
  cases cs with
  | nil => cases h
  | cons d rest =>
    have hd : ¬ Printable d := fun hd => chars_ne_nil_of_printable hd h rfl
    rw [cutLexeme_of_not_printable hd] at h
    cases h
    exact ⟨rest, rfl, hd⟩

theorem not_lasting_of_wordKind {limits : Limits} {line : Nat} {run : List Char} {e : LexError}
    (h : wordKind limits line run = .error e) : ¬ e.Lasting := by
  unfold wordKind at h
  split at h
  · cases h
  · cases h
  · split at h
    · split at h
      · cases h
      · cases h
        rintro ⟨⟩
    · split at h
      · cases h
        rintro ⟨⟩
      · cases h

namespace Cursor

variable {s s' : Cursor} {e : LexError} {t : Token}

/-- The cursor behind some actions. -/
def after (s : Cursor) : List Action → Cursor
  | [] => s
  | .next :: actions => s.next.2.after actions
  | .setMode mode :: actions => (s.setMode mode).after actions

/-- No token is left to give, or a character that is not printable is next. -/
inductive Stuck (s : Cursor) : LexError → Prop
  | full (hfull : s.limits.tokenCount ≤ s.given) :
      Stuck s (.tooManyTokens s.limits.tokenCount s.line)
  | invalid {c : Char} {rest : List Char} (hroom : s.given < s.limits.tokenCount)
      (hrest : s.rest = c :: rest) (hc : ¬ Printable c) : Stuck s (.unexpectedCharacter c s.line)

namespace Stuck

theorem lasting (h : s.Stuck e) : e.Lasting := by
  cases h with
  | full => exact .tooManyTokens _ _
  | invalid => exact .unexpectedCharacter _ _

theorem setMode (h : s.Stuck e) (mode : Mode) : (s.setMode mode).Stuck e := by
  cases h with
  | full hfull => exact .full hfull
  | invalid hroom hrest hc => exact .invalid hroom hrest hc

/-- A cursor that is stuck does not move. -/
theorem next_eq (h : s.Stuck e) : s.next = (.error e, s) := by
  cases h with
  | full hfull => rw [next, if_pos hfull]
  | @invalid c rest hroom hrest hc =>
    have hspace : isSpace c = false := by
      rw [printable_iff, not_or, not_or] at hc
      exact Bool.eq_false_iff.2 hc.2.1
    obtain ⟨limits, cs, line, column, mode, given⟩ := s
    dsimp only at hrest
    subst hrest
    have hskip : skipSpaces ⟨limits, c :: rest, line, column, mode, given⟩ =
        ⟨limits, c :: rest, line, column, mode, given⟩ := by
      cases mode <;> simp [skipSpaces, hspace]
    rw [next, if_neg (Nat.not_le.2 hroom), hskip, step, cutLexeme_of_not_printable hc]

/-- Whatever is done to a cursor that is stuck, it fails alike. -/
theorem answer_eq (h : s.Stuck e) (actions : List Action) :
    ∀ call ∈ s.calls actions, call.answer = .error e := by
  induction actions generalizing s with
  | nil => exact List.forall_mem_nil _
  | cons action actions ih =>
    cases action with
    | next =>
      rw [calls, h.next_eq]
      exact List.forall_mem_cons.2 ⟨rfl, ih h⟩
    | setMode mode => exact ih (h.setMode mode)

end Stuck

/-- A word that is refused stands in front of a cursor, behind blanks. -/
structure Refuses (s : Cursor) (e : LexError) (blanks run rest : List Char) : Prop where
  mode_eq : s.mode = .block
  rest_eq : s.rest = blanks ++ run ++ rest
  blanks : ∀ c ∈ blanks, isSpace c = true
  cut : cutLexeme .block (run ++ rest) = (.run run, rest)
  kind : wordKind s.limits s.line run = .error e

/-- A step that fails stays in front of a character that is not printable, or goes behind a word. -/
theorem step_error (h : s.step = (.error e, s')) :
    (∃ c rest, s.rest = c :: rest ∧ ¬ Printable c ∧ e = .unexpectedCharacter c s.line ∧ s' = s) ∨
    ∃ run rest, s.Refuses e [] run rest ∧ s' = s.pass run rest := by
  obtain ⟨limits, cs, line, column, mode, given⟩ := s
  rcases hcut : cutLexeme mode cs with ⟨x, rest⟩
  unfold step at h
  rw [hcut] at h
  cases x with
  | invalid c =>
    obtain ⟨more, hcs, hc⟩ := exists_cons_of_cutLexeme_invalid hcut
    cases h
    exact .inl ⟨c, more, hcs, hc, rfl, rfl⟩
  | run run =>
    have hchars : run ++ rest = cs := chars_append_of_cutLexeme hcut
    cases mode with
    | literal => cases h
    | block =>
      cases hkind : wordKind limits line run with
      | ok k =>
        simp only [runKind, hkind] at h
        cases h
      | error e' =>
        simp only [runKind, hkind] at h
        cases h
        refine .inr ⟨run, rest, ⟨rfl, hchars.symm, List.forall_mem_nil _, ?_, hkind⟩, rfl⟩
        rw [hchars]
        exact hcut
  | _ => cases h

theorem skipSpaces_eq_pass (s : Cursor) : ∃ blanks rest, (∀ c ∈ blanks, isSpace c = true) ∧
    s.rest = blanks ++ rest ∧ s.skipSpaces = s.pass blanks rest := by
  obtain ⟨limits, cs, line, column, mode, given⟩ := s
  cases mode with
  | literal => exact ⟨[], cs, List.forall_mem_nil _, rfl, rfl⟩
  | block =>
    exact ⟨cs.takeWhile isSpace, cs.dropWhile isSpace,
      fun c => List.all_eq_true.1 List.all_takeWhile c, List.takeWhile_append_dropWhile.symm, rfl⟩

theorem pass_pass (s : Cursor) (first second rest rest' : List Char) :
    (s.pass first rest).pass second rest' = s.pass (first ++ second) rest' := by
  simp [pass, Nat.add_assoc]

/-- A cursor that fails is stuck, or it has passed a word. It counts nothing for that. -/
theorem next_error (h : s.next = (.error e, s')) :
    (s'.Stuck e ∧ s'.given = s.given) ∨ ∃ blanks run rest, s.Refuses e blanks run rest ∧
      s' = s.pass (blanks ++ run) rest := by
  unfold next at h
  split at h
  · rename_i hfull
    cases h
    exact .inl ⟨.full hfull, rfl⟩
  · rename_i hroom
    obtain ⟨blanks, behind, hblanks, hrest, hskip⟩ := s.skipSpaces_eq_pass
    rw [hskip] at h
    rcases step_error h with ⟨c, more, hcons, hc, rfl, rfl⟩ | ⟨run, rest, hrefuses, rfl⟩
    · exact .inl ⟨.invalid (Nat.lt_of_not_le hroom) hcons hc, rfl⟩
    · obtain ⟨hmode, hbehind, -, hcut, hkind⟩ := hrefuses
      refine .inr ⟨blanks, run, rest, ⟨hmode, ?_, hblanks, hcut, hkind⟩, pass_pass ..⟩
      rw [hrest, List.append_assoc]
      exact congrArg (blanks ++ ·) hbehind

section Count

theorem given_of_error (h : s.next = (.error e, s')) : s'.given = s.given := by
  rcases next_error h with ⟨-, hgiven⟩ | ⟨blanks, run, rest, -, rfl⟩
  · exact hgiven
  · rfl

/-- A token is given only while there is room for it, and counts. -/
theorem given_of_ok (h : s.next = (.ok t, s')) :
    s'.given = s.given + 1 ∧ s.given < s.limits.tokenCount := by
  obtain ⟨x, rest, -, -, hmoves⟩ := moves_of_next h
  refine ⟨hmoves.given_eq, Nat.lt_of_not_le fun hfull => ?_⟩
  rw [next, if_pos hfull] at h
  cases h

/-- All tokens are counted that are given, and nothing else is. -/
theorem given_after (s : Cursor) (actions : List Action) :
    (s.after actions).given = s.given + ((s.calls actions).filterMap Call.token?).length := by
  induction actions generalizing s with
  | nil => rfl
  | cons action actions ih =>
    cases action with
    | setMode mode => exact ih (s.setMode mode)
    | next =>
      rw [after, calls, ih]
      rcases hnext : s.next with ⟨e | t, s'⟩
      · have hnone : Call.token? ⟨s.mode, .error e, s'.rest⟩ = none := rfl
        rw [List.filterMap_cons_none hnone, given_of_error hnext]
      · have hsome : Call.token? ⟨s.mode, .ok t, s'.rest⟩ = some t := rfl
        rw [List.filterMap_cons_some hsome, List.length_cons, (given_of_ok hnext).1]
        omega

/-- The count never goes beyond its bound. -/
theorem given_after_le (h : s.given ≤ s.limits.tokenCount) (actions : List Action) :
    (s.after actions).given ≤ s.limits.tokenCount := by
  induction actions generalizing s with
  | nil => exact h
  | cons action actions ih =>
    cases action with
    | setMode mode => exact ih (s := s.setMode mode) h
    | next =>
      rw [after, ← s.limits_next]
      apply ih
      rw [limits_next]
      rcases hnext : s.next with ⟨e | t, s'⟩
      · rw [given_of_error hnext]
        exact h
      · obtain ⟨hgiven, hroom⟩ := given_of_ok hnext
        rw [hgiven]
        exact hroom

end Count

/-- A cursor without a token left, or in front of a character that is not printable, fails alike
ever after. Behind any other failure it has passed a word. -/
theorem calls_behind_failure {limits : Limits} {source : String} {start : Cursor}
    (hstart : ofSource limits source = .ok start) (actions : List Action) :
    let s := start.after actions
    let tokens := (start.calls actions).filterMap Call.token?
    tokens.length ≤ limits.tokenCount ∧ s.given = tokens.length ∧
      ∀ e s', s.next = (.error e, s') →
        (e.Lasting → ∀ later, ∀ call ∈ s'.calls later, call.answer = .error e) ∧
        (¬ e.Lasting → ∃ blanks run rest, s.Refuses e blanks run rest ∧
          s' = s.pass (blanks ++ run) rest) := by
  intro s tokens
  obtain ⟨-, rfl⟩ := ofSource_ok_iff.1 hstart
  have hgiven : s.given = tokens.length := (given_after _ actions).trans (Nat.zero_add _)
  have hbound : s.given ≤ limits.tokenCount := given_after_le (Nat.zero_le _) actions
  refine ⟨hgiven ▸ hbound, hgiven, fun e s' hnext => ?_⟩
  rcases next_error hnext with ⟨hstuck, -⟩ | hrefused
  · exact ⟨fun _ => hstuck.answer_eq, fun hpasses => absurd hstuck.lasting hpasses⟩
  · refine ⟨fun hlasting => ?_, fun _ => hrefused⟩
    obtain ⟨blanks, run, rest, hrefuses, -⟩ := hrefused
    exact absurd hlasting (not_lasting_of_wordKind hrefuses.kind)

/-- A name and a number that are refused, and a character that may not stand in a text. -/
def refusedSource : String := "rather_long  9223372036854775808\n a é b"

/-- Names are short, and there is room for one more token than stands in front of the character. -/
def shortNames : Limits := { identifierLength := 4, tokenCount := 3 }

/-- Behind the name that is too long, a number is refused. Behind the number come a line end and
another name, and there is no way past the character then. -/
theorem refusedSource_calls_behind_failure :
    ∃ start, ofSource shortNames refusedSource = .ok start ∧
      let atNumber := start.after [.setMode .block, .next]
      let atCharacter := start.after [.setMode .block, .next, .next, .next, .next]
      (start.calls [.setMode .block, .next, .next, .next, .next, .next]).map Call.answer =
        [.error (.identifierTooLong 11 4 1), .error (.numberOutOfRange "9223372036854775808" 1),
          .ok ⟨.newline, "\n", 1, 33⟩, .ok ⟨.text, "a", 2, 2⟩,
          .error (.unexpectedCharacter 'é' 2)] ∧
      (atNumber.given = 0 ∧ ∃ blanks run rest,
        atNumber.Refuses (.numberOutOfRange "9223372036854775808" 1) blanks run rest ∧
        atNumber.next.2 = atNumber.pass (blanks ++ run) rest) ∧
      atCharacter.given = 2 ∧ ∀ later, ∀ call ∈ atCharacter.next.2.calls later,
        call.answer = .error (.unexpectedCharacter 'é' 2) := by
  have hstart := ofSource_ok_iff.2
    ⟨show refusedSource.utf8ByteSize ≤ shortNames.inputSize by decide, rfl⟩
  refine ⟨_, hstart, by with_unfolding_all rfl, ?_, ?_⟩
  · obtain ⟨-, hgiven, hfailure⟩ := calls_behind_failure hstart [.setMode .block, .next]
    obtain ⟨-, hrefused⟩ := hfailure (.numberOutOfRange "9223372036854775808" 1) _
      (by with_unfolding_all rfl)
    exact ⟨hgiven.trans (by with_unfolding_all rfl), hrefused (by rintro ⟨⟩)⟩
  · obtain ⟨-, hgiven, hfailure⟩ :=
      calls_behind_failure hstart [.setMode .block, .next, .next, .next, .next]
    obtain ⟨hlasting, -⟩ := hfailure (.unexpectedCharacter 'é' 2) _ (by with_unfolding_all rfl)
    exact ⟨hgiven.trans (by with_unfolding_all rfl), hlasting (.unexpectedCharacter 'é' 2)⟩

end Cursor
end Stencil
