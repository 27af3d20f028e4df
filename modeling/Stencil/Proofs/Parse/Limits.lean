import Stencil.Proofs.Limits
import Stencil.Proofs.Parse.Ahead
import Stencil.Proofs.Token.Reads
import Stencil.Template

/-! Reading one source within two limits, of which the second allow more. As long as the first run
meets none of its limits, the second one goes through the same tokens and the same steps. -/
namespace Stencil

/-- The failures of a text that is too large, or too large in one of its parts. -/
inductive LexError.IsLimit : LexError → Prop
  | inputTooLarge (bytes max : Nat) : IsLimit (.inputTooLarge bytes max)
  | tooManyTokens (max line : Nat) : IsLimit (.tooManyTokens max line)
  | identifierTooLong (bytes max line : Nat) : IsLimit (.identifierTooLong bytes max line)

/-- The failures of a template that does not keep to the limits. -/
inductive ParseError.IsLimit : ParseError → Prop
  | lexical {e : LexError} (h : e.IsLimit) : IsLimit (.lexical e)
  | tooDeep (limit : Nat) (t : Token) : IsLimit (.syntactic ⟨.tooDeep limit, t⟩)

/-- A longer bound on names changes nothing, unless the shorter one was reached. -/
theorem wordKind_of_le {limits limits' : Limits} (h : limits ≤ limits') (line : Nat)
    (run : List Char) :
    (∃ e, wordKind limits line run = .error e ∧ e.IsLimit) ∨
      wordKind limits' line run = wordKind limits line run := by
  cases hkind : wordKind limits line run with
  | ok k => exact .inr (wordKind_mono (h .identifierLength) hkind line)
  | error e =>
    unfold wordKind at hkind ⊢
    split at hkind
    · cases hkind
    · cases hkind
    · split at hkind
      · rename_i hdigits
        rw [if_pos hdigits]
        exact .inr hkind
      · split at hkind
        · cases hkind
          exact .inl ⟨_, rfl, .identifierTooLong _ _ _⟩
        · cases hkind

namespace Cursor

variable {s : Cursor} {limits' : Limits}

/-- The same cursor within other limits. -/
def within (limits' : Limits) (s : Cursor) : Cursor := { s with limits := limits' }

theorem skipSpaces_within : (s.within limits').skipSpaces = s.skipSpaces.within limits' := by
  obtain ⟨_, _, _, _, mode, _⟩ := s
  cases mode <;> rfl

theorem runKind_within (h : s.limits ≤ limits') (run : List Char) :
    (∃ e, s.runKind run = .error e ∧ e.IsLimit) ∨
      (s.within limits').runKind run = s.runKind run := by
  obtain ⟨limits, cs, line, column, mode, given⟩ := s
  cases mode with
  | literal => exact .inr rfl
  | block => exact wordKind_of_le h line run

/-- Only for the kind of a run does a step look at the limits. -/
theorem step_within_of_runKind (h : ∀ run rest, cutLexeme s.mode s.rest = (.run run, rest) →
    (s.within limits').runKind run = s.runKind run) :
    (s.within limits').step = (s.step.1, s.step.2.within limits') := by
  have hcut : cutLexeme (s.within limits').mode (s.within limits').rest =
      cutLexeme s.mode s.rest := rfl
  unfold step
  rw [hcut]
  rcases hcut' : cutLexeme s.mode s.rest with ⟨x, rest⟩
  cases x with
  | run run =>
    dsimp only
    rw [h run rest hcut']
    cases s.runKind run <;> rfl
  | _ => rfl

theorem step_within (h : s.limits ≤ limits') :
    (∃ e, s.step.1 = .error e ∧ e.IsLimit) ∨
      (s.within limits').step = (s.step.1, s.step.2.within limits') := by
  by_cases hrefused : ∃ run rest e, cutLexeme s.mode s.rest = (.run run, rest) ∧
      s.runKind run = .error e ∧ e.IsLimit
  · obtain ⟨run, rest, e, hcut, hkind, he⟩ := hrefused
    left
    unfold step
    rw [hcut]
    dsimp only
    rw [hkind]
    exact ⟨e, rfl, he⟩
  · right
    refine step_within_of_runKind fun run rest hcut => ?_
    rcases runKind_within h run with ⟨e, hkind, he⟩ | hkind
    · exact absurd ⟨run, rest, e, hcut, hkind, he⟩ hrefused
    · exact hkind

/-- A cursor that meets none of its limits goes on alike within limits that allow more. -/
theorem next_within (h : s.limits ≤ limits') :
    (∃ e, s.next.1 = .error e ∧ e.IsLimit) ∨
      (s.within limits').next = (s.next.1, s.next.2.within limits') := by
  have hcount : s.limits.tokenCount ≤ limits'.tokenCount := h .tokenCount
  by_cases hgiven : s.limits.tokenCount ≤ s.given
  · left
    rw [next, if_pos hgiven]
    exact ⟨_, rfl, .tooManyTokens _ _⟩
  · have hroom : ¬ (s.within limits').limits.tokenCount ≤ (s.within limits').given := by
      change ¬ limits'.tokenCount ≤ s.given
      omega
    rw [next, if_neg hgiven, next, if_neg hroom, skipSpaces_within]
    apply step_within
    rw [limits_skipSpaces]
    exact h

end Cursor

namespace Buffered

/-- A feed within limits, and the same feed within others that allow more. -/
def widened (limits limits' : Limits) : Comparison Buffered Buffered where
  Rel _ f g := f.cursor.limits = limits ∧ g = { f with cursor := f.cursor.within limits' }
  Stop _ _ := True
  Cut := ParseError.IsLimit

theorem widened_answer {limits limits' : Limits} (h : limits ≤ limits') {f : Buffered}
    (hf : f.cursor.limits = limits) {Next : Token → Buffered → Buffered → Prop}
    (hnext : ∀ t f', f'.cursor.limits = limits →
      Next t f' { f' with cursor := f'.cursor.within limits' }) :
    (widened limits limits').Answer Next (TokenFeed.next f)
      (TokenFeed.next { f with cursor := f.cursor.within limits' }) := by
  obtain ⟨pending, cursor⟩ := f
  cases pending with
  | cons t pending => exact .ok (hnext t ⟨pending, cursor⟩ hf)
  | nil =>
    change (widened limits limits').Answer Next
      (cursor.next.1, ⟨[], cursor.next.2⟩)
      ((cursor.within limits').next.1, ⟨[], (cursor.within limits').next.2⟩)
    have hlimits : cursor.next.2.limits = limits := cursor.limits_next.trans hf
    have hle : cursor.limits ≤ limits' := hf ▸ h
    rcases Cursor.next_within hle with ⟨e, hanswer, he⟩ | hsame
    · rw [hanswer]
      exact .cut (.lexical he)
    · rw [hsame]
      cases hanswer : cursor.next.1 with
      | error e => exact .error trivial
      | ok t => exact .ok (hnext t ⟨[], cursor.next.2⟩ hlimits)

def widenedSimulation {limits limits' : Limits} (h : limits ≤ limits') :
    Simulation Buffered Buffered where
  toComparison := widened limits limits'
  stop _ := trivial
  advance := by
    rintro t f g ⟨hf, rfl⟩ -
    exact widened_answer h hf fun _ _ hf' => ⟨hf', rfl⟩
  enter := by
    rintro t f g ⟨hf, rfl⟩ -
    exact widened_answer (f := TokenFeed.setMode .block f) h hf fun _ _ hf' => ⟨hf', rfl⟩
  leave := by
    rintro t f g ⟨hf, rfl⟩ -
    exact widened_answer (f := TokenFeed.setMode .literal f) h hf fun _ _ hf' => ⟨hf', rfl⟩
  lookahead := by
    rintro t f g ⟨hf, rfl⟩ -
    exact widened_answer (f := TokenFeed.setMode .block f) h hf fun _ _ hf' => ⟨hf', rfl⟩

/-- A feed that is read without meeting a limit is read alike within limits that allow more. -/
theorem parseFeed_widened {limits limits' : Limits} (h : limits ≤ limits') {feed : Buffered}
    (hfeed : feed.cursor.limits = limits) :
    (∃ e, parseFeed limits.expressionDepth feed = .error e ∧ e.IsLimit) ∨
      parseFeed limits'.expressionDepth { feed with cursor := feed.cursor.within limits' } =
        parseFeed limits.expressionDepth feed := by
  have hanswer : (widened limits limits').Answer (widened limits limits').Rel
      (TokenFeed.next feed)
      (TokenFeed.next { feed with cursor := feed.cursor.within limits' }) :=
    widened_answer h hfeed fun _ _ hf' => ⟨hf', rfl⟩
  have hdepth : limits.expressionDepth ≤ limits'.expressionDepth := h .expressionDepth
  have hbudget : (widenedSimulation h).Budget limits.expressionDepth limits.expressionDepth
      limits'.expressionDepth limits'.expressionDepth :=
    .inr ⟨hdepth, fun t => .tooDeep _ t⟩
  exact Simulation.parseFeed_agree hbudget hanswer

end Buffered

theorem parse_widened {limits limits' : Limits} (h : limits ≤ limits') (source : String) :
    (∃ e, parse limits source = .error e ∧ e.IsLimit) ∨
      parse limits' source = parse limits source := by
  have hsize : limits.inputSize ≤ limits'.inputSize := h .inputSize
  unfold parse Cursor.ofSource
  by_cases hlarge : limits.inputSize < source.utf8ByteSize
  · left
    rw [if_pos hlarge]
    exact ⟨_, rfl, .lexical (.inputTooLarge _ _)⟩
  · have hfits : ¬ limits'.inputSize < source.utf8ByteSize := by omega
    rw [if_neg hlarge, if_neg hfits]
    let feed : Buffered := { cursor := { limits, rest := joinLineEnds [] source.toList } }
    have hfeed : feed.cursor.limits = limits := rfl
    exact Buffered.parseFeed_widened h hfeed

/-- Limits only cut a reading short: a source that meets none of them is read alike within limits
that allow more. -/
theorem parse_of_le {limits limits' : Limits} (h : limits ≤ limits') (source : String) :
    ((∃ e, parse limits source = .error e ∧ e.IsLimit) ∨
      parse limits' source = parse limits source) ∧
      ∀ template, Template.compile limits source = .ok template →
        Template.compile limits' source = .ok template := by
  have hparse := parse_widened h source
  refine ⟨hparse, fun template hcompile => ?_⟩
  unfold Template.compile at hcompile ⊢
  rcases hparse with ⟨e, herror, -⟩ | hsame
  · rw [herror] at hcompile
    cases hcompile
  · rw [hsame]
    exact hcompile

/-- Limits to which a short template just keeps. -/
def narrowLimits : Limits where
  inputSize := 13
  tokenCount := 8
  identifierLength := 1
  expressionDepth := 2

/-- A template compiles within these limits, and so within the usual ones; another source fails
alike, as no limit has a part in it. -/
theorem narrowLimits_parse_of_le :
    narrowLimits ≤ {} ∧
      (∃ template, Template.compile narrowLimits "\x7b\x7b (x) + 1 \x7d\x7d" = .ok template ∧
        Template.compile {} "\x7b\x7b (x) + 1 \x7d\x7d" = .ok template) ∧
      parse {} "\x7b\x7b (x \x7d\x7d" =
        .error (.syntactic ⟨.unexpected (.token .rightParen), ⟨.closeBlock, "\x7d\x7d", 1, 7⟩⟩) := by
  have hle : narrowLimits ≤ {} := by
    intro limit
    cases limit <;> decide
  refine ⟨hle, ?_, ?_⟩
  · have hok : (Template.compile narrowLimits "\x7b\x7b (x) + 1 \x7d\x7d").isOk = true := by
      decide +kernel
    cases hcompile : Template.compile narrowLimits "\x7b\x7b (x) + 1 \x7d\x7d" with
    | error e =>
      rw [hcompile] at hok
      cases hok
    | ok template => exact ⟨template, rfl, (parse_of_le hle _).2 template hcompile⟩
  · have hfail : parse narrowLimits "\x7b\x7b (x \x7d\x7d" = .error (.syntactic
        ⟨.unexpected (.token .rightParen), ⟨.closeBlock, "\x7d\x7d", 1, 7⟩⟩) := by
      with_unfolding_all rfl
    rcases (parse_of_le hle "\x7b\x7b (x \x7d\x7d").1 with ⟨e, herror, he⟩ | hsame
    · rw [hfail] at herror
      cases herror
      cases he
    · rw [hsame, hfail]

end Stencil
