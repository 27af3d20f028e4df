import Stencil.Proofs.Parse.Simulation
import Stencil.Proofs.Token.Lexed

/-! Reading a template while it is cut, against reading tokens that were all cut in advance. The
mode that the reader sets is at each token the one that the doubled braces before it ask for. -/
namespace Stencil

/-- Reads a template off tokens that a cursor has cut in advance, switching itself. -/
def parseAhead (limits : Limits) (source : String) : Except ParseError Document :=
  match Cursor.ofSource limits source with
  | .ok cursor => parseFeed limits.expressionDepth cursor.lex
  | .error e => .error (.lexical e)

/-- A feed with all that its cursor has answered, the last answer first. -/
structure Recorded where
  feed : Buffered
  answers : List (Except LexError Token) := []

namespace Recorded

/-- A token that was returned to the feed is not an answer of the cursor. -/
def next (r : Recorded) : Except LexError Token × Recorded :=
  (r.feed.next.1, {
    feed := r.feed.next.2
    answers := if r.feed.pending.isEmpty then r.feed.next.1 :: r.answers else r.answers })

instance : TokenFeed Recorded where
  size r := size r.feed
  next := next
  unread t r := { r with feed := r.feed.unread t }
  setMode mode r := { r with feed := r.feed.setMode mode }
  size_next_le r := TokenFeed.size_next_le r.feed
  weight_add_size_next_le {r _} ok := TokenFeed.weight_add_size_next_le (s := r.feed) ok
  size_unread_le t r := TokenFeed.size_unread_le t r.feed
  size_setMode_le mode r := TokenFeed.size_setMode_le mode r.feed

end Recorded

instance : LawfulTokenFeed Buffered := ⟨fun _ _ => rfl⟩

instance : LawfulTokenFeed Recorded := ⟨fun _ _ => rfl⟩

/-- Reads a template, and tells all that its cursor has answered, in order. -/
def parseRecorded (limits : Limits) (source : String) :
    Except ParseError Document × List (Except LexError Token) :=
  match Cursor.ofSource limits source with
  | .error e => (.error (.lexical e), [])
  | .ok cursor =>
    match TokenFeed.next ({ feed := { cursor } } : Recorded) with
    | (.error e, r) => (.error (.lexical e), r.answers.reverse)
    | (.ok t, r) =>
      let (result, s) := (Parser.document limits.expressionDepth).run ⟨t, r⟩
      (result, s.feed.answers.reverse)

/-- All answers of a cursor that runs through a source by itself, in order. -/
def scannedAhead (limits : Limits) (source : String) : List (Except LexError Token) :=
  match Cursor.ofSource limits source with
  | .error _ => []
  | .ok cursor => cursor.lex.answers

namespace Recorded

/-- A feed and the same feed with a record. -/
def unrecorded : Comparison Buffered Recorded where
  Rel _ f r := f = r.feed
  Stop _ _ := True
  Cut _ := False

theorem unrecorded_answer {Next : Token → Buffered → Recorded → Prop} (r : Recorded)
    (h : ∀ t r', Next t r'.feed r') :
    unrecorded.Answer Next (TokenFeed.next r.feed) (TokenFeed.next r) := by
  have hnext : TokenFeed.next r = ((TokenFeed.next r.feed).1, r.next.2) := rfl
  have hfeed : r.next.2.feed = (TokenFeed.next r.feed).2 := rfl
  rw [hnext]
  rcases hr : TokenFeed.next r.feed with ⟨e | t, f⟩
  · exact .error trivial
  · rw [hr] at hfeed
    dsimp only at hfeed
    subst hfeed
    exact .ok (h t r.next.2)

def unrecordedSimulation : Simulation Buffered Recorded where
  toComparison := unrecorded
  stop _ := trivial
  advance := fun {_ _ g} h _ => by
    cases h
    exact unrecorded_answer g fun _ _ => rfl
  enter := fun {_ _ g} h _ => by
    cases h
    exact unrecorded_answer (TokenFeed.setMode .block g) fun _ _ => rfl
  leave := fun {_ _ g} h _ => by
    cases h
    exact unrecorded_answer (TokenFeed.setMode .literal g) fun _ _ => rfl
  lookahead := fun {_ _ g} h _ => by
    cases h
    exact unrecorded_answer (TokenFeed.setMode .block g) fun _ _ => rfl

variable {all answers : List (Except LexError Token)}

/-- What is left behind a token of all that a cursor gives: nothing behind the end of the text. -/
def Upcoming (all : List (Except LexError Token)) (t : Token) (c : Cursor)
    (answers : List (Except LexError Token)) (l : Lexed) : Prop :=
  if t.kind = .endOfFile then answers.reverse = all
  else l = (c.switch t).lex ∧ answers.reverse ++ l.answers = all

theorem Upcoming.of_ne {t : Token} {c : Cursor} {l : Lexed} (h : Upcoming all t c answers l)
    (hend : t.kind ≠ .endOfFile) :
    l = (c.switch t).lex ∧ answers.reverse ++ l.answers = all := by
  rwa [Upcoming, if_neg hend] at h

theorem Upcoming.isPrefix {t : Token} {c : Cursor} {l : Lexed} (h : Upcoming all t c answers l) :
    answers.reverse <+: all := by
  by_cases hend : t.kind = .endOfFile
  · rw [Upcoming, if_pos hend] at h
    exact ⟨[], by rw [List.append_nil, h]⟩
  · exact ⟨l.answers, (h.of_ne hend).2⟩

/-- A cursor and its own tokens go on alike. -/
theorem next_lex {c : Cursor} (hall : answers.reverse ++ c.lex.answers = all) :
    ∃ a c' l', c.next = (a, c') ∧ c.lex.next = (a, l') ∧ c'.mode = c.mode ∧
      (a :: answers).reverse <+: all ∧ ∀ t, a = .ok t → Upcoming all t c' (a :: answers) l' := by
  have hmode : c.next.2.mode = c.mode := c.mode_next
  rcases hnext : c.next with ⟨e | t, c'⟩
  · obtain ⟨htokens, hlast⟩ := Cursor.lex_of_error hnext
    rw [Lexed.answers, htokens, hlast] at hall
    refine ⟨_, _, c.lex, rfl, ?_, by rw [hnext] at hmode; exact hmode, ?_, fun t h => by cases h⟩
    · rw [Lexed.next_of_nil htokens, hlast]
    · rw [List.reverse_cons, ← hall]
      exact List.prefix_refl _
  · by_cases hend : t.kind = .endOfFile
    · obtain ⟨htokens, hlast⟩ := Cursor.lex_of_end hnext hend
      rw [Lexed.answers, htokens, hlast] at hall
      have hdone : (.ok t :: answers : List (Except LexError Token)).reverse = all := by
        rw [List.reverse_cons]
        exact hall
      refine ⟨_, _, c.lex, rfl, ?_, by rw [hnext] at hmode; exact hmode, ?_, fun t' h => ?_⟩
      · rw [Lexed.next_of_nil htokens, hlast]
      · exact ⟨[], by rw [List.append_nil, hdone]⟩
      · cases h
        rw [Upcoming, if_pos hend]
        exact hdone
    · have hlex := Cursor.lex_of_ok hnext hend
      rw [hlex] at hall
      have hsplit : (.ok t :: answers : List (Except LexError Token)).reverse ++
          (c'.switch t).lex.answers = all := by
        rw [List.reverse_cons, List.append_assoc]
        exact hall
      refine ⟨_, _, (c'.switch t).lex, rfl, by rw [hlex]; rfl, by rw [hnext] at hmode; exact hmode,
        ⟨_, hsplit⟩, fun t' h => ?_⟩
      cases h
      rw [Upcoming, if_neg hend]
      exact ⟨rfl, hsplit⟩

/-- A feed that the reader switches, and what its cursor gives when it switches itself. A token
waits in the feed only behind opening braces, and was cut as inside the block. -/
def switched (all : List (Except LexError Token)) : Comparison Recorded Lexed where
  Rel t r l :=
    (r.feed.pending = [] ∧ Upcoming all t r.feed.cursor r.answers l) ∨
    (t.kind = .openBlock ∧ ∃ x l', r.feed.pending = [x] ∧ l = l'.unread x ∧
      Upcoming all x (r.feed.cursor.setMode .block) r.answers l')
  Stop r _ := r.answers.reverse <+: all
  Cut _ := False

theorem switched_answer {Next : Token → Recorded → Lexed → Prop} {c : Cursor}
    (hall : answers.reverse ++ c.lex.answers = all)
    (h : ∀ t c' l', c'.mode = c.mode → Upcoming all t c' (.ok t :: answers) l' →
      Next t ⟨⟨[], c'⟩, .ok t :: answers⟩ l') :
    (switched all).Answer Next (TokenFeed.next (⟨⟨[], c⟩, answers⟩ : Recorded))
      (TokenFeed.next c.lex) := by
  obtain ⟨a, c', l', hc, hl, hmode, hprefix, hahead⟩ := next_lex hall
  have hr : TokenFeed.next (⟨⟨[], c⟩, answers⟩ : Recorded) = (a, ⟨⟨[], c'⟩, a :: answers⟩) := by
    change Recorded.next _ = _
    unfold Recorded.next Buffered.next
    dsimp only
    rw [hc]
    rfl
  have hl' : TokenFeed.next c.lex = (a, l') := hl
  rw [hr, hl']
  cases a with
  | error e => exact .error hprefix
  | ok t => exact .ok (h t c' l' hmode (hahead t rfl))

theorem switched_answer_pending {Next : Token → Recorded → Lexed → Prop} {c : Cursor} {x : Token}
    {l : Lexed} (h : Next x ⟨⟨[], c⟩, answers⟩ l) :
    (switched all).Answer Next (TokenFeed.next (⟨⟨[x], c⟩, answers⟩ : Recorded))
      (TokenFeed.next (l.unread x)) :=
  .ok h

theorem Upcoming.rel {t : Token} {c : Cursor} {l : Lexed} (h : Upcoming all t c answers l) :
    (switched all).Rel t ⟨⟨[], c⟩, answers⟩ l :=
  .inl ⟨rfl, h⟩

theorem Upcoming.rel_pending {t x : Token} {c : Cursor} {l : Lexed}
    (h : Upcoming all x (c.setMode .block) answers l) (hk : t.kind = .openBlock) :
    (switched all).Rel t ⟨⟨[x], c⟩, answers⟩ (l.unread x) :=
  .inr ⟨hk, x, l, rfl, rfl, h⟩

theorem switched_cases {t : Token} {r : Recorded} {l : Lexed} (h : (switched all).Rel t r l) :
    (∃ c answers, r = ⟨⟨[], c⟩, answers⟩ ∧ Upcoming all t c answers l) ∨
      ∃ c answers x l', r = ⟨⟨[x], c⟩, answers⟩ ∧ t.kind = .openBlock ∧ l = l'.unread x ∧
        Upcoming all x (c.setMode .block) answers l' := by
  obtain ⟨⟨pending, c⟩, answers⟩ := r
  rcases h with ⟨rfl, hup⟩ | ⟨hk, x, l', rfl, hl, hup⟩
  · exact .inl ⟨c, answers, rfl, hup⟩
  · exact .inr ⟨c, answers, x, l', rfl, hk, hl, hup⟩

def switchedSimulation (all : List (Except LexError Token)) : Simulation Recorded Lexed where
  toComparison := switched all
  stop h := by
    obtain ⟨c, answers, rfl, hup⟩ | ⟨c, answers, x, l', rfl, -, -, hup⟩ := switched_cases h
    · exact hup.isPrefix
    · exact hup.isPrefix
  advance h hplain := by
    obtain ⟨ho, hc, hend⟩ := hplain
    obtain ⟨c, answers, rfl, hup⟩ | ⟨-, -, -, -, -, hk, -, -⟩ := switched_cases h
    · obtain ⟨rfl, hall⟩ := hup.of_ne hend
      rw [Cursor.switch_of_plain ho hc] at hall ⊢
      exact switched_answer hall fun _ _ _ _ => Upcoming.rel
    · contradiction
  enter {t _ _} h hk := by
    obtain ⟨c, answers, rfl, hup⟩ | ⟨c, answers, x, l', rfl, -, rfl, hup⟩ := switched_cases h
    · obtain ⟨rfl, hall⟩ := hup.of_ne (by simp [hk])
      have hswitch : c.switch t = c.setMode .block := by rw [Cursor.switch, hk, Mode.after]
      rw [hswitch] at hall ⊢
      exact switched_answer hall fun _ _ _ _ => Upcoming.rel
    · exact switched_answer_pending hup.rel
  leave {t _ _} h hk := by
    obtain ⟨c, answers, rfl, hup⟩ | ⟨-, -, -, -, -, hopen, -, -⟩ := switched_cases h
    · obtain ⟨rfl, hall⟩ := hup.of_ne (by simp [hk])
      have hswitch : c.switch t = c.setMode .literal := by rw [Cursor.switch, hk, Mode.after]
      rw [hswitch] at hall ⊢
      exact switched_answer hall fun _ _ _ _ => Upcoming.rel
    · rw [hk] at hopen
      contradiction
  lookahead {t _ _} h hk := by
    obtain ⟨c, answers, rfl, hup⟩ | ⟨c, answers, x, l', rfl, -, rfl, hup⟩ := switched_cases h
    · obtain ⟨rfl, hall⟩ := hup.of_ne (by simp [hk])
      have hswitch : c.switch t = c.setMode .block := by rw [Cursor.switch, hk, Mode.after]
      rw [hswitch] at hall ⊢
      refine switched_answer hall fun x c' l' hmode hup => ?_
      -- the cursor has cut the token in block mode, and goes on in that mode behind it
      have hblock : (c'.setMode .literal).setMode .block = c' := by
        rw [Cursor.setMode_setMode, ← show c'.mode = .block from hmode, Cursor.setMode_mode]
      rw [← hblock] at hup
      exact hup.rel_pending hk
    · exact switched_answer_pending (Upcoming.rel_pending hup hk)

end Recorded

open Recorded in
theorem parseRecorded_result (limits : Limits) (source : String) :
    (parseRecorded limits source).1 = parse limits source := by
  unfold parse parseRecorded parseFeed
  cases Cursor.ofSource limits source with
  | error e => rfl
  | ok cursor =>
    have hanswer : unrecorded.Answer unrecorded.Rel (TokenFeed.next (⟨[], cursor⟩ : Buffered))
        (TokenFeed.next (⟨⟨[], cursor⟩, []⟩ : Recorded)) :=
      unrecorded_answer ⟨⟨[], cursor⟩, []⟩ fun _ _ => rfl
    dsimp only
    generalize TokenFeed.next (⟨[], cursor⟩ : Buffered) = b at hanswer ⊢
    generalize TokenFeed.next (⟨⟨[], cursor⟩, []⟩ : Recorded) = r at hanswer ⊢
    cases hanswer with
    | ok h =>
      have hrun := unrecordedSimulation.document_agree (.refl limits.expressionDepth _) h
      exact (hrun.result id).symm
    | error _ => rfl
    | cut hcut => exact hcut.elim

open Recorded in
theorem parseRecorded_ahead (limits : Limits) (source : String) :
    (parseRecorded limits source).1 = parseAhead limits source ∧
      (parseRecorded limits source).2 <+: scannedAhead limits source := by
  unfold parseAhead parseRecorded parseFeed scannedAhead
  cases Cursor.ofSource limits source with
  | error e => exact ⟨rfl, List.prefix_refl _⟩
  | ok cursor =>
    have hanswer : (switched cursor.lex.answers).Answer (switched cursor.lex.answers).Rel
        (TokenFeed.next (⟨⟨[], cursor⟩, []⟩ : Recorded)) (TokenFeed.next cursor.lex) :=
      switched_answer rfl fun _ _ _ _ => Upcoming.rel
    dsimp only
    generalize TokenFeed.next (⟨⟨[], cursor⟩, []⟩ : Recorded) = r at hanswer ⊢
    generalize TokenFeed.next cursor.lex = l at hanswer ⊢
    cases hanswer with
    | ok h =>
      have hrun := (switchedSimulation _).document_agree (.refl limits.expressionDepth _) h
      exact ⟨hrun.result id, hrun.stop (switchedSimulation _).stop id⟩
    | error hprefix => exact ⟨rfl, hprefix⟩
    | cut hcut => exact hcut.elim

/-- The modes that the reader sets do not matter beyond those that the doubled braces ask for:
tokens may as well be cut in advance. -/
theorem parse_eq_parseAhead (limits : Limits) (source : String) :
    parse limits source = parseAhead limits source ∧
      (parseRecorded limits source).1 = parse limits source ∧
      (parseRecorded limits source).2 <+: scannedAhead limits source := by
  have hresult := parseRecorded_result limits source
  obtain ⟨hahead, hprefix⟩ := parseRecorded_ahead limits source
  exact ⟨hresult.symm.trans hahead, hresult, hprefix⟩

end Stencil
