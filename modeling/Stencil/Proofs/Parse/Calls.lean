import Mathlib.Data.String.Basic
import Stencil.Proofs.Parse.Ahead
import Stencil.Proofs.Token.Reads

/-! What a reading asks of its cursor. Every call but the last gives a token that takes part of the
text, so that there are no more calls than bytes, and one. -/
namespace Stencil

open String (utf8Len)

/-- A recorded feed with the greatest number of tokens that have waited in it. -/
structure Watched where
  recorded : Recorded
  mostWaiting : Nat := 0

namespace Watched

def next (w : Watched) : Except LexError Token × Watched :=
  ((TokenFeed.next w.recorded).1, { w with recorded := (TokenFeed.next w.recorded).2 })

def unread (t : Token) (w : Watched) : Watched where
  recorded := TokenFeed.unread t w.recorded
  mostWaiting := max w.mostWaiting (TokenFeed.unread t w.recorded).feed.pending.length

instance : TokenFeed Watched where
  size w := size w.recorded
  next := next
  unread := unread
  setMode mode w := { w with recorded := TokenFeed.setMode mode w.recorded }
  size_next_le w := TokenFeed.size_next_le w.recorded
  weight_add_size_next_le {w _} ok := TokenFeed.weight_add_size_next_le (s := w.recorded) ok
  size_unread_le t w := TokenFeed.size_unread_le t w.recorded
  size_setMode_le mode w := TokenFeed.size_setMode_le mode w.recorded

end Watched

/-- A reading and what it took: all answers of its cursor, in order, and the greatest number of
tokens that were returned and not yet asked for again. -/
structure Reading where
  result : Except ParseError Document
  answers : List (Except LexError Token) := []
  mostWaiting : Nat := 0

/-- Reads a template, and tells what it took. -/
def parseWatched (limits : Limits) (source : String) : Reading :=
  match Cursor.ofSource limits source with
  | .error e => { result := .error (.lexical e) }
  | .ok cursor =>
    match TokenFeed.next ({ recorded := { feed := { cursor } } } : Watched) with
    | (.error e, w) => ⟨.error (.lexical e), w.recorded.answers.reverse, w.mostWaiting⟩
    | (.ok t, w) =>
      let (result, s) := (Parser.document limits.expressionDepth).run ⟨t, w⟩
      ⟨result, s.feed.recorded.answers.reverse, s.feed.mostWaiting⟩

namespace Watched

/-- A feed and the same feed watched. A token waits only behind opening braces, and alone. -/
def unwatched : Comparison Recorded Watched where
  Rel t r w := w.recorded = r ∧ w.mostWaiting ≤ 1 ∧
    (r.feed.pending = [] ∨ t.kind = .openBlock ∧ r.feed.pending.length = 1)
  Stop r w := w.recorded = r ∧ w.mostWaiting ≤ 1
  Cut _ := False

/-- If at most one token waits, none does behind the next one. -/
theorem unwatched_answer {Next : Token → Recorded → Watched → Prop} (w : Watched)
    (hmost : w.mostWaiting ≤ 1) (hpending : w.recorded.feed.pending.length ≤ 1)
    (h : ∀ t r, r.feed.pending = [] → Next t r ⟨r, w.mostWaiting⟩) :
    unwatched.Answer Next (TokenFeed.next w.recorded) (TokenFeed.next w) := by
  have hnone : (TokenFeed.next w.recorded).2.feed.pending = [] := by
    obtain ⟨⟨⟨pending, cursor⟩, answers⟩, most⟩ := w
    cases pending with
    | nil => rfl
    | cons t pending =>
      have hlength : pending.length = 0 := Nat.le_zero.1 (Nat.le_of_succ_le_succ hpending)
      exact List.length_eq_zero_iff.1 hlength
  have hnext : TokenFeed.next w =
      ((TokenFeed.next w.recorded).1, ⟨(TokenFeed.next w.recorded).2, w.mostWaiting⟩) := rfl
  rw [hnext]
  rcases hr : TokenFeed.next w.recorded with ⟨e | t, r⟩
  · exact .error ⟨rfl, hmost⟩
  · rw [hr] at hnone
    exact .ok (h t r hnone)

theorem length_pending_le {t : Token} {r : Recorded} {w : Watched} (h : unwatched.Rel t r w) :
    r.feed.pending.length ≤ 1 := by
  rcases h.2.2 with hnone | ⟨-, hone⟩
  · simp [hnone]
  · exact Nat.le_of_eq hone

def unwatchedSimulation : Simulation Recorded Watched where
  toComparison := unwatched
  stop h := ⟨h.1, h.2.1⟩
  advance {_ _ w} h _ := by
    have hpending := length_pending_le h
    obtain ⟨rfl, hmost, -⟩ := h
    exact unwatched_answer w hmost hpending fun _ _ hnone => ⟨rfl, hmost, .inl hnone⟩
  enter {_ _ w} h _ := by
    have hpending := length_pending_le h
    obtain ⟨rfl, hmost, -⟩ := h
    exact unwatched_answer (TokenFeed.setMode .block w) hmost hpending
      fun _ _ hnone => ⟨rfl, hmost, .inl hnone⟩
  leave {_ _ w} h _ := by
    have hpending := length_pending_le h
    obtain ⟨rfl, hmost, -⟩ := h
    exact unwatched_answer (TokenFeed.setMode .literal w) hmost hpending
      fun _ _ hnone => ⟨rfl, hmost, .inl hnone⟩
  lookahead {_ _ w} h hk := by
    have hpending := length_pending_le h
    obtain ⟨rfl, hmost, -⟩ := h
    refine unwatched_answer (TokenFeed.setMode .block w) hmost hpending fun inside r hnone => ?_
    have hone : (TokenFeed.unread inside r).feed.pending.length = 1 :=
      congrArg (fun pending => (inside :: pending).length) hnone
    exact ⟨rfl, Nat.max_le.2 ⟨hmost, Nat.le_of_eq hone⟩, .inr ⟨hk, hone⟩⟩

end Watched

open Watched in
/-- To watch a reading does not change it, and no two tokens wait at once. -/
theorem parseWatched_recorded (limits : Limits) (source : String) :
    (parseWatched limits source).result = (parseRecorded limits source).1 ∧
      (parseWatched limits source).answers = (parseRecorded limits source).2 ∧
      (parseWatched limits source).mostWaiting ≤ 1 := by
  unfold parseWatched parseRecorded
  cases Cursor.ofSource limits source with
  | error e => exact ⟨rfl, rfl, Nat.zero_le 1⟩
  | ok cursor =>
    have hanswer : unwatched.Answer unwatched.Rel
        (TokenFeed.next ({ feed := { cursor } } : Recorded))
        (TokenFeed.next ({ recorded := { feed := { cursor } } } : Watched)) :=
      unwatched_answer { recorded := { feed := { cursor } } } (Nat.zero_le 1) (Nat.zero_le 1)
        fun _ _ hnone => ⟨rfl, Nat.zero_le 1, .inl hnone⟩
    dsimp only
    generalize TokenFeed.next ({ feed := { cursor } } : Recorded) = r at hanswer ⊢
    generalize TokenFeed.next ({ recorded := { feed := { cursor } } } : Watched) = w at hanswer ⊢
    cases hanswer with
    | ok h =>
      have hrun := unwatchedSimulation.document_agree (.refl limits.expressionDepth _) h
      obtain ⟨hsame, hmost⟩ := hrun.stop unwatchedSimulation.stop id
      have hanswers := congrArg (fun r : Recorded => r.answers.reverse) hsame
      exact ⟨(hrun.result id).symm, hanswers, hmost⟩
    | error h =>
      obtain ⟨hsame, hmost⟩ := h
      exact ⟨rfl, by rw [← hsame], hmost⟩
    | cut hcut => exact hcut.elim

/-- Every token but the end of the text takes a character. -/
theorem Cursor.length_lex_le (s : Cursor) : s.lex.tokens.length ≤ s.rest.length := by
  generalize htokens : s.lex.tokens = tokens
  induction tokens generalizing s with
  | nil => exact Nat.zero_le _
  | cons t tokens ih =>
    obtain ⟨s', hnext, hend, htokens', -⟩ := next_of_lex_cons htokens
    have hless := s.weight_add_size_next_le (by rw [hnext])
    rw [hnext, Token.weight, if_neg hend] at hless
    have hrest : tokens.length ≤ s'.rest.length := ih (s'.switch t) htokens'
    have hsize : 1 + s'.rest.length ≤ s.rest.length := hless
    rw [List.length_cons]
    omega

theorem length_le_utf8Len (cs : List Char) : cs.length ≤ utf8Len cs := by
  induction cs with
  | nil => exact Nat.le_refl 0
  | cons c cs ih => exact Nat.add_le_add ih c.utf8Size_pos

/-- A cursor that runs by itself stops at the first answer that is no token or the end of the text. -/
theorem scannedAhead_cases (limits : Limits) (source : String) :
    scannedAhead limits source = [] ∨ ∃ (tokens : List Token) (last : Except LexError Token),
      scannedAhead limits source = tokens.map .ok ++ [last] ∧
        (∀ t ∈ tokens, t.kind ≠ .endOfFile) ∧
        tokens.length ≤ utf8Len (joinLineEnds [] source.toList) := by
  unfold scannedAhead
  cases hcursor : Cursor.ofSource limits source with
  | error e => exact .inl rfl
  | ok cursor =>
    right
    obtain ⟨-, rfl⟩ := Cursor.ofSource_ok_iff.1 hcursor
    exact ⟨_, _, rfl, fun t => Cursor.kind_of_mem_lex,
      Nat.le_trans (Cursor.length_lex_le _) (length_le_utf8Len _)⟩

section Ahead

variable {limits : Limits} {source : String} {answers : List (Except LexError Token)}

theorem length_le_of_ahead (h : answers <+: scannedAhead limits source) :
    answers.length ≤ utf8Len (joinLineEnds [] source.toList) + 1 := by
  have hlength := h.length_le
  rcases scannedAhead_cases limits source with hnil | ⟨tokens, last, hall, -, hbytes⟩
  · rw [hnil] at hlength
    exact Nat.le_trans hlength (Nat.zero_le _)
  · rw [hall, List.length_append, List.length_map, List.length_singleton] at hlength
    omega

/-- Only a token that does not end the text has another answer behind it. -/
theorem exists_token_of_ahead {front back : List (Except LexError Token)}
    {answer next : Except LexError Token}
    (h : front ++ answer :: next :: back <+: scannedAhead limits source) :
    ∃ t, answer = .ok t ∧ t.kind ≠ .endOfFile := by
  obtain ⟨more, hmore⟩ := h
  rcases scannedAhead_cases limits source with hnil | ⟨tokens, last, hall, hproper, -⟩
  · rw [hnil] at hmore
    simp at hmore
  · rw [hall, List.append_assoc, List.cons_append, List.cons_append] at hmore
    have hfirst := congrArg List.dropLast hmore
    rw [List.dropLast_append_of_ne_nil (by simp), List.dropLast_cons_of_ne_nil (by simp),
      List.dropLast_concat] at hfirst
    have hmem : answer ∈ tokens.map .ok := by
      rw [← hfirst]
      simp
    obtain ⟨t, ht, hanswer⟩ := List.mem_map.1 hmem
    exact ⟨t, hanswer.symm, hproper t ht⟩

end Ahead

/-- A reading asks its cursor at most once more than the text has bytes, never behind the end or a
failure, and never has two tokens waiting. -/
theorem parse_calls (limits : Limits) (source : String) :
    let reading := parseWatched limits source
    reading.result = parse limits source ∧
      reading.answers.length ≤ utf8Len (joinLineEnds [] source.toList) + 1 ∧
      (∀ front answer next back, reading.answers = front ++ answer :: next :: back →
        ∃ t, answer = .ok t ∧ t.kind ≠ .endOfFile) ∧
      reading.mostWaiting ≤ 1 := by
  intro reading
  obtain ⟨hresult, hanswers, hmost⟩ := parseWatched_recorded limits source
  obtain ⟨-, hsame, hinitial⟩ := parse_eq_parseAhead limits source
  have hahead : reading.answers <+: scannedAhead limits source := hanswers ▸ hinitial
  refine ⟨hresult.trans hsame, length_le_of_ahead hahead, ?_, hmost⟩
  intro front answer next back hsplit
  exact exists_token_of_ahead (hsplit ▸ hahead)

end Stencil
