import Stencil.Proofs.Document.Words
import Stencil.Proofs.Token.Scan

/-! Scanning the inside of a block. It gives the tokens of the words one by one, whatever blanks
stand around them, as long as words that would merge are kept apart. -/
namespace Stencil

/-- Visible characters that are one word: no separator and no delimiter is among them. -/
structure Run where
  chars : List Char
  ne_nil : chars ≠ []
  visible : chars.all (fun c => isGraphic c && !isSeparator c) = true
  plain : Undelimited chars

inductive Word
  | separator (c : Char) (h : isSeparator c = true)
  | openBlock
  | closeBlock
  | newline
  | run (run : Run)

namespace Word

def lexeme : Word → Lexeme
  | separator c _ => .run [c]
  | openBlock => .openBlock
  | closeBlock => .closeBlock
  | newline => .newline
  | run r => .run r.chars

def chars (w : Word) : List Char := w.lexeme.chars

def text (w : Word) : String := .ofList w.chars

/-- The two are cut in another way if no blank stands between them. -/
def Merges : Word → Word → Prop
  | run _, run _ => True
  | run r, openBlock => r.chars.getLast? = some '{'
  | run r, closeBlock => r.chars.getLast? = some '}'
  | _, _ => False

instance : (v w : Word) → Decidable (v.Merges w)
  | run _, run _ => inferInstanceAs (Decidable True)
  | run r, openBlock => inferInstanceAs (Decidable (r.chars.getLast? = some '{'))
  | run r, closeBlock => inferInstanceAs (Decidable (r.chars.getLast? = some '}'))
  | run _, separator _ _ | run _, newline => inferInstanceAs (Decidable False)
  | separator _ _, _ | openBlock, _ | closeBlock, _ | newline, _ =>
    inferInstanceAs (Decidable False)

/-- An integer that is greater than any 64-bit one. -/
def TooGreat : Word → Prop
  | run r => r.chars.all Char.isDigit = true ∧
      Int64.maxValue.toInt < Decimal.digitsValue r.chars
  | _ => False

instance : (w : Word) → Decidable w.TooGreat
  | run _ => inferInstanceAs (Decidable (_ ∧ _))
  | separator _ _ | openBlock | closeBlock | newline => inferInstanceAs (Decidable False)

end Word

/-- A word with the blanks in front of it. -/
structure Piece where
  blanks : List Char
  word : Word
  isSpace : blanks.all isSpace = true

def Piece.chars (p : Piece) : List Char := p.blanks ++ p.word.chars

/-- Words that would merge have blanks between them. -/
def Separated (pieces : List Piece) : Prop :=
  pieces.IsChain fun p q => p.word.Merges q.word → q.blanks ≠ []

instance (pieces : List Piece) : Decidable (Separated pieces) :=
  inferInstanceAs (Decidable (List.IsChain _ _))

variable {limits : Limits} {p : Piece} {pieces : List Piece} {blanks rest : List Char} {w : Word}
  {c : Char} {t : Token}

theorem eq_of_isSeparator (h : isSeparator c = true) : c = '(' ∨ c = ')' ∨ c = ',' := by
  simpa [isSeparator, or_assoc] using h

theorem isGraphic_eq_false_of_isSpace (h : isSpace c = true) : isGraphic c = false := by
  refine Bool.eq_false_iff.2 fun hgraphic => ?_
  rw [isSpace_eq_false_of_isGraphic hgraphic] at h
  cases h

/-- Blanks end every run. -/
theorem Mode.HaltsAt.of_isSpace (h : isSpace c = true) : Mode.block.HaltsAt (c :: rest) :=
  .cons (by rw [Mode.continues, isGraphic_eq_false_of_isSpace h, Bool.false_and])

theorem newline_not_mem_of_isSpace (h : blanks.all isSpace = true) : '\n' ∉ blanks := by
  intro hmem
  have hspace : isSpace '\n' = true := List.all_eq_true.1 h _ hmem
  cases hspace

namespace Word

theorem chars_ne_nil (w : Word) : w.chars ≠ [] := by
  cases w with
  | run r => exact r.ne_nil
  | _ => exact List.cons_ne_nil _ _

/-- A word that is not a line end is made of visible characters. -/
theorem isGraphic_of_mem (hw : w ≠ .newline) : ∀ c ∈ w.chars, isGraphic c = true := by
  cases w with
  | newline => exact absurd rfl hw
  | separator d h =>
    refine List.forall_mem_singleton.2 ?_
    rcases eq_of_isSeparator h with rfl | rfl | rfl <;> rfl
  | openBlock => exact List.all_eq_true.1 rfl
  | closeBlock => exact List.all_eq_true.1 rfl
  | run r =>
    intro c hc
    have hvisible := List.all_eq_true.1 r.visible c hc
    rw [Bool.and_eq_true] at hvisible
    exact hvisible.1

theorem not_mem_chars (hw : w ≠ .newline) (hc : isGraphic c = false) : c ∉ w.chars := by
  intro hmem
  rw [isGraphic_of_mem hw c hmem] at hc
  cases hc

theorem return_not_mem_chars (w : Word) : '\r' ∉ w.chars := by
  by_cases hw : w = .newline
  · subst hw
    decide
  · exact not_mem_chars hw rfl

/-- No word starts with a blank. -/
theorem skip_chars (w : Word) (h : blanks.all isSpace = true) :
    Mode.block.skip (blanks ++ (w.chars ++ rest)) = w.chars ++ rest := by
  obtain ⟨c, cs, hcons⟩ := List.exists_cons_of_ne_nil w.chars_ne_nil
  have hc : isSpace c = false := by
    by_cases hw : w = .newline
    · subst hw
      cases hcons
      rfl
    · refine isSpace_eq_false_of_isGraphic (isGraphic_of_mem hw c ?_)
      rw [hcons]
      exact List.mem_cons_self
  rw [Mode.skip, List.dropWhile_append_of_pos (List.all_eq_true.1 h), hcons, List.cons_append,
    List.dropWhile_cons_of_neg (by simp [hc])]

/-- A word is cut off what follows it, a run only where it ends. -/
theorem cutLexeme_chars (w : Word)
    (hborder : ∀ r, w = .run r → Mode.block.Border r.chars rest) :
    cutLexeme .block (w.chars ++ rest) = (w.lexeme, rest) := by
  cases w with
  | separator c h =>
    rcases eq_of_isSeparator h with rfl | rfl | rfl <;> rfl
  | openBlock => rfl
  | closeBlock => rfl
  | newline => rfl
  | run r =>
    obtain ⟨hstops, hends⟩ := hborder r rfl
    have hcontinues : ∀ c ∈ r.chars, Mode.block.continues c = true := List.all_eq_true.1 r.visible
    exact cutLexeme_run r.ne_nil hcontinues (r.plain.append_take_one hends) hstops

/-- A run ends in front of a word that it does not merge with. -/
theorem border_of_not_merges {r : Run} (h : ¬ (Word.run r).Merges w) :
    Mode.block.Border r.chars (w.chars ++ rest) := by
  cases w with
  | separator c hc =>
    apply Mode.HaltsAt.border
    apply Mode.HaltsAt.cons
    rw [Mode.continues, hc]
    exact Bool.and_false _
  | newline => exact Mode.HaltsAt.newline.border _
  | run r' => exact absurd trivial h
  | openBlock =>
    refine ⟨.inl rfl, fun c hlast hhead => ?_⟩
    cases hhead
    exact absurd hlast h
  | closeBlock =>
    refine ⟨.inl rfl, fun c hlast hhead => ?_⟩
    cases hhead
    exact absurd hlast h

end Word

theorem border_of_separated {r : Run} (h : Separated (p :: pieces)) (hp : p.word = .run r)
    (hblanks : blanks.all isSpace = true) :
    Mode.block.Border r.chars (pieces.flatMap Piece.chars ++ blanks) := by
  cases pieces with
  | nil =>
    apply Mode.HaltsAt.border
    cases blanks with
    | nil => exact .nil
    | cons c cs =>
      rw [List.all_cons, Bool.and_eq_true] at hblanks
      exact .of_isSpace hblanks.1
  | cons q qs =>
    have hapart : p.word.Merges q.word → q.blanks ≠ [] :=
      (List.isChain_cons.1 h).1 q rfl
    rw [List.flatMap_cons, Piece.chars, List.append_assoc, List.append_assoc]
    -- the next word stands right behind the run, or blanks do
    rcases hq : q.blanks with _ | ⟨c, cs⟩
    · apply Word.border_of_not_merges
      rw [← hp]
      exact fun hmerges => hapart hmerges hq
    · have hspace := q.isSpace
      rw [hq, List.all_cons, Bool.and_eq_true] at hspace
      exact (Mode.HaltsAt.of_isSpace hspace.1).border _

/-- Separated words are cut off one by one, up to the blanks behind them. -/
theorem segments_of_separated (h : Separated pieces) (hblanks : blanks.all isSpace = true) :
    Segments .block (pieces.flatMap Piece.chars ++ blanks) (pieces.map (·.word.lexeme)) blanks := by
  induction pieces with
  | nil => exact .nil
  | cons p pieces ih =>
    rw [List.flatMap_cons, List.map_cons, Piece.chars, List.append_assoc, List.append_assoc]
    refine .cons ?_ p.word.chars_ne_nil (ih (List.isChain_cons.1 h).2)
    rw [p.word.skip_chars p.isSpace]
    exact p.word.cutLexeme_chars fun r hr => border_of_separated h hr hblanks

section Joined

/-- What is left of the piece when line ends are joined: a return right before a line end goes. -/
def Piece.joined (p : Piece) : Piece :=
  if p.blanks.getLast? = some '\r' ∧ p.word.chars = ['\n'] then
    { p with
      blanks := p.blanks.dropLast
      isSpace := by
        rw [List.all_eq_true]
        exact fun c hc => List.all_eq_true.1 p.isSpace c (List.dropLast_subset _ hc) }
  else p

theorem Piece.joined_word (p : Piece) : p.joined.word = p.word := by
  unfold joined
  split <;> rfl

theorem Piece.joined_of_ne (h : p.word ≠ .newline) : p.joined = p := by
  refine if_neg fun hreturn => Word.not_mem_chars (c := '\n') h rfl ?_
  rw [hreturn.2]
  exact List.mem_singleton_self _

/-- Only a line end starts with one. -/
theorem Word.chars_of_head? (h : w.chars.head? = some '\n') : w.chars = ['\n'] := by
  by_cases hw : w = .newline
  · subst hw
    rfl
  · exact absurd (List.mem_of_head? h) (not_mem_chars hw rfl)

theorem joinLineEnds_piece (p : Piece) : joinLineEnds [] p.chars = p.joined.chars := by
  have hline := newline_not_mem_of_isSpace p.isSpace
  unfold Piece.joined
  split
  · rename_i hreturn
    obtain ⟨before, hbefore⟩ := List.getLast?_eq_some_iff.1 hreturn.1
    rw [hbefore] at hline
    -- no line end is joined before the return that goes
    have happend : joinLineEnds [] (before ++ ['\r', '\n']) =
        joinLineEnds [] before ++ joinLineEnds [] ['\r', '\n'] :=
      joinLineEnds_append fun h => by cases h.2
    have hstart : joinLineEnds [] before = before :=
      joinLineEnds_of_apart (.of_not_mem fun hmem => hline (List.mem_append_left _ hmem)) []
    simp only [Piece.chars, hreturn.2, hbefore, List.dropLast_concat]
    rw [List.append_assoc, List.singleton_append, happend, hstart]
    rfl
  · rename_i hreturn
    apply joinLineEnds_of_apart
    refine Apart.append_iff.2 ⟨.of_not_mem hline, .of_not_mem_left p.word.return_not_mem_chars, ?_⟩
    exact fun h => hreturn ⟨h.1, Word.chars_of_head? h.2⟩

theorem joinLineEnds_pieces (pieces : List Piece) (hblanks : blanks.all isSpace = true) :
    joinLineEnds [] (pieces.flatMap Piece.chars ++ blanks) =
      (pieces.map Piece.joined).flatMap Piece.chars ++ blanks := by
  induction pieces with
  | nil => exact joinLineEnds_of_apart (.of_not_mem (newline_not_mem_of_isSpace hblanks)) []
  | cons p pieces ih =>
    have hlast : p.chars.getLast? ≠ some '\r' := by
      intro hlast
      rw [Piece.chars, List.getLast?_append_of_ne_nil _ p.word.chars_ne_nil] at hlast
      exact p.word.return_not_mem_chars (List.mem_of_getLast? hlast)
    rw [List.flatMap_cons, List.append_assoc, joinLineEnds_append fun h => hlast h.1, ih,
      joinLineEnds_piece, List.map_cons, List.flatMap_cons, List.append_assoc]

/-- Only in front of line ends, which do not merge, blanks go. -/
theorem Separated.joined (h : Separated pieces) : Separated (pieces.map Piece.joined) := by
  apply List.isChain_map_of_isChain _ _ h
  intro p q hapart hmerges
  rw [p.joined_word, q.joined_word] at hmerges
  have hq : q.word ≠ .newline := by
    intro hq
    rw [hq] at hmerges
    cases hp : p.word <;> rw [hp] at hmerges <;> exact hmerges
  rw [Piece.joined_of_ne hq]
  exact hapart hmerges

end Joined

section Kind

/-- A run of digits is too great, or is read as an integer. -/
theorem Word.exists_kind (hlength : w.chars.length ≤ limits.identifierLength)
    (h : ¬ w.TooGreat) : ∃ k, ∀ line, w.lexeme.kind limits .block line = .ok k := by
  cases w with
  | separator c hc =>
    rcases eq_of_isSeparator hc with rfl | rfl | rfl <;> exact ⟨_, fun _ => rfl⟩
  | openBlock => exact ⟨_, fun _ => rfl⟩
  | closeBlock => exact ⟨_, fun _ => rfl⟩
  | newline => exact ⟨_, fun _ => rfl⟩
  | run r =>
    have hknown : ∃ k, wordKind limits 0 r.chars = .ok k := by
      by_cases hdigits : ∀ c ∈ r.chars, c.isDigit = true
      · have hfits : Int64.minValue.toInt ≤ Decimal.digitsValue r.chars ∧
            (Decimal.digitsValue r.chars : Int) ≤ Int64.maxValue.toInt := by
          have hmin : Int64.minValue.toInt ≤ 0 := by decide
          have hmax : ¬ Int64.maxValue.toInt < Decimal.digitsValue r.chars :=
            fun hgreat => h ⟨List.all_eq_true.2 hdigits, hgreat⟩
          omega
        rw [wordKind_of_digits r.ne_nil hdigits, Decimal.int64?, if_pos hfits]
        exact ⟨_, rfl⟩
      · unfold wordKind
        split
        · exact ⟨_, rfl⟩
        · exact ⟨_, rfl⟩
        · have hshort : ¬ limits.identifierLength < r.chars.length := Nat.not_lt.2 hlength
          rw [if_neg (by simpa using hdigits), if_neg hshort]
          exact ⟨_, rfl⟩
    obtain ⟨k, hk⟩ := hknown
    exact ⟨k, fun line => wordKind_mono (Nat.le_refl _) hk line⟩

theorem Word.kind_of_tooGreat (h : w.TooGreat) (line : Nat) :
    w.lexeme.kind limits .block line = .error (.numberOutOfRange w.text line) := by
  cases w with
  | run r =>
    obtain ⟨hdigits, hgreat⟩ := h
    have hover : ¬ (Int64.minValue.toInt ≤ Decimal.digitsValue r.chars ∧
        (Decimal.digitsValue r.chars : Int) ≤ Int64.maxValue.toInt) := by omega
    change wordKind limits line r.chars = _
    rw [wordKind_of_digits r.ne_nil (List.all_eq_true.1 hdigits), Decimal.int64?, if_neg hover]
    rfl
  | _ => exact absurd h id

end Kind

/-- A token of a word: it has the text of the word, and the kind that scanning the word alone
gives. -/
structure Word.GivenAlone (limits : Limits) (w : Word) (t : Token) : Prop where
  lexeme : t.lexeme = w.text
  alone : ∃ first last, scan limits .block w.text = .ok [first, last] ∧ first.lexeme = w.text ∧
    first.kind = t.kind ∧ last.kind = .endOfFile

/-- Pieces, and blanks behind them, as a source. -/
def spaced (pieces : List Piece) (blanks : List Char) : String :=
  .ofList (pieces.flatMap Piece.chars ++ blanks)

section Scan

variable (hapart : Separated pieces) (hblanks : blanks.all isSpace = true)
include hapart hblanks

theorem segments_spaced :
    Segments .block (joinLineEnds [] (spaced pieces blanks).toList)
      (pieces.map (·.word.lexeme)) blanks := by
  have h := segments_of_separated hapart.joined hblanks
  have hwords : (pieces.map Piece.joined).map (·.word.lexeme) =
      pieces.map (·.word.lexeme) := by
    rw [List.map_map]
    exact List.map_congr_left fun p _ => congrArg Word.lexeme p.joined_word
  rw [spaced, String.toList_ofList, joinLineEnds_pieces pieces hblanks]
  rwa [hwords] at h

theorem scan_spaced_given (hsize : (spaced pieces blanks).utf8ByteSize ≤ limits.inputSize)
    (hcount : pieces.length < limits.tokenCount)
    (hlength : ∀ p ∈ pieces, p.word.chars.length ≤ limits.identifierLength)
    (hfits : ∀ p ∈ pieces, ¬ p.word.TooGreat) :
    ∃ tokens last, scan limits .block (spaced pieces blanks) = .ok (tokens ++ [last]) ∧
      List.Forall₂ (fun p t => p.word.lexeme.GivenAs limits .block t) pieces tokens ∧
      Lexeme.endOfFile.GivenAs limits .block last := by
  have hknown : Lexeme.Known limits .block (pieces.map (·.word.lexeme)) :=
    List.forall_mem_map.2 fun p hp => Word.exists_kind (hlength p hp) (hfits p hp)
  have hskip : Mode.block.skip blanks = [] := by
    have hspaces : ∀ c ∈ blanks, isSpace c = true := List.all_eq_true.1 hblanks
    rw [Mode.skip, ← List.append_nil blanks, List.dropWhile_append_of_pos hspaces]
    rfl
  obtain ⟨tokens, last, hscan, htokens, hlast⟩ :=
    scan_of_end hsize (segments_spaced hapart hblanks) hknown (by rwa [List.length_map]) hskip
  exact ⟨tokens, last, hscan, List.forall₂_map_left_iff.1 htokens, hlast⟩

end Scan

theorem Word.givenAlone (hsize : w.text.utf8ByteSize ≤ limits.inputSize)
    (hcount : 1 < limits.tokenCount) (hlength : w.chars.length ≤ limits.identifierLength)
    (hfits : ¬ w.TooGreat) (h : w.lexeme.GivenAs limits .block t) : w.GivenAlone limits t := by
  have hspaced : spaced [⟨[], w, rfl⟩] [] = w.text := by
    simp [spaced, Piece.chars, text]
  have hone : Separated [⟨[], w, rfl⟩] := List.isChain_singleton _
  rw [← hspaced] at hsize
  obtain ⟨tokens, last, hscan, htokens, hlast⟩ :=
    scan_spaced_given hone rfl hsize hcount (by simpa using hlength)
      (by simpa using hfits)
  obtain ⟨first, _, hfirst, hnil, rfl⟩ := List.forall₂_cons_left_iff.1 htokens
  cases hnil
  rw [hspaced] at hscan
  refine ⟨h.lexeme, first, last, hscan, hfirst.lexeme, ?_, (Except.ok.inj (hlast.kind 0)).symm⟩
  exact Except.ok.inj ((hfirst.kind 0).symm.trans (h.kind 0))

/-- No word is longer than the source. -/
theorem size_text_le (hp : p ∈ pieces) :
    p.word.text.utf8ByteSize ≤ (spaced pieces blanks).utf8ByteSize := by
  rw [Word.text, spaced, String.utf8ByteSize_ofList, String.utf8ByteSize_ofList]
  apply String.utf8Len_le_of_infix
  obtain ⟨front, back, rfl⟩ := List.append_of_mem hp
  refine ⟨front.flatMap Piece.chars ++ p.blanks, back.flatMap Piece.chars ++ blanks, ?_⟩
  simp [Piece.chars]

/-- Scanning separated words inside a block gives the token of each, or fails at the first one that
is an integer too great, whatever the blanks around them. -/
theorem scan_spaced (hapart : Separated pieces) (hblanks : blanks.all isSpace = true)
    (hsize : (spaced pieces blanks).utf8ByteSize ≤ limits.inputSize)
    (hcount : pieces.length < limits.tokenCount)
    (hlength : ∀ p ∈ pieces, p.word.chars.length ≤ limits.identifierLength) :
    ((∀ p ∈ pieces, ¬ p.word.TooGreat) →
      ∃ tokens last, scan limits .block (spaced pieces blanks) = .ok (tokens ++ [last]) ∧
        List.Forall₂ (fun p t => p.word.GivenAlone limits t) pieces tokens ∧
        last.kind = .endOfFile ∧ last.lexeme = "") ∧
    ∀ front p back, pieces = front ++ p :: back → (∀ q ∈ front, ¬ q.word.TooGreat) →
      p.word.TooGreat → scan limits .block (spaced pieces blanks) =
        .error (.numberOutOfRange p.word.text
          (1 + (front.flatMap (·.word.chars)).count '\n')) := by
  constructor
  · intro hfits
    obtain ⟨tokens, last, hscan, htokens, hlast⟩ :=
      scan_spaced_given hapart hblanks hsize hcount hlength hfits
    refine ⟨tokens, last, hscan, ?_, (Except.ok.inj (hlast.kind 0)).symm, hlast.lexeme⟩
    have hwords : ∀ p ∈ pieces, p ∈ pieces := fun _ hp => hp
    apply ((List.forall₂_and_left pieces tokens).2 ⟨hwords, htokens⟩).imp
    rintro p t ⟨hp, ht⟩
    have hroom : 1 < limits.tokenCount :=
      Nat.lt_of_le_of_lt (List.length_pos_of_mem hp) hcount
    have hfirst : p.word.text.utf8ByteSize ≤ limits.inputSize :=
      Nat.le_trans (size_text_le hp) hsize
    exact Word.givenAlone hfirst hroom (hlength p hp) (hfits p hp) ht
  · rintro front p back rfl hfront hp
    have h := segments_spaced hapart hblanks
    rw [List.map_append, List.map_cons] at h
    obtain ⟨rest, hbefore, hbehind⟩ := h.exists_of_append
    have hknown : Lexeme.Known limits .block (front.map (·.word.lexeme)) :=
      List.forall_mem_map.2 fun q hq =>
        Word.exists_kind (hlength q (List.mem_append_left _ hq)) (hfront q hq)
    have hroom : (front.map (·.word.lexeme)).length < limits.tokenCount := by
      rw [List.length_map]
      rw [List.length_append] at hcount
      omega
    have hlines := hbefore.count_newline
    rw [List.flatMap_map] at hlines
    cases hbehind with
    | cons hcut =>
      apply scan_of_error hsize hbefore hknown hroom hcut
      rw [Word.kind_of_tooGreat hp, ← hlines]
      rfl

/-- Single braces next to doubled ones, and a return in front of a line end. -/
def mixedPieces : List Piece :=
  [⟨[], .run ⟨['a', '{'], by simp, rfl, by decide⟩, rfl⟩,
    ⟨[' '], .openBlock, rfl⟩, ⟨[], .separator '(' rfl, rfl⟩,
    ⟨[], .run ⟨['1', '2'], by simp, rfl, by decide⟩, rfl⟩,
    ⟨['\t'], .run ⟨['}'], by simp, rfl, by decide⟩, rfl⟩,
    ⟨[' ', '\r'], .newline, rfl⟩, ⟨[], .closeBlock, rfl⟩,
    ⟨[], .run ⟨['i', 'n'], by simp, rfl, by decide⟩, rfl⟩]

/-- Two integers behind a line end, both too great. -/
def greatPieces : List Piece :=
  [⟨['\r'], .newline, rfl⟩,
    ⟨[' '], .run ⟨"9223372036854775808".toList, by simp, rfl, by decide⟩, rfl⟩,
    ⟨['\x0b'], .run ⟨"9223372036854775809".toList, by simp, rfl, by decide⟩, rfl⟩]

theorem mixedPieces_scan_spaced :
    (scan {} .block "a\x7b \x7b\x7b(12\t\x7d \r\n\x7d\x7din ").map (List.map Token.kind) = .ok
      [.text, .openBlock, .leftParen, .number (.int 12), .text, .newline, .closeBlock, .inWord,
        .endOfFile] ∧
    spaced mixedPieces [' '] = "a\x7b \x7b\x7b(12\t\x7d \r\n\x7d\x7din " ∧
    (∃ tokens last, scan {} .block (spaced mixedPieces [' ']) = .ok (tokens ++ [last]) ∧
      List.Forall₂ (fun p t => p.word.GivenAlone {} t) mixedPieces tokens ∧
      last.kind = .endOfFile ∧ last.lexeme = "") ∧
    scan {} .block (spaced greatPieces []) =
      .error (.numberOutOfRange "9223372036854775808" 2) := by
  refine ⟨by with_unfolding_all rfl, by decide, ?_, ?_⟩
  · have hapart : Separated mixedPieces := by decide
    have hsize : (spaced mixedPieces [' ']).utf8ByteSize ≤ ({} : Limits).inputSize := by decide
    obtain ⟨htokens, -⟩ := scan_spaced hapart rfl hsize (by decide)
      (forall_mem_of_all (by decide))
    exact htokens (forall_mem_of_all (by decide))
  · have hapart : Separated greatPieces := by decide
    have hsize : (spaced greatPieces []).utf8ByteSize ≤ ({} : Limits).inputSize := by decide
    obtain ⟨-, herror⟩ := scan_spaced hapart rfl hsize (by decide)
      (forall_mem_of_all (by decide))
    apply herror (greatPieces.take 1) greatPieces[1] (greatPieces.drop 2) rfl
    · exact forall_mem_of_all (by decide)
    · decide

end Stencil
