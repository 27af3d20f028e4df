import Stencil.Proofs.Token.Scan

/-! Scanning literal text. It fails at the first character that is not printable; where there is
none, every character is kept. -/
namespace Stencil

/-- A visible ASCII character, a blank or a line end. -/
def Printable (c : Char) : Prop :=
  ('!' ≤ c ∧ c ≤ '~') ∨ c ∈ [' ', '\t', '\n', '\r', '\x0b', '\x0c']

variable {limits : Limits} {mode : Mode} {c : Char} {cs cs' rest : List Char} {x : Lexeme}
  {xs : List Lexeme} {t : Token} {tokens : List Token}

theorem printable_iff : Printable c ↔ isGraphic c = true ∨ isSpace c = true ∨ c = '\n' := by
  simp only [Printable, isGraphic, isSpace, Bool.and_eq_true, decide_eq_true_eq, Bool.or_eq_true,
    beq_iff_eq, List.mem_cons, List.not_mem_nil, or_false]
  tauto

instance (c : Char) : Decidable (Printable c) := decidable_of_iff _ printable_iff.symm

theorem printable_of_cutLexeme (h : cutLexeme mode cs = (x, cs')) :
    ∀ c ∈ x.chars, Printable c := by
  intro c hc
  cases x with
  | endOfFile => cases hc
  | invalid d => cases hc
  | newline => exact printable_iff.2 (.inr (.inr (List.mem_singleton.1 hc)))
  | openBlock =>
    obtain rfl : c = '{' := by simpa [Lexeme.chars] using hc
    exact printable_iff.2 (.inl rfl)
  | closeBlock =>
    obtain rfl : c = '}' := by simpa [Lexeme.chars] using hc
    exact printable_iff.2 (.inl rfl)
  | run run =>
    rcases (forall_mem_of_cutLexeme h).2 c hc with hgraphic | hspace
    · exact printable_iff.2 (.inl hgraphic)
    · exact printable_iff.2 (.inr (.inl hspace))

/-- A printable character is part of a lexeme. -/
theorem chars_ne_nil_of_printable (hc : Printable c) (h : cutLexeme mode (c :: cs) = (x, cs')) :
    x.chars ≠ [] := by
  cases x with
  | endOfFile => cases eq_nil_of_cutLexeme h
  | invalid d =>
    by_cases hline : c = '\n'
    · subst hline
      cases h
    · have hvalid : (isGraphic c || isSpace c) = true := by
        rw [Bool.or_eq_true]
        rcases printable_iff.1 hc with hc | hc | hc
        · exact .inl hc
        · exact .inr hc
        · exact absurd hc hline
      unfold cutLexeme at h
      split at h
      · cases h
      · cases h
      · cases h
      · cases h
      · rename_i heq
        obtain ⟨rfl, rfl⟩ := List.cons.inj heq
        rw [hvalid] at h
        split at h
        · contradiction
        · split at h <;> cases h
  | run run => exact (forall_mem_of_cutLexeme h).1
  | _ => simp [Lexeme.chars]

theorem cutLexeme_of_not_printable (hc : ¬ Printable c) :
    cutLexeme mode (c :: cs) = (.invalid c, c :: cs) := by
  simp only [printable_iff, not_or, Bool.not_eq_true] at hc
  obtain ⟨hgraphic, hspace, hline⟩ := hc
  have hopen : c ≠ '{' := by
    rintro rfl
    cases hgraphic
  have hclose : c ≠ '}' := by
    rintro rfl
    cases hgraphic
  rw [cutLexeme_cons hline (startsDelimiter_cons_of_ne hopen hclose), hgraphic, hspace]
  rfl

/-- A run of literal text holds no line end and no delimiter, and ends where it has to. -/
theorem literal_of_cutLexeme {run : List Char} (h : cutLexeme .literal cs = (.run run, cs')) :
    run ≠ [] ∧ '\n' ∉ run ∧ Undelimited run ∧ Mode.literal.StopsAt cs' := by
  have hskip : cutLexeme .literal (Mode.literal.skip cs) = (.run run, cs') := h
  rcases border_of_cutLexeme hskip with ⟨hmode, -⟩ | ⟨-, hplain, hborder⟩
  · cases hmode
  · exact ⟨(forall_mem_of_cutLexeme h).1, newline_not_mem_of_cutLexeme h, hplain, hborder.stops⟩

/-- Where a run ends, no other one starts. -/
theorem cutLexeme_ne_run (hstops : Mode.literal.StopsAt cs) (run : List Char) :
    cutLexeme .literal cs ≠ (.run run, cs') := by
  intro h
  obtain ⟨c, more, rfl⟩ := List.exists_cons_of_ne_nil (forall_mem_of_cutLexeme h).1
  obtain rfl : c :: (more ++ cs') = cs := chars_append_of_cutLexeme h
  rcases hstops with hstart | hends
  · obtain ⟨after, heq | heq⟩ := startsDelimiter_eq_true hstart <;> rw [heq] at h <;> cases h
  · have hc : isGraphic c = true ∨ isSpace c = true :=
      (forall_mem_of_cutLexeme h).2 c List.mem_cons_self
    rw [Mode.continues, Bool.or_eq_false_iff] at hends
    rcases hc with hc | hc
    · rw [hends.1] at hc
      cases hc
    · rw [hends.2] at hc
      cases hc

/-- A text is cut up to its first character that is not printable. -/
theorem exists_literal_segments (cs : List Char) : ∃ xs rest, Segments .literal cs xs rest ∧
    ∀ c, rest.head? = some c → ¬ Printable c := by
  cases cs with
  | nil => exact ⟨[], [], .nil, by simp⟩
  | cons c more =>
    by_cases hc : Printable c
    · rcases hcut : cutLexeme .literal (c :: more) with ⟨x, cs'⟩
      have hne : x.chars ≠ [] := chars_ne_nil_of_printable hc hcut
      have hless : cs'.length < (c :: more).length := by
        rw [← chars_append_of_cutLexeme hcut, List.length_append]
        exact Nat.lt_add_of_pos_left (List.length_pos_iff.2 hne)
      obtain ⟨xs, rest, h, hrest⟩ := exists_literal_segments cs'
      exact ⟨x :: xs, rest, .cons hcut hne h, hrest⟩
    · exact ⟨[], c :: more, .nil, by simpa using hc⟩
termination_by cs.length
decreasing_by exact hless

namespace Segments

/-- The lexemes of literal text are all of it up to what is left. -/
theorem flatMap_chars (h : Segments .literal cs xs rest) :
    cs = xs.flatMap Lexeme.chars ++ rest := by
  induction h with
  | nil => rfl
  | cons hcut _ _ ih =>
    rw [List.flatMap_cons, List.append_assoc, ← ih]
    exact (chars_append_of_cutLexeme hcut).symm

theorem printable (h : Segments mode cs xs rest) : ∀ c ∈ xs.flatMap Lexeme.chars, Printable c := by
  induction h with
  | nil => simp
  | cons hcut _ _ ih =>
    rw [List.flatMap_cons]
    exact List.forall_mem_append.2 ⟨printable_of_cutLexeme hcut, ih⟩

/-- Every lexeme of literal text stands for something. -/
theorem known (h : Segments .literal cs xs rest) : Lexeme.Known limits .literal xs := by
  induction h with
  | nil => exact List.forall_mem_nil _
  | @cons _ _ _ x _ _ hne _ ih =>
    refine List.forall_mem_cons.2 ⟨?_, ih⟩
    cases x with
    | invalid c => exact absurd rfl hne
    | _ => exact ⟨_, fun _ => rfl⟩

end Segments

/-- A token has the lexeme that its kind has in literal text. -/
def Token.IsLiteral (t : Token) : Prop :=
  match t.kind with
  | .text => t.lexeme ≠ "" ∧ '\n' ∉ t.lexeme.toList ∧ Undelimited t.lexeme.toList
  | .newline => t.lexeme = "\n"
  | .openBlock => t.lexeme = "\x7b\x7b"
  | .closeBlock => t.lexeme = "\x7d\x7d"
  | .endOfFile => t.lexeme = ""
  | _ => False

/-- The tokens are a text cut into parts, with one more for its end. Literal text is never in two
parts that are side by side. -/
structure Keeps (text : List Char) (tokens : List Token) : Prop where
  lexemes : tokens.flatMap (·.lexeme.toList) = text
  literal : ∀ t ∈ tokens, t.IsLiteral
  apart : tokens.IsChain fun t t' => ¬ (t.kind = .text ∧ t'.kind = .text)
  last : ∃ front last, tokens = front ++ [last] ∧ last.kind = .endOfFile ∧
    ∀ t ∈ front, t.kind ≠ .endOfFile

namespace Lexeme.GivenAs

theorem exists_run (h : x.GivenAs limits .literal t) (ht : t.kind = .text) :
    ∃ run, x = .run run := by
  have hkind := h.kind 0
  rw [ht] at hkind
  cases x with
  | run run => exact ⟨run, rfl⟩
  | _ => cases hkind

theorem isLiteral (h : x.GivenAs limits .literal t) (hcut : cutLexeme .literal cs = (x, cs')) :
    t.IsLiteral := by
  have hkind := h.kind 0
  unfold Token.IsLiteral
  cases x with
  | invalid c => cases hkind
  | run run =>
    rw [← Except.ok.inj hkind, h.lexeme, Lexeme.chars, String.toList_ofList]
    obtain ⟨hne, hline, hplain, -⟩ := literal_of_cutLexeme hcut
    exact ⟨fun hnil => hne (String.ofList_eq_empty_iff.1 hnil), hline, hplain⟩
  | _ =>
    rw [← Except.ok.inj hkind]
    exact h.lexeme

end Lexeme.GivenAs

theorem Keeps.nil (h : Lexeme.endOfFile.GivenAs limits .literal t) : Keeps [] [t] where
  lexemes := by
    rw [List.flatMap_singleton, h.lexeme]
    rfl
  literal := by
    have hcut : cutLexeme .literal [] = (.endOfFile, []) := rfl
    exact List.forall_mem_singleton.2 (h.isLiteral hcut)
  apart := List.isChain_singleton t
  last := ⟨[], t, rfl, (Except.ok.inj (h.kind 0)).symm, List.forall_mem_nil _⟩

theorem Keeps.cons (h : Keeps cs' tokens) (hcut : cutLexeme .literal cs = (x, cs'))
    (hne : x.chars ≠ []) (ht : x.GivenAs limits .literal t)
    (hapart : ∀ t', tokens.head? = some t' → ¬ (t.kind = .text ∧ t'.kind = .text)) :
    Keeps cs (t :: tokens) where
  lexemes := by
    rw [List.flatMap_cons, h.lexemes, ht.lexeme, String.toList_ofList]
    exact chars_append_of_cutLexeme hcut
  literal := List.forall_mem_cons.2 ⟨ht.isLiteral hcut, h.literal⟩
  apart := List.isChain_cons.2 ⟨hapart, h.apart⟩
  last := by
    obtain ⟨front, last, rfl, hlast, hfront⟩ := h.last
    have hall : ∀ t' ∈ t :: front, t'.kind ≠ .endOfFile :=
      List.forall_mem_cons.2 ⟨ht.kind_ne_endOfFile hne, hfront⟩
    exact ⟨t :: front, last, rfl, hlast, hall⟩

/-- The tokens of the lexemes that a text is cut into keep it. -/
theorem Segments.keeps (h : Segments .literal cs xs rest) (hrest : rest = []) {last : Token}
    (hts : List.Forall₂ (Lexeme.GivenAs limits .literal) xs tokens)
    (hlast : Lexeme.endOfFile.GivenAs limits .literal last) : Keeps cs (tokens ++ [last]) := by
  induction h generalizing tokens with
  | nil =>
    cases hts
    subst hrest
    exact .nil hlast
  | cons hcut hne h ih =>
    cases hts with
    | cons ht hts =>
      refine (ih hrest hts).cons hcut hne ht ?_
      rintro t' hhead ⟨htext, htext'⟩
      obtain ⟨run, rfl⟩ := ht.exists_run htext
      have hstops := (literal_of_cutLexeme hcut).2.2.2
      -- the token behind a run is the last one, or that of a lexeme cut where the run ends
      cases h with
      | nil =>
        cases hts
        obtain rfl : last = t' := Option.some.inj hhead
        obtain ⟨_, hrun⟩ := hlast.exists_run htext'
        cases hrun
      | cons hcut' =>
        cases hts with
        | cons ht' =>
          cases hhead
          obtain ⟨run', rfl⟩ := ht'.exists_run htext'
          exact cutLexeme_ne_run hstops run' hcut'

/-- Only one character of a text is the first that is not printable. -/
theorem eq_of_append_cons {front front' back back' : List Char} {c c' : Char}
    (h : front ++ c :: back = front' ++ c' :: back') (hfront : ∀ d ∈ front, Printable d)
    (hfront' : ∀ d ∈ front', Printable d) (hc : ¬ Printable c) (hc' : ¬ Printable c') :
    front = front' ∧ c = c' := by
  have htake (front back : List Char) {c : Char} (hfront : ∀ d ∈ front, Printable d)
      (hc : ¬ Printable c) : (front ++ c :: back).takeWhile (decide <| Printable ·) = front := by
    rw [List.takeWhile_append_of_pos (by simpa using hfront),
      List.takeWhile_cons_of_neg (by simpa using hc), List.append_nil]
  have hsame : front = front' := by
    rw [← htake front back hfront hc, h, htake front' back' hfront' hc']
  subst hsame
  exact ⟨rfl, (List.cons.inj (List.append_cancel_left h)).1⟩

/-- Literal text is scanned, and kept, exactly if its characters are printable once line ends are
joined. Otherwise the first one that is not is told. -/
theorem scan_literal {source : String} (hsize : source.utf8ByteSize ≤ limits.inputSize)
    (hcount : ∀ max line, scan limits .literal source ≠ .error (.tooManyTokens max line)) :
    let text := joinLineEnds [] source.toList
    ((∃ tokens, scan limits .literal source = .ok tokens) ↔ ∀ c ∈ text, Printable c) ∧
      (∀ tokens, scan limits .literal source = .ok tokens → Keeps text tokens) ∧
      ∀ front c back, text = front ++ c :: back → (∀ d ∈ front, Printable d) → ¬ Printable c →
        scan limits .literal source = .error (.unexpectedCharacter c (1 + front.count '\n')) := by
  dsimp only
  obtain ⟨xs, rest, h, hrest⟩ := exists_literal_segments (joinLineEnds [] source.toList)
  have hknown : Lexeme.Known limits .literal xs := h.known
  have hroom : xs.length < limits.tokenCount := by
    by_contra hfull
    obtain ⟨line, herror⟩ := scan_of_full hsize h hknown (Nat.not_lt.1 hfull)
    exact hcount _ line herror
  have htext := h.flatMap_chars
  cases rest with
  | nil =>
    obtain ⟨ts, last, hscan, hts, hlast⟩ := scan_of_end hsize h hknown hroom rfl
    rw [List.append_nil] at htext
    have hprintable : ∀ c ∈ joinLineEnds [] source.toList, Printable c := htext ▸ h.printable
    refine ⟨iff_of_true ⟨_, hscan⟩ hprintable, ?_, ?_⟩
    · intro tokens htokens
      rw [hscan] at htokens
      cases htokens
      exact h.keeps rfl hts hlast
    · intro front c back hsplit _ hc
      exact absurd (hprintable c (by simp [hsplit])) hc
  | cons c more =>
    have hc : ¬ Printable c := hrest c rfl
    have hscan : scan limits .literal source =
        .error (.unexpectedCharacter c (1 + xs.count .newline)) :=
      scan_of_error hsize h hknown hroom (cutLexeme_of_not_printable hc) rfl
    refine ⟨iff_of_false ?_ ?_, ?_, ?_⟩
    · rintro ⟨tokens, htokens⟩
      rw [hscan] at htokens
      cases htokens
    · intro hall
      exact hc (hall c (by simp [htext]))
    · intro tokens htokens
      rw [hscan] at htokens
      cases htokens
    · intro front d back hsplit hfront hd
      obtain ⟨rfl, rfl⟩ := eq_of_append_cons (htext.symm.trans hsplit) h.printable hfront hc hd
      rw [hscan, h.count_newline]

/-- Three braces on either side, and returns in front of a line end. -/
def keptSource : String := "\x7d\x7b\x7b\x7b a\x7d\r\r\n\x7d\x7d\x7d"

/-- A character on the second line that is not printable, next to a brace. -/
def strangeSource : String := "\x7b a\r\n \x7bé\x7d\x7d"

theorem keptSource_scan_literal :
    (scan {} .literal keptSource = .ok [⟨.text, "\x7d", 1, 1⟩, ⟨.openBlock, "\x7b\x7b", 1, 2⟩,
        ⟨.text, "\x7b a\x7d\r", 1, 4⟩, ⟨.newline, "\n", 1, 9⟩, ⟨.closeBlock, "\x7d\x7d", 2, 1⟩,
        ⟨.text, "\x7d", 2, 3⟩, ⟨.endOfFile, "", 2, 4⟩] ∧
      ∃ tokens, scan {} .literal keptSource = .ok tokens ∧
        Keeps (joinLineEnds [] keptSource.toList) tokens) ∧
    scan {} .literal strangeSource = .error (.unexpectedCharacter 'é' 2) := by
  have hkept : scan {} .literal keptSource = .ok [⟨.text, "\x7d", 1, 1⟩,
      ⟨.openBlock, "\x7b\x7b", 1, 2⟩, ⟨.text, "\x7b a\x7d\r", 1, 4⟩, ⟨.newline, "\n", 1, 9⟩,
      ⟨.closeBlock, "\x7d\x7d", 2, 1⟩, ⟨.text, "\x7d", 2, 3⟩, ⟨.endOfFile, "", 2, 4⟩] := by
    with_unfolding_all rfl
  have hstrange : scan {} .literal strangeSource = .error (.unexpectedCharacter 'é' 2) := by
    with_unfolding_all rfl
  constructor
  · have hsize : keptSource.utf8ByteSize ≤ ({} : Limits).inputSize := by decide
    obtain ⟨-, hkeeps, -⟩ := scan_literal hsize (by simp [hkept])
    exact ⟨hkept, _, hkept, hkeeps _ hkept⟩
  · have hsize : strangeSource.utf8ByteSize ≤ ({} : Limits).inputSize := by decide
    obtain ⟨-, -, herror⟩ := scan_literal hsize (by simp [hstrange])
    apply herror "\x7b a\n \x7b".toList 'é' "\x7d\x7d".toList
    · decide
    · exact forall_mem_of_all (by decide)
    · decide

end Stencil
