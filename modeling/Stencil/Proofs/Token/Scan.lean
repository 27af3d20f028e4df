import Stencil.Proofs.Token.Cut

/-! What a cursor that stays in one mode gives of a text: a token for each lexeme that it cuts off,
one behind the other, up to the end of the text, a failure, or the last token that it may give. -/
namespace Stencil

variable {limits : Limits} {mode : Mode} {cs cs' rest rest' : List Char} {x : Lexeme}
  {xs : List Lexeme} {k : TokenKind} {e : LexError} {t : Token}

theorem Lexeme.kind_ne_endOfFile {line : Nat} (hx : x ≠ .endOfFile) :
    x.kind limits mode line ≠ .ok .endOfFile := by
  cases x with
  | run run =>
    cases mode with
    | literal => simp [kind]
    | block => exact wordKind_ne_endOfFile limits line run
  | endOfFile => exact absurd rfl hx
  | _ => simp [kind]

theorem Lexeme.ne_endOfFile (hne : x.chars ≠ []) : x ≠ .endOfFile := by
  rintro rfl
  exact hne rfl

/-- A lexeme with characters is not given as the end of the text. -/
theorem Lexeme.GivenAs.kind_ne_endOfFile (h : x.GivenAs limits mode t) (hne : x.chars ≠ []) :
    t.kind ≠ .endOfFile := by
  intro hend
  have hkind := h.kind 0
  rw [hend] at hkind
  exact Lexeme.kind_ne_endOfFile (Lexeme.ne_endOfFile hne) hkind

namespace Cursor

variable {s s' : Cursor} {given : Nat}

/-- A lexeme that stands for something is given as a token. -/
theorem next_of_kind (hat : s.At limits mode given cs) (hgiven : given < limits.tokenCount)
    (hcut : cutLexeme mode (mode.skip cs) = (x, rest)) (hx : x.kind limits mode s.line = .ok k) :
    ∃ t s', s.next = (.ok t, s') ∧ x.GivenAs limits mode t ∧ s.Moves x rest s' := by
  obtain ⟨rfl, rfl, rfl, rfl⟩ := hat
  rcases next_cases hgiven hcut with hnext | ⟨e, s', -, herror⟩
  · exact hnext
  · rw [hx] at herror
    cases herror

theorem next_of_kind_error (hat : s.At limits mode given cs) (hgiven : given < limits.tokenCount)
    (hcut : cutLexeme mode (mode.skip cs) = (x, rest))
    (hx : x.kind limits mode s.line = .error e) : s.next.1 = .error e := by
  obtain ⟨rfl, rfl, rfl, rfl⟩ := hat
  rcases next_cases hgiven hcut with ⟨t, s', -, ht, -⟩ | ⟨e', s', hnext, herror⟩
  · rw [ht.kind] at hx
    cases hx
  · rw [hx] at herror
    cases herror
    rw [hnext]

theorem tokens_of_error (h : s.next.1 = .error e) (done : List Token) :
    s.tokens done = .error e := by
  rw [tokens]
  split <;> rename_i h' <;> rw [h'] at h <;> cases h
  rfl

theorem tokens_of_end (h : s.next = (.ok t, s')) (hend : t.kind = .endOfFile) (done : List Token) :
    s.tokens done = .ok (done.reverse ++ [t]) := by
  rw [tokens]
  split <;> rename_i h' <;> rw [h] at h' <;> cases h'
  rw [dif_pos hend, List.reverse_cons]

theorem tokens_of_ok (h : s.next = (.ok t, s')) (hend : t.kind ≠ .endOfFile)
    (done : List Token) : s.tokens done = s'.tokens (t :: done) := by
  rw [tokens]
  split <;> rename_i h' <;> rw [h] at h' <;> cases h'
  rw [dif_neg hend]

end Cursor

theorem count_newline_of_cutLexeme (h : cutLexeme mode cs = (x, rest)) :
    x.chars.count '\n' = if x = .newline then 1 else 0 := by
  cases x with
  | run run =>
    rw [if_neg (by simp)]
    exact List.count_eq_zero.2 (newline_not_mem_of_cutLexeme h)
  | _ => rfl

/-- Lexemes that a text is cut into in one mode, one behind the other, and what is left then. -/
inductive Segments (mode : Mode) : List Char → List Lexeme → List Char → Prop
  | nil {cs : List Char} : Segments mode cs [] cs
  | cons {cs cs' rest : List Char} {x : Lexeme} {xs : List Lexeme}
      (hcut : cutLexeme mode (mode.skip cs) = (x, cs')) (hne : x.chars ≠ [])
      (h : Segments mode cs' xs rest) : Segments mode cs (x :: xs) rest

/-- Every lexeme of some stands for something. -/
def Lexeme.Known (limits : Limits) (mode : Mode) (xs : List Lexeme) : Prop :=
  ∀ x ∈ xs, ∃ k, ∀ line, x.kind limits mode line = .ok k

namespace Segments

theorem exists_of_append {ys : List Lexeme} (h : Segments mode cs (xs ++ ys) rest) :
    ∃ rest', Segments mode cs xs rest' ∧ Segments mode rest' ys rest := by
  induction xs generalizing cs with
  | nil => exact ⟨cs, .nil, h⟩
  | cons x xs ih =>
    cases h with
    | cons hcut hne h =>
      obtain ⟨rest', hfront, hback⟩ := ih h
      exact ⟨rest', .cons hcut hne hfront, hback⟩

/-- Line ends are lexemes of their own. -/
theorem count_newline (h : Segments mode cs xs rest) :
    (xs.flatMap Lexeme.chars).count '\n' = xs.count .newline := by
  induction h with
  | nil => rfl
  | cons hcut _ _ ih =>
    rw [List.flatMap_cons, List.count_append, List.count_cons, ih, count_newline_of_cutLexeme hcut,
      Nat.add_comm]
    simp only [beq_iff_eq]

/-- A cursor gives a token for each lexeme, and then what it gives of the text behind them. -/
theorem tokens_eq (h : Segments mode cs xs rest) (hxs : Lexeme.Known limits mode xs) {s : Cursor}
    {given : Nat} (hat : s.At limits mode given cs) (hcount : given + xs.length ≤ limits.tokenCount)
    (done : List Token) :
    ∃ (ts : List Token) (s' : Cursor), s.tokens done = s'.tokens (ts.reverse ++ done) ∧
      List.Forall₂ (Lexeme.GivenAs limits mode) xs ts ∧
      s'.At limits mode (given + xs.length) rest ∧ s'.line = s.line + xs.count .newline := by
  induction h generalizing s given done with
  | nil => exact ⟨[], s, rfl, .nil, hat, rfl⟩
  | @cons cs cs' rest x xs hcut hne _ ih =>
    rw [List.length_cons] at hcount ⊢
    obtain ⟨k, hk⟩ := hxs x List.mem_cons_self
    obtain ⟨t, s₁, hnext, ht, hmoves⟩ := Cursor.next_of_kind hat (by omega) hcut (hk s.line)
    have hend : t.kind ≠ .endOfFile := ht.kind_ne_endOfFile hne
    have hs₁ := hmoves.at_rest (Lexeme.ne_endOfFile hne)
    rw [hat.limits_eq, hat.mode_eq, hat.given_eq] at hs₁
    obtain ⟨ts, s', htokens, hts, hs', hline'⟩ := ih
      (fun y hy => hxs y (List.mem_cons_of_mem x hy)) hs₁ (by omega) (t :: done)
    refine ⟨t :: ts, s', ?_, .cons ht hts, ?_, ?_⟩
    · rw [Cursor.tokens_of_ok hnext hend, htokens, List.reverse_cons, List.append_assoc,
        List.singleton_append]
    · rwa [show given + (xs.length + 1) = given + 1 + xs.length by omega]
    · rw [hline', hmoves.line_eq, List.count_cons]
      simp only [beq_iff_eq]
      omega

end Segments

section Scan

variable {source : String}

theorem scan_eq_tokens (hsize : source.utf8ByteSize ≤ limits.inputSize) (mode : Mode) :
    ∃ s : Cursor, scan limits mode source = s.tokens [] ∧
      s.At limits mode 0 (joinLineEnds [] source.toList) ∧ s.line = 1 := by
  have hcursor : Cursor.ofSource limits source =
      .ok { limits, rest := joinLineEnds [] source.toList } :=
    Cursor.ofSource_ok_iff.2 ⟨hsize, rfl⟩
  refine ⟨{ limits, rest := joinLineEnds [] source.toList, mode }, ?_, ⟨rfl, rfl, rfl, rfl⟩, rfl⟩
  rw [scan, hcursor]
  rfl

variable (hsize : source.utf8ByteSize ≤ limits.inputSize)
  (h : Segments mode (joinLineEnds [] source.toList) xs rest) (hxs : Lexeme.Known limits mode xs)
include hsize h hxs

/-- A text that is cut to its end, but for blanks, is scanned into a token for each lexeme and one
for the end. -/
theorem scan_of_end (hcount : xs.length < limits.tokenCount) (hrest : mode.skip rest = []) :
    ∃ ts last, scan limits mode source = .ok (ts ++ [last]) ∧
      List.Forall₂ (Lexeme.GivenAs limits mode) xs ts ∧
      Lexeme.endOfFile.GivenAs limits mode last := by
  obtain ⟨s, hscan, hat, -⟩ := scan_eq_tokens hsize mode
  obtain ⟨ts, s', htokens, hts, hs', -⟩ := h.tokens_eq hxs hat (by omega) []
  have hcut : cutLexeme mode (mode.skip rest) = (.endOfFile, []) := by
    rw [hrest]
    rfl
  obtain ⟨last, s'', hnext, hlast, -⟩ :=
    Cursor.next_of_kind (k := .endOfFile) hs' (by omega) hcut rfl
  have hend : last.kind = .endOfFile := (Except.ok.inj (hlast.kind 0)).symm
  refine ⟨ts, last, ?_, hts, hlast⟩
  rw [hscan, htokens, Cursor.tokens_of_end hnext hend, List.append_nil, List.reverse_reverse]

/-- A text that is cut up to a lexeme that fails is scanned with the failure that the lexeme is on
its line. -/
theorem scan_of_error (hcount : xs.length < limits.tokenCount)
    (hcut : cutLexeme mode (mode.skip rest) = (x, rest'))
    (hx : x.kind limits mode (1 + xs.count .newline) = .error e) :
    scan limits mode source = .error e := by
  obtain ⟨s, hscan, hat, hline⟩ := scan_eq_tokens hsize mode
  obtain ⟨ts, s', htokens, -, hs', hline'⟩ := h.tokens_eq hxs hat (by omega) []
  rw [← hline, ← hline'] at hx
  have herror : s'.next.1 = .error e := Cursor.next_of_kind_error hs' (by omega) hcut hx
  rw [hscan, htokens, Cursor.tokens_of_error herror]

/-- A text that is cut into as many lexemes as there may be tokens is not scanned to its end. -/
theorem scan_of_full (hcount : limits.tokenCount ≤ xs.length) :
    ∃ line, scan limits mode source = .error (.tooManyTokens limits.tokenCount line) := by
  obtain ⟨s, hscan, hat, -⟩ := scan_eq_tokens hsize mode
  rw [← List.take_append_drop limits.tokenCount xs] at h
  obtain ⟨rest', hfront, -⟩ := h.exists_of_append
  have hlength : (xs.take limits.tokenCount).length = limits.tokenCount :=
    List.length_take_of_le hcount
  obtain ⟨ts, s', htokens, -, hs', -⟩ :=
    hfront.tokens_eq (fun x hx => hxs x (List.mem_of_mem_take hx)) hat (by omega) []
  -- behind that many lexemes the cursor has given all tokens that it may give
  have hfull : s'.limits.tokenCount ≤ s'.given := by
    rw [hs'.limits_eq, hs'.given_eq, hlength, Nat.zero_add]
  have herror : s'.next.1 = .error (.tooManyTokens limits.tokenCount s'.line) := by
    rw [Cursor.next, if_pos hfull, hs'.limits_eq]
  exact ⟨s'.line, by rw [hscan, htokens, Cursor.tokens_of_error herror]⟩

end Scan

end Stencil
