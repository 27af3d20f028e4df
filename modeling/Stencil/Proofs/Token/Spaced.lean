import Stencil.Proofs.Token.Cut

/-! What a cursor that switches itself gives of a block whose words stand one blank apart. -/
namespace Stencil

/-- A word that is cut as a symbol if a blank follows it. -/
structure Spells (limits : Limits) (word : List Char) (x : Symbol) : Prop where
  start : ∃ c cs, word = c :: cs ∧ isSpace c = false
  cut : ∀ rest, cutLexeme .block (word ++ ' ' :: rest) = (.run word, ' ' :: rest)
  kind : ∀ line, wordKind limits line word = .ok x.kind
  text : x.text = if x.kind = .text then String.ofList word else ""

theorem Spells.newline_not_mem {limits : Limits} {word : List Char} {x : Symbol}
    (h : Spells limits word x) : '\n' ∉ word :=
  newline_not_mem_of_cutLexeme (h.cut [])

/-- One block of words, each behind a blank. -/
def blockChars (words : List (List Char)) : List Char :=
  '{' :: '{' :: (words.flatMap (' ' :: ·) ++ [' ', '}', '}'])

theorem not_mem_blockChars {words : List (List Char)} {c : Char} (hc : c ∉ ['{', ' ', '}'])
    (h : ∀ word ∈ words, c ∉ word) : c ∉ blockChars words := by
  intro hmem
  simp only [blockChars, List.mem_cons, List.mem_append, List.mem_flatMap, List.not_mem_nil,
    or_false] at hmem
  rcases hmem with rfl | rfl | ⟨word, hword, rfl | hmem⟩ | rfl | rfl | rfl
  case inr.inr.inl.inr => exact h word hword hmem
  all_goals simp at hc

theorem getLast?_blockChars (words : List (List Char)) : (blockChars words).getLast? = some '}' :=
  List.getLast?_eq_some_iff.2 ⟨'{' :: '{' :: (words.flatMap (' ' :: ·) ++ [' ', '}']), by
    simp [blockChars]⟩

def blockSource (words : List (List Char)) : String := .ofList (blockChars words)

/-- A text that is one name if it is read inside a block. -/
def ScansAsName (name : String) : Prop :=
  ∃ limits tokens, scan limits .block name = .ok tokens ∧
    tokens.map Token.symbol = [⟨.text, name⟩, ⟨.endOfFile, ""⟩]

/-- The first token of all. -/
theorem Cursor.exists_next_of_tokens {s : Cursor} {done tokens : List Token}
    (h : s.tokens done = .ok tokens) :
    ∃ t s' more, s.next = (.ok t, s') ∧ tokens = done.reverse ++ t :: more := by
  rw [Cursor.tokens] at h
  split at h
  · cases h
  · rename_i t s' hnext
    split at h
    · cases h
      exact ⟨t, s', [], hnext, List.reverse_cons⟩
    · rename_i hend
      have hless := s.weight_add_size_next_le (by rw [hnext])
      rw [hnext, Token.weight, if_neg hend] at hless
      have hlt : size s' < size s :=
        Nat.lt_of_lt_of_le (Nat.lt_add_of_pos_left Nat.one_pos) hless
      obtain ⟨t', s'', more, -, rfl⟩ := exists_next_of_tokens h
      exact ⟨t, s', t' :: more, hnext, by simp⟩
termination_by size s

theorem Lexeme.eq_run_of_symbol? {limits : Limits} {x : Lexeme} {name : String}
    (h : x.symbol? limits .block = some ⟨.text, name⟩) :
    x = .run name.toList ∧ wordKind limits 0 name.toList = .ok .text := by
  cases x with
  | run run =>
    simp only [symbol?] at h
    split at h
    · rename_i k hk
      cases h
      rw [if_pos rfl, String.toList_ofList]
      exact ⟨rfl, hk⟩
    · cases h
  | invalid c => cases h
  | _ => cases h

theorem ScansAsName.spells {name : String} (h : ScansAsName name) :
    ∃ limits, Spells limits name.toList ⟨.text, name⟩ := by
  obtain ⟨limits, tokens, hscan, hsymbols⟩ := h
  obtain ⟨cursor, hcursor, htokens⟩ := Except.bind_eq_ok.1 hscan
  obtain ⟨-, rfl⟩ := Cursor.ofSource_ok_iff.1 hcursor
  obtain ⟨t, s', more, hnext, rfl⟩ := Cursor.exists_next_of_tokens htokens
  have hsymbol : t.symbol = ⟨.text, name⟩ := (List.cons.inj hsymbols).1
  have hkind : t.kind = .text := by rw [← Token.symbol_kind, hsymbol]
  obtain ⟨x, hcut, hx, -, -⟩ := Cursor.cut_of_proper hnext (by simp [hkind])
  rw [hsymbol] at hx
  obtain ⟨rfl, hword⟩ := Lexeme.eq_run_of_symbol? hx
  have hne : name.toList ≠ [] := (forall_mem_of_cutLexeme hcut).1
  obtain ⟨c, cs, hcons⟩ := List.exists_cons_of_ne_nil hne
  have hchars : name.toList ++ s'.rest = _ := chars_append_of_cutLexeme hcut
  refine ⟨limits, ⟨c, cs, hcons, ?_⟩, fun rest => ?_, fun line => ?_, ?_⟩
  · rw [hcons] at hchars
    exact Mode.isSpace_of_skip hchars.symm
  · refine cutLexeme_of_border hcut hne ?_
    rintro run - -
    exact (Mode.HaltsAt.cons rfl).border run
  · exact wordKind_mono (Nat.le_refl _) hword line
  · rw [String.ofList_toList]
    rfl

theorem Spells.mono {limits limits' : Limits} {word : List Char} {x : Symbol}
    (hle : limits.identifierLength ≤ limits'.identifierLength) (h : Spells limits word x) :
    Spells limits' word x :=
  ⟨h.start, h.cut, fun line => wordKind_mono hle (h.kind 0) line, h.text⟩

namespace Cuts

variable {limits : Limits} {rest : List Char} {x : Symbol} {xs : List Symbol}

theorem word {word : List Char} (h : Spells limits word x) :
    Cuts limits .block (' ' :: (word ++ ' ' :: rest)) [x] .block (' ' :: rest) := by
  have hskip : Mode.block.skip (' ' :: (word ++ ' ' :: rest)) = word ++ ' ' :: rest := by
    obtain ⟨c, cs, rfl, hspace⟩ := h.start
    rw [Mode.skip, List.dropWhile_cons_of_pos (by rfl), List.cons_append,
      List.dropWhile_cons_of_neg (by simp [hspace])]
  have hsymbol : (Lexeme.run word).symbol? limits .block = some x := by
    rw [Lexeme.symbol?, h.kind]
    dsimp only
    rw [← h.text]
  have hcut : Cuts limits .block (' ' :: (word ++ ' ' :: rest)) [x] (Mode.block.after x.kind)
      (' ' :: rest) :=
    .cons (by rw [hskip]; exact h.cut rest) hsymbol (wordKind_proper (h.kind 0)).2.2 .nil
  rwa [Lexeme.after_of_run hsymbol] at hcut

theorem words {words : List (List Char)} (h : List.Forall₂ (Spells limits) words xs) :
    Cuts limits .block (words.flatMap (' ' :: ·) ++ ' ' :: rest) xs .block (' ' :: rest) := by
  induction h with
  | nil => exact nil
  | @cons w x words xs hword _ ih =>
    -- what follows the word starts with a blank, be it the one before the next word or the last
    have hblank : ∃ more, words.flatMap (' ' :: ·) ++ ' ' :: rest = ' ' :: more := by
      cases words <;> exact ⟨_, rfl⟩
    obtain ⟨more, hmore⟩ := hblank
    rw [List.flatMap_cons, List.append_assoc, hmore]
    rw [hmore] at ih
    exact (word hword).append ih

theorem block {words : List (List Char)} (h : List.Forall₂ (Spells limits) words xs) :
    Cuts limits .literal (blockChars words ++ rest)
      (⟨.openBlock, ""⟩ :: xs ++ [⟨.closeBlock, ""⟩]) .literal rest := by
  have hwords : Cuts limits .block (words.flatMap (' ' :: ·) ++ ' ' :: '}' :: '}' :: rest) xs
      .block (' ' :: '}' :: '}' :: rest) := Cuts.words h
  have hclose : Cuts limits .block (' ' :: '}' :: '}' :: rest) [⟨.closeBlock, ""⟩] .literal rest :=
    .cons (x := .closeBlock) rfl rfl (by simp) .nil
  have hchars : blockChars words ++ rest =
      '{' :: '{' :: (words.flatMap (' ' :: ·) ++ ' ' :: '}' :: '}' :: rest) := by
    simp [blockChars]
  rw [hchars]
  exact .cons (x := .openBlock) rfl rfl (by simp) (hwords.append hclose)

end Cuts

theorem Reads.block {limits : Limits} {rest : List Char} {xs : List Symbol}
    {words : List (List Char)} (h : List.Forall₂ (Spells limits) words xs) :
    Reads limits .literal (blockChars words ++ rest)
      (⟨.openBlock, ""⟩ :: xs ++ [⟨.closeBlock, ""⟩]) .literal rest :=
  (Cuts.block h).reads

theorem tokensAhead_blockSource (limits : Limits) {spell : Symbol → List Char}
    {xs : List Symbol} (hwords : ∀ x ∈ xs, Spells limits (spell x) x)
    (hreturn : ∀ x ∈ xs, '\r' ∉ spell x)
    (hsize : (blockSource (xs.map spell)).utf8ByteSize ≤ limits.inputSize)
    (hcount : xs.length + 3 ≤ limits.tokenCount) :
    ∃ tokens, tokensAhead limits (blockSource (xs.map spell)) = .ok tokens ∧
      tokens.map Token.symbol =
        ⟨.openBlock, ""⟩ :: xs ++ [⟨.closeBlock, ""⟩, ⟨.endOfFile, ""⟩] := by
  have hplain : '\r' ∉ blockChars (xs.map spell) := by
    refine not_mem_blockChars (by simp) fun word hword => ?_
    obtain ⟨x, hx, rfl⟩ := List.mem_map.1 hword
    exact hreturn x hx
  have hspelled : List.Forall₂ (Spells limits) (xs.map spell) xs := by
    rw [List.forall₂_map_left_iff, List.forall₂_same]
    exact hwords
  have hreads : Reads limits .literal (blockChars (xs.map spell) ++ [])
      (⟨.openBlock, ""⟩ :: xs ++ [⟨.closeBlock, ""⟩]) .literal [] := Reads.block hspelled
  rw [List.append_nil, ← String.toList_ofList (l := blockChars (xs.map spell))] at hreads
  obtain ⟨tokens, htokens, hsymbols⟩ := tokensAhead_of_reads hsize
    (by rw [blockSource, String.toList_ofList]; exact .of_not_mem_left hplain) hreads
    (by rw [List.length_append, List.length_cons, List.length_singleton]; omega)
  refine ⟨tokens, htokens, ?_⟩
  rw [hsymbols, List.append_assoc]
  rfl

end Stencil
