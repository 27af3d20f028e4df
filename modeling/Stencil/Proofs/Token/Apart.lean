import Mathlib.Data.List.Chain
import Stencil.Token.Cursor

/-! Characters that never stand side by side: the two of a line end, and those of a delimiter. A
text without such pairs is left as it is when line ends are joined, and is cut as one run. -/
namespace Stencil

/-- A property of all members of a list can be checked one by one. -/
theorem forall_mem_of_all {α : Type} {P : α → Prop} [DecidablePred P] {l : List α}
    (h : l.all (fun a => decide (P a)) = true) : ∀ a ∈ l, P a := by
  simpa using h

/-- The text does not hold `a` with `b` right behind it. -/
def Apart (a b : Char) (cs : List Char) : Prop := ¬ [a, b] <:+: cs

namespace Apart

variable {a b c : Char} {cs ds : List Char}

theorem iff_isChain : Apart a b cs ↔ cs.IsChain fun x y => ¬ (x = a ∧ y = b) := by
  rw [List.isChain_iff_forall_rel_of_append_cons_cons]
  constructor
  · rintro h x y front back rfl ⟨rfl, rfl⟩
    exact h ⟨front, back, by simp⟩
  · rintro h ⟨front, back, rfl⟩
    exact h (List.append_assoc front [a, b] back) ⟨rfl, rfl⟩

instance : Decidable (Apart a b cs) := decidable_of_iff _ iff_isChain.symm

theorem append_iff : Apart a b (cs ++ ds) ↔
    Apart a b cs ∧ Apart a b ds ∧ ¬ (cs.getLast? = some a ∧ ds.head? = some b) := by
  simp only [iff_isChain, List.isChain_append, Option.mem_def]
  refine and_congr_right fun _ => and_congr_right fun _ => ?_
  constructor
  · rintro h ⟨ha, hb⟩
    exact h a ha b hb ⟨rfl, rfl⟩
  · rintro h x hx y hy ⟨rfl, rfl⟩
    exact h ⟨hx, hy⟩

theorem cons_iff : Apart a b (c :: cs) ↔ ¬ (c = a ∧ cs.head? = some b) ∧ Apart a b cs := by
  have hone : Apart a b [c] := iff_isChain.2 (List.isChain_singleton c)
  rw [← List.singleton_append, append_iff]
  simp [hone, and_comm]

theorem of_not_mem (h : b ∉ cs) : Apart a b cs := by
  rintro ⟨front, back, rfl⟩
  simp at h

theorem of_not_mem_left (h : a ∉ cs) : Apart a b cs := by
  rintro ⟨front, back, rfl⟩
  simp at h

theorem of_part (h : Apart a b ds) (hcs : cs <:+: ds) : Apart a b cs :=
  fun hab => h (hab.trans hcs)

end Apart

/-- A text without line ends of two characters stays as it is. -/
theorem joinLineEnds_of_apart {cs : List Char} (h : Apart '\r' '\n' cs) (done : List Char) :
    joinLineEnds done cs = done.reverse ++ cs := by
  induction cs generalizing done with
  | nil => rw [joinLineEnds, List.append_nil]
  | cons c cs ih =>
    rw [Apart.cons_iff] at h
    rw [joinLineEnds, ih h.2, List.reverse_cons, List.append_assoc, List.singleton_append]
    rintro rest rfl rfl
    exact h.1 ⟨rfl, rfl⟩

theorem joinLineEnds_done (done cs : List Char) :
    joinLineEnds done cs = done.reverse ++ joinLineEnds [] cs := by
  revert done
  -- the recursion lengthens `done`, so each case needs the equation for any beginning
  refine joinLineEnds.induct (fun _ cs => ∀ done,
    joinLineEnds done cs = done.reverse ++ joinLineEnds [] cs) ?_ ?_ ?_ [] cs
  · intro _ done
    simp [joinLineEnds]
  · intro _ rest ih done
    rw [joinLineEnds, joinLineEnds, ih, ih ['\n']]
    simp
  · intro _ c rest hc ih done
    rw [joinLineEnds.eq_3 _ _ _ hc, joinLineEnds.eq_3 _ _ _ hc, ih, ih [c]]
    simp

theorem joinLineEnds_return (cs : List Char) :
    joinLineEnds [] ('\r' :: '\n' :: cs) = '\n' :: joinLineEnds [] cs := by
  rw [joinLineEnds, joinLineEnds_done]
  rfl

theorem joinLineEnds_cons {c : Char} {cs : List Char}
    (h : ∀ rest, c = '\r' → cs = '\n' :: rest → False) :
    joinLineEnds [] (c :: cs) = c :: joinLineEnds [] cs := by
  rw [joinLineEnds.eq_3 _ _ _ h, joinLineEnds_done]
  rfl

/-- Line ends are joined on both sides of a border that none of them crosses. -/
theorem joinLineEnds_append {cs ds : List Char}
    (h : ¬ (cs.getLast? = some '\r' ∧ ds.head? = some '\n')) :
    joinLineEnds [] (cs ++ ds) = joinLineEnds [] cs ++ joinLineEnds [] ds := by
  revert h
  refine joinLineEnds.induct (fun _ cs => ¬ (cs.getLast? = some '\r' ∧ ds.head? = some '\n') →
    joinLineEnds [] (cs ++ ds) = joinLineEnds [] cs ++ joinLineEnds [] ds) ?_ ?_ ?_ [] cs
  · intro _ _
    rfl
  · intro _ rest ih h
    rw [List.cons_append, List.cons_append, joinLineEnds_return, joinLineEnds_return, ih]
    · rfl
    · rintro ⟨hlast, hhead⟩
      exact h ⟨by simp [List.getLast?_cons, hlast], hhead⟩
  · intro _ c rest hc ih h
    rw [List.cons_append, joinLineEnds_cons hc, joinLineEnds_cons, ih]
    · rfl
    · rintro ⟨hlast, hhead⟩
      exact h ⟨by simp [List.getLast?_cons, hlast], hhead⟩
    · rintro more rfl hmore
      cases rest with
      | nil => exact h ⟨rfl, by rw [← List.nil_append ds, hmore]; rfl⟩
      | cons d rest => exact hc rest rfl (by rw [(List.cons.inj hmore).1])

theorem joinLineEnds_eq_nil {cs : List Char} : joinLineEnds [] cs = [] ↔ cs = [] := by
  constructor
  · intro h
    unfold joinLineEnds at h
    split at h
    · rfl
    · rw [joinLineEnds_done] at h
      cases h
    · rw [joinLineEnds_done] at h
      cases h
  · rintro rfl
    rfl

/-- The text holds no delimiter. -/
def Undelimited (cs : List Char) : Prop := Apart '{' '{' cs ∧ Apart '}' '}' cs

instance (cs : List Char) : Decidable (Undelimited cs) := inferInstanceAs (Decidable (_ ∧ _))

theorem startsDelimiter_eq_true {cs : List Char} (h : startsDelimiter cs = true) :
    ∃ rest, cs = '{' :: '{' :: rest ∨ cs = '}' :: '}' :: rest := by
  unfold startsDelimiter at h
  split at h
  · exact ⟨_, .inl rfl⟩
  · exact ⟨_, .inr rfl⟩
  · cases h

namespace Undelimited

variable {c : Char} {cs ds : List Char}

theorem tail (h : Undelimited (c :: cs)) : Undelimited cs :=
  ⟨(Apart.cons_iff.1 h.1).2, (Apart.cons_iff.1 h.2).2⟩

theorem of_part (h : Undelimited ds) (hcs : cs <:+: ds) : Undelimited cs :=
  ⟨h.1.of_part hcs, h.2.of_part hcs⟩

theorem singleton (c : Char) : Undelimited [c] :=
  ⟨Apart.iff_isChain.2 (List.isChain_singleton c), Apart.iff_isChain.2 (List.isChain_singleton c)⟩

theorem startsDelimiter_eq_false (h : Undelimited cs) : startsDelimiter cs = false := by
  refine Bool.eq_false_iff.2 fun hstart => ?_
  obtain ⟨rest, rfl | rfl⟩ := startsDelimiter_eq_true hstart
  · exact h.1 ⟨[], rest, rfl⟩
  · exact h.2 ⟨[], rest, rfl⟩

/-- In front of a text that does not go on with the brace at its end, no delimiter comes about. -/
theorem append (hcs : Undelimited cs) (hds : Undelimited ds)
    (h : ∀ c, cs.getLast? = some c → ds.head? = some c → c ≠ '{' ∧ c ≠ '}') :
    Undelimited (cs ++ ds) := by
  refine ⟨Apart.append_iff.2 ⟨hcs.1, hds.1, ?_⟩, Apart.append_iff.2 ⟨hcs.2, hds.2, ?_⟩⟩
  · rintro ⟨hlast, hhead⟩
    exact (h '{' hlast hhead).1 rfl
  · rintro ⟨hlast, hhead⟩
    exact (h '}' hlast hhead).2 rfl

/-- The same where only the next character is known. -/
theorem append_take_one {rest : List Char} (hcs : Undelimited cs)
    (h : ∀ c, cs.getLast? = some c → rest.head? = some c → c ≠ '{' ∧ c ≠ '}') :
    Undelimited (cs ++ rest.take 1) := by
  cases rest with
  | nil => rwa [List.take_nil, List.append_nil]
  | cons c cs =>
    exact hcs.append (singleton c) h

end Undelimited

/-- One more character in front of a text of which only the beginning is looked at. -/
theorem Undelimited.cons_append_take_one {c : Char} {cs rest : List Char}
    (h : Undelimited (cs ++ rest.take 1)) (hstart : startsDelimiter (c :: (cs ++ rest)) = false) :
    Undelimited (c :: cs ++ rest.take 1) := by
  have hhead : (cs ++ rest.take 1).head? = (cs ++ rest).head? := by
    cases cs <;> cases rest <;> rfl
  refine ⟨Apart.cons_iff.2 ⟨?_, h.1⟩, Apart.cons_iff.2 ⟨?_, h.2⟩⟩
  all_goals
    rintro ⟨rfl, hnext⟩
    obtain ⟨more, hmore⟩ := List.head?_eq_some_iff.1 (hhead.symm.trans hnext)
    rw [hmore] at hstart
    cases hstart

theorem startsDelimiter_cons_of_ne {c : Char} {cs : List Char} (ho : c ≠ '{') (hc : c ≠ '}') :
    startsDelimiter (c :: cs) = false := by
  refine Bool.eq_false_iff.2 fun hstart => ?_
  obtain ⟨rest, heq | heq⟩ := startsDelimiter_eq_true hstart
  · exact ho (List.cons.inj heq).1
  · exact hc (List.cons.inj heq).1

theorem startsDelimiter_append {cs : List Char} (h : startsDelimiter cs = true)
    (more : List Char) : startsDelimiter (cs ++ more) = true := by
  obtain ⟨rest, rfl | rfl⟩ := startsDelimiter_eq_true h <;> rfl

/-- Whether a delimiter starts shows in two characters. -/
theorem startsDelimiter_cons_append {c : Char} {cs : List Char} (more : List Char)
    (h : cs ≠ []) : startsDelimiter (c :: (cs ++ more)) = startsDelimiter (c :: cs) := by
  obtain ⟨d, ds, rfl⟩ := List.exists_cons_of_ne_nil h
  cases hstart : startsDelimiter (c :: d :: ds) with
  | true => exact startsDelimiter_append hstart more
  | false =>
    refine Bool.eq_false_iff.2 fun hmore => ?_
    obtain ⟨rest, heq | heq⟩ := startsDelimiter_eq_true hmore
    all_goals
      simp only [List.cons_append, List.cons.injEq] at heq
      obtain ⟨rfl, rfl, -⟩ := heq
      cases hstart

theorem Undelimited.startsDelimiter_append_eq_false {c : Char} {cs rest : List Char}
    (h : Undelimited (c :: cs ++ rest.take 1)) : startsDelimiter (c :: (cs ++ rest)) = false := by
  by_cases hnil : cs ++ rest.take 1 = []
  · obtain ⟨rfl, hnil⟩ := List.append_eq_nil_iff.1 hnil
    cases rest with
    | nil => exact h.startsDelimiter_eq_false
    | cons d ds => cases hnil
  · have hsplit : cs ++ rest = cs ++ rest.take 1 ++ rest.drop 1 := by
      rw [List.append_assoc, List.take_append_drop]
    rw [hsplit, startsDelimiter_cons_append _ hnil]
    exact h.startsDelimiter_eq_false

/-- Where a run in a mode ends: at the end of the text, in front of a delimiter, and in front of
what does not lengthen it. -/
def Mode.StopsAt (mode : Mode) : List Char → Prop
  | [] => True
  | c :: cs => startsDelimiter (c :: cs) = true ∨ mode.continues c = false

/-- Literal text ends where `rest` starts: nothing there lengthens it, and no delimiter comes about
on the border. -/
structure EndsBefore (text rest : List Char) : Prop where
  stops : Mode.literal.StopsAt rest
  apart : ∀ c, text.getLast? = some c → rest.head? = some c → c ≠ '{' ∧ c ≠ '}'

namespace EndsBefore

variable {text text' rest : List Char}

theorem nil : EndsBefore text [] := ⟨trivial, by simp⟩

theorem newline : EndsBefore text ('\n' :: rest) := by
  refine ⟨.inr rfl, ?_⟩
  rintro c - hc
  cases hc
  decide

theorem openBlock (h : text.getLast? ≠ some '{') : EndsBefore text ('{' :: '{' :: rest) := by
  refine ⟨.inl rfl, ?_⟩
  rintro c htext hc
  cases hc
  exact absurd htext h

/-- Only the end of the text counts. -/
theorem of_append (h : EndsBefore (text ++ text') rest) : EndsBefore text' rest := by
  refine ⟨h.stops, fun c hc => h.apart c ?_⟩
  rw [List.getLast?_append, hc, Option.some_or]

end EndsBefore

/-- A run takes a text of its characters in which no delimiter starts. -/
theorem splitRun_append {mode : Mode} {word rest : List Char}
    (hword : ∀ c ∈ word, mode.continues c = true) (hplain : Undelimited (word ++ rest.take 1))
    (hrest : mode.StopsAt rest) (run : List Char) :
    splitRun mode run (word ++ rest) = (run.reverse ++ word, rest) := by
  induction word generalizing run with
  | nil =>
    cases rest with
    | nil => simp [splitRun]
    | cons c cs =>
      rw [List.nil_append, splitRun, if_pos (by simpa [Mode.StopsAt] using hrest), List.append_nil]
  | cons c word ih =>
    rw [List.forall_mem_cons] at hword
    have hstart := hplain.startsDelimiter_append_eq_false
    rw [List.cons_append, splitRun, if_neg (by simp [hstart, hword.1]), ih hword.2 hplain.tail]
    simp

theorem cutLexeme_cons {mode : Mode} {c : Char} {cs : List Char} (hline : c ≠ '\n')
    (hstart : startsDelimiter (c :: cs) = false) :
    cutLexeme mode (c :: cs) =
      if !(isGraphic c || isSpace c) then (.invalid c, c :: cs)
      else if mode = .block && isSeparator c then (.run [c], cs)
      else (.run (splitRun mode [c] cs).1, (splitRun mode [c] cs).2) := by
  unfold cutLexeme
  split
  · contradiction
  · rename_i h
    exact absurd (List.cons.inj h).1 hline
  · rename_i h
    rw [h] at hstart
    cases hstart
  · rename_i h
    rw [h] at hstart
    cases hstart
  · rename_i h
    obtain ⟨rfl, rfl⟩ := List.cons.inj h
    rfl

/-- A text of the characters of a run, in which no delimiter starts, is cut as one run. -/
theorem cutLexeme_run {mode : Mode} {word rest : List Char} (hne : word ≠ [])
    (hword : ∀ c ∈ word, mode.continues c = true) (hplain : Undelimited (word ++ rest.take 1))
    (hrest : mode.StopsAt rest) : cutLexeme mode (word ++ rest) = (.run word, rest) := by
  obtain ⟨c, cs, rfl⟩ := List.exists_cons_of_ne_nil hne
  rw [List.forall_mem_cons] at hword
  have hline : c ≠ '\n' := by
    rintro rfl
    cases mode <;> cases hword.1
  have hvalid : (isGraphic c || isSpace c) = true ∧ (mode = .block → isSeparator c = false) := by
    cases mode with
    | literal => exact ⟨hword.1, nofun⟩
    | block =>
      have hparts : isGraphic c = true ∧ isSeparator c = false := by
        simpa [Mode.continues] using hword.1
      exact ⟨by rw [hparts.1, Bool.true_or], fun _ => hparts.2⟩
  have hseparator : ¬ (mode = .block && isSeparator c) = true := by
    intro h
    rw [Bool.and_eq_true, decide_eq_true_eq] at h
    rw [hvalid.2 h.1] at h
    cases h.2
  rw [List.cons_append,
    cutLexeme_cons hline hplain.startsDelimiter_append_eq_false,
    if_neg (by simp [hvalid.1]), if_neg hseparator, splitRun_append hword.2 hplain.tail hrest]
  rfl

theorem eq_nil_of_cutLexeme {mode : Mode} {cs rest : List Char}
    (h : cutLexeme mode cs = (.endOfFile, rest)) : cs = [] := by
  unfold cutLexeme at h
  split at h
  · rfl
  · cases h
  · cases h
  · cases h
  · split at h
    · cases h
    · split at h <;> cases h

theorem mem_splitRun {mode : Mode} {run cs : List Char} {c : Char}
    (h : c ∈ (splitRun mode run cs).1) : c ∈ run ∨ mode.continues c = true := by
  induction cs generalizing run with
  | nil => exact .inl (List.mem_reverse.1 h)
  | cons d cs ih =>
    rw [splitRun] at h
    split at h
    · exact .inl (List.mem_reverse.1 h)
    · rename_i hgoes
      simp only [Bool.or_eq_true, Bool.not_eq_true', not_or, Bool.not_eq_false] at hgoes
      rcases ih h with hmem | hc
      · rcases List.mem_cons.1 hmem with rfl | hmem
        · exact .inr hgoes.2
        · exact .inl hmem
      · exact .inr hc

/-- No line end is part of a run. -/
theorem newline_not_mem_of_cutLexeme {mode : Mode} {cs run rest : List Char}
    (h : cutLexeme mode cs = (.run run, rest)) : '\n' ∉ run := by
  unfold cutLexeme at h
  split at h
  · cases h
  · cases h
  · cases h
  · cases h
  · rename_i c cs hline _ _
    have hc : '\n' ≠ c := by
      rintro rfl
      exact hline rfl
    split at h
    · cases h
    · split at h
      · cases h
        simpa using hc
      · cases h
        intro hmem
        rcases mem_splitRun hmem with hmem | hgoes
        · exact hc (List.mem_singleton.1 hmem)
        · cases mode <;> cases hgoes

/-- Blanks in front of the next lexeme count for nothing inside a block. -/
def Mode.skip : Mode → List Char → List Char
  | .literal, cs => cs
  | .block, cs => cs.dropWhile isSpace

end Stencil
