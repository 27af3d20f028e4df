import Stencil.Proofs.Decimal.Numeral
import Stencil.Proofs.Document.Print
import Stencil.Proofs.Token.Spaced

/-! What the words of a block are read as when its expression is written out. -/
namespace Stencil

variable {limits : Limits} {run word : List Char}

/-- Only digits around a point, behind a minus or not, are read as a double. -/
theorem floatLiteral?_eq_none (h : ¬ Fractional run) : floatLiteral? run = none := by
  unfold floatLiteral?
  extract_lets negative unsigned whole
  have hsigned : run = (if negative then ['-'] else []) ++ unsigned := by
    by_cases hminus : run.head? = some '-'
    · obtain ⟨rest, rfl⟩ := List.head?_eq_some_iff.1 hminus
      simp [unsigned, negative]
    · simp [unsigned, negative, hminus]
  split
  · rename_i fraction hpoint
    split
    · rfl
    · rename_i hdigits
      simp only [Bool.or_eq_true, not_or, List.isEmpty_iff, Bool.not_eq_true', Bool.not_eq_false,
        List.all_eq_true] at hdigits
      obtain ⟨⟨hwhole, hne⟩, hfraction⟩ := hdigits
      refine absurd ⟨if negative then ['-'] else [], whole, fraction, ?_,
        ⟨hwhole, List.all_eq_true.1 List.all_takeWhile⟩, ⟨hne, hfraction⟩, ?_⟩ h
      · cases negative <;> simp
      · rw [List.append_assoc, ← hpoint, List.takeWhile_append_dropWhile]
        exact hsigned
  · rfl

theorem not_fractional_of_digits (h : ∀ c ∈ run, c.isDigit = true) : ¬ Fractional run := by
  rintro ⟨sign, whole, fraction, -, -, -, rfl⟩
  have hpoint : Char.isDigit '.' = true := h '.' (by simp)
  cases hpoint

/-- Numbers start with a digit or a minus. -/
theorem not_numberShaped {c : Char} {cs : List Char} (hdigit : c.isDigit = false)
    (hminus : c ≠ '-') : ¬ NumberShaped (c :: cs) := by
  rintro (hdigits | ⟨sign, whole, fraction, hsign, ⟨hne, hwhole⟩, -, heq⟩)
  · rw [hdigits c (List.mem_cons_self ..)] at hdigit
    cases hdigit
  · rcases hsign with rfl | rfl
    · obtain ⟨d, ds, rfl⟩ := List.exists_cons_of_ne_nil hne
      obtain rfl : c = d := (List.cons.inj heq).1
      rw [hwhole c (List.mem_cons_self ..)] at hdigit
      cases hdigit
    · exact hminus (List.cons.inj heq).1

theorem isSpace_eq_false_of_isGraphic {c : Char} (h : isGraphic c = true) : isSpace c = false := by
  refine Bool.eq_false_iff.2 fun hspace => ?_
  simp only [isSpace, Bool.or_eq_true, beq_iff_eq] at hspace
  rcases hspace with (((rfl | rfl) | rfl) | rfl) | rfl <;> cases h

namespace Spells

/-- A run is a word of its own between blanks. -/
theorem of_run {k : TokenKind} (hne : word ≠ [])
    (hword : ∀ c ∈ word, Mode.block.continues c = true) (hplain : Undelimited word)
    (hkind : ∀ line, wordKind limits line word = .ok k) :
    Spells limits word ⟨k, if k = .text then .ofList word else ""⟩ := by
  refine ⟨?_, fun rest => ?_, hkind, rfl⟩
  · obtain ⟨c, cs, rfl⟩ := List.exists_cons_of_ne_nil hne
    refine ⟨c, cs, rfl, ?_⟩
    have hc := hword c (List.mem_cons_self ..)
    rw [Mode.continues, Bool.and_eq_true] at hc
    exact isSpace_eq_false_of_isGraphic hc.1
  · refine cutLexeme_run hne hword (hplain.append_take_one ?_) (.inr rfl)
    rintro c - hc
    cases hc
    decide

/-- A word that is neither a name nor a number. -/
theorem of_reserved {word : String} {k : TokenKind} (h : reserved? word = some k)
    (hk : k ≠ .text) (hne : word ≠ "")
    (hword : word.toList.all (fun c => Mode.block.continues c && c != '{' && c != '}') = true) :
    Spells limits word.toList ⟨k, ""⟩ := by
  have hplain : ∀ c ∈ word.toList, Mode.block.continues c = true ∧ c ≠ '{' ∧ c ≠ '}' := by
    simpa [and_assoc] using hword
  have hkind : ∀ line, wordKind limits line word.toList = .ok k := by
    intro line
    rw [wordKind, String.ofList_toList, h]
  have hspelled := of_run (by simpa using hne) (fun c hc => (hplain c hc).1)
    ⟨.of_not_mem fun h => (hplain _ h).2.1 rfl, .of_not_mem fun h => (hplain _ h).2.2 rfl⟩ hkind
  rwa [if_neg hk] at hspelled

theorem foreachWord : Spells limits "foreach".toList ⟨.foreachWord, ""⟩ :=
  .of_reserved rfl (by simp) (by decide) (by decide)

theorem inWord : Spells limits "in".toList ⟨.inWord, ""⟩ :=
  .of_reserved rfl (by simp) (by decide) (by decide)

theorem endforeachWord : Spells limits "endforeach".toList ⟨.endforeachWord, ""⟩ :=
  .of_reserved rfl (by simp) (by decide) (by decide)

-- separators do not lengthen runs, so that they are no case of `of_run`
theorem leftParen : Spells limits "(".toList ⟨.leftParen, ""⟩ :=
  ⟨⟨_, _, rfl, rfl⟩, fun _ => rfl, fun _ => rfl, rfl⟩

theorem rightParen : Spells limits ")".toList ⟨.rightParen, ""⟩ :=
  ⟨⟨_, _, rfl, rfl⟩, fun _ => rfl, fun _ => rfl, rfl⟩

theorem comma : Spells limits ",".toList ⟨.comma, ""⟩ :=
  ⟨⟨_, _, rfl, rfl⟩, fun _ => rfl, fun _ => rfl, rfl⟩

end Spells

theorem Operator.spells (op : Operator) : Spells limits op.symbol.toList ⟨op.kind, ""⟩ := by
  cases op
  all_goals exact .of_reserved rfl (by simp [kind]) (by decide) (by decide)

theorem reserved?_eq_none {name : String} (h : name ∉ ["(", ")", ","] ++ reservedWords) :
    reserved? name = none := by
  unfold reserved?
  split
  all_goals first | rfl | exact absurd h (by simp [reservedWords])

theorem wordKind_of_isName {name : String} (h : IsName name)
    (hlength : name.length ≤ limits.identifierLength) (line : Nat) :
    wordKind limits line name.toList = .ok .text := by
  have hreserved : reserved? name = none := by
    refine reserved?_eq_none fun hmem => ?_
    rcases List.mem_append.1 hmem with hmem | hmem
    · have hall : ∀ w ∈ ["(", ")", ","], w.toList.any isSeparator = true := by decide
      obtain ⟨c, hc, hseparator⟩ := List.any_eq_true.1 (hall name hmem)
      have hplain := (h.plain c hc).2
      simp [isSeparator, hplain] at hseparator
    · exact h.unreserved hmem
  have hdigits : ¬ name.toList.all Char.isDigit = true := fun hall =>
    h.not_number (.inl (List.all_eq_true.1 hall))
  rw [wordKind, String.ofList_toList, hreserved,
    floatLiteral?_eq_none fun hfraction => h.not_number (.inr hfraction)]
  dsimp only
  rw [if_neg hdigits, String.length_toList, if_neg (Nat.not_lt.2 hlength)]

theorem IsName.spells {name : String} (h : IsName name)
    (hlength : name.length ≤ limits.identifierLength) :
    Spells limits name.toList ⟨.text, name⟩ := by
  have hrun : ∀ c ∈ name.toList, Mode.block.continues c = true := by
    intro c hc
    obtain ⟨hgraphic, hl, hr, hcomma⟩ := h.plain c hc
    simp [Mode.continues, isSeparator, hgraphic, hl, hr, hcomma]
  have hspelled := Spells.of_run (by simpa using h.ne_empty) hrun h.undelimited
    (wordKind_of_isName h hlength)
  rwa [if_pos rfl, String.ofList_toList] at hspelled

/-- The functions have names that could be those of slots. -/
theorem Builtin.name_isName (f : Builtin) : IsName f.name := by
  cases f
  all_goals
    refine ⟨by decide, forall_mem_of_all (by decide), by decide, by decide, ?_⟩
    exact not_numberShaped (by rfl) (by decide)

section Digits

variable {n : Int64} {m : Nat}

theorem continues_of_isDigit {c : Char} (h : c.isDigit = true) :
    Mode.block.continues c = true := by
  have hseparator : isSeparator c = false := by
    refine Bool.eq_false_iff.2 fun hc => ?_
    simp only [isSeparator, Bool.or_eq_true, beq_iff_eq] at hc
    rcases hc with (rfl | rfl) | rfl <;> cases h
  obtain ⟨hlow, hhigh⟩ := toNat_of_isDigit h
  have hgraphic : isGraphic c = true := by
    simp only [isGraphic, Bool.and_eq_true, decide_eq_true_eq, Char.le_def, UInt32.le_iff_toNat_le]
    exact ⟨Nat.le_trans (by decide) hlow, Nat.le_trans hhigh (by decide)⟩
  simp [Mode.continues, hgraphic, hseparator]

/-- Digits are never a reserved word or a double. -/
theorem wordKind_of_digits (hne : run ≠ []) (hdigits : ∀ c ∈ run, c.isDigit = true) (line : Nat) :
    wordKind limits line run =
      match Decimal.int64? (Decimal.digitsValue run) with
      | some n => .ok (.number (.int n))
      | none => .error (.numberOutOfRange (.ofList run) line) := by
  have hreserved : reserved? (.ofList run) = none := by
    refine reserved?_eq_none fun hmem => ?_
    have hother : ∀ w ∈ ["(", ")", ","] ++ reservedWords, w.toList.all Char.isDigit = false := by
      decide
    have hall := hother _ hmem
    rw [String.toList_ofList, List.all_eq_true.2 hdigits] at hall
    cases hall
  rw [wordKind, hreserved, floatLiteral?_eq_none (not_fractional_of_digits hdigits)]
  dsimp only
  have hread := readInt64?_of_digits hne hdigits
  cases hvalue : Decimal.int64? (Decimal.digitsValue run) with
  | some n => rw [if_pos (List.all_eq_true.2 hdigits), hread, hvalue]
  | none => rw [if_pos (List.all_eq_true.2 hdigits), hread, hvalue]

theorem wordKind_decimal (h : n.toInt = m) (line : Nat) :
    wordKind limits line (Nat.toDigits 10 m) = .ok (.number (.int n)) := by
  rw [wordKind_of_digits Nat.toDigits_ne_nil fun c => isDigit_of_mem_decimal,
    digitsValue_decimal, ← h, int64?_toInt]

/-- An integer without a sign is one word. -/
theorem integer_spells (h : 0 ≤ n.toInt) :
    Spells limits (Number.int n).text.toList ⟨.number (.int n), ""⟩ := by
  obtain ⟨m, hm⟩ := Int.eq_ofNat_of_zero_le h
  have htext : (Number.int n).text.toList = Nat.toDigits 10 m := by
    rw [Number.text, integerText, hm]
    exact Nat.toList_repr
  have hbrace : ∀ c ∈ Nat.toDigits 10 m, c ≠ '{' ∧ c ≠ '}' := by
    intro c hc
    have hdigit := isDigit_of_mem_decimal hc
    constructor <;> (rintro rfl; cases hdigit)
  rw [htext]
  exact Spells.of_run Nat.toDigits_ne_nil
    (fun c hc => continues_of_isDigit (isDigit_of_mem_decimal hc))
    ⟨.of_not_mem fun hmem => (hbrace _ hmem).1 rfl, .of_not_mem fun hmem => (hbrace _ hmem).2 rfl⟩
    (wordKind_decimal hm)

end Digits

end Stencil
