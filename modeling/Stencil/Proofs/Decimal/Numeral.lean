import Stencil.Value.Number

/-! Integers are read back from their numerals, and a text without digits is no numeral. -/
namespace Stencil

section Digits

variable {digits : List Char} {m : Nat}

theorem toNat_of_isDigit {c : Char} (h : c.isDigit = true) : 48 ≤ c.toNat ∧ c.toNat ≤ 57 := by
  simp only [Char.isDigit, Bool.and_eq_true, decide_eq_true_eq, ge_iff_le,
    UInt32.le_iff_toNat_le] at h
  exact h

theorem isDigit_of_mem_decimal {c : Char} (h : c ∈ Nat.toDigits 10 m) : c.isDigit = true :=
  Nat.isDigit_of_mem_toDigits (by decide) (by decide) h

theorem splitSign_of_digits (hdigits : ∀ c ∈ digits, c.isDigit = true) :
    Decimal.splitSign digits = (false, digits) := by
  unfold Decimal.splitSign
  split
  · have hdigit : Char.isDigit '-' = true := hdigits '-' (List.mem_cons_self ..)
    cases hdigit
  · have hdigit : Char.isDigit '+' = true := hdigits '+' (List.mem_cons_self ..)
    cases hdigit
  · rfl

/-- Digits behind a sign, or without one, are read as the number that they make up. -/
theorem readInt64?_of_splitSign {text : List Char} {negative : Bool}
    (hsign : Decimal.splitSign text = (negative, digits)) (hne : digits ≠ [])
    (hdigits : ∀ c ∈ digits, c.isDigit = true) :
    Decimal.readInt64? text = Decimal.int64?
      (if negative then -(Decimal.digitsValue digits : Int) else Decimal.digitsValue digits) := by
  have hempty : digits.isEmpty = false := List.isEmpty_eq_false_iff.2 hne
  rw [Decimal.readInt64?, hsign]
  dsimp only
  rw [hempty, List.all_eq_true.2 hdigits, if_neg (by decide)]

theorem readInt64?_of_digits (hne : digits ≠ []) (hdigits : ∀ c ∈ digits, c.isDigit = true) :
    Decimal.readInt64? digits = Decimal.int64? (Decimal.digitsValue digits) :=
  readInt64?_of_splitSign (splitSign_of_digits hdigits) hne hdigits

theorem digitsValue_decimal (m : Nat) : Decimal.digitsValue (Nat.toDigits 10 m) = m :=
  Nat.ofDigitChars_ten_toDigits

theorem int64?_toInt (n : Int64) : Decimal.int64? n.toInt = some n := by
  rw [Decimal.int64?, if_pos ⟨n.minValue_le_toInt, n.toInt_le⟩, Int64.ofInt_toInt]

end Digits

section Integer

variable (n : Int64)

/-- The numeral of an integer is made of digits, behind a minus if it is negative. -/
theorem toList_integerText : ∃ m : Nat, (n.toInt = m ∧ (integerText n).toList = Nat.toDigits 10 m) ∨
    (n.toInt = -m ∧ (integerText n).toList = '-' :: Nat.toDigits 10 m) := by
  unfold integerText
  cases n.toInt with
  | ofNat m => exact ⟨m, .inl ⟨rfl, Nat.toList_repr⟩⟩
  | negSucc m =>
    have htext : toString (Int.negSucc m) = "-" ++ (m + 1).repr := rfl
    refine ⟨m + 1, .inr ⟨rfl, ?_⟩⟩
    rw [htext, String.toList_append, Nat.toList_repr]
    rfl

theorem readInt64?_integerText : Decimal.readInt64? (integerText n).toList = some n := by
  obtain ⟨m, ⟨hn, htext⟩ | ⟨hn, htext⟩⟩ := toList_integerText n
  · rw [htext, readInt64?_of_digits Nat.toDigits_ne_nil fun c => isDigit_of_mem_decimal,
      digitsValue_decimal, ← hn, int64?_toInt]
  · have hsign : Decimal.splitSign ('-' :: Nat.toDigits 10 m) = (true, Nat.toDigits 10 m) := rfl
    rw [htext, readInt64?_of_splitSign hsign Nat.toDigits_ne_nil fun c => isDigit_of_mem_decimal,
      if_pos rfl, digitsValue_decimal, ← hn, int64?_toInt]

theorem mem_integerText {c : Char} (h : c ∈ (integerText n).toList) :
    c = '-' ∨ c.isDigit = true := by
  obtain ⟨m, ⟨-, htext⟩ | ⟨-, htext⟩⟩ := toList_integerText n
  · rw [htext] at h
    exact .inr (isDigit_of_mem_decimal h)
  · rw [htext, List.mem_cons] at h
    exact h.imp_right isDigit_of_mem_decimal

end Integer

section NoDigits

variable {text : List Char}

theorem mem_of_mem_splitSign {c : Char} (h : c ∈ (Decimal.splitSign text).2) : c ∈ text := by
  unfold Decimal.splitSign at h
  split at h
  · exact List.mem_cons_of_mem _ h
  · exact List.mem_cons_of_mem _ h
  · exact h

theorem readInt64?_eq_none (h : ∀ c ∈ text, c.isDigit = false) :
    Decimal.readInt64? text = none := by
  rcases hsign : Decimal.splitSign text with ⟨negative, digits⟩
  rw [Decimal.readInt64?, hsign]
  dsimp only
  cases digits with
  | nil => rfl
  | cons c digits =>
    have hmem : c ∈ (Decimal.splitSign text).2 := hsign ▸ List.mem_cons_self
    rw [List.all_cons, h c (mem_of_mem_splitSign hmem)]
    rfl

theorem takeWhile_isDigit (h : ∀ c ∈ text, c.isDigit = false) :
    text.takeWhile Char.isDigit = [] ∧ text.dropWhile Char.isDigit = text := by
  cases text with
  | nil => exact ⟨rfl, rfl⟩
  | cons c text =>
    have hc : ¬ c.isDigit = true := by simp [h c]
    exact ⟨List.takeWhile_cons_of_neg hc, List.dropWhile_cons_of_neg hc⟩

/-- The words for infinity and for what is no number are no numerals. -/
theorem readFloat?_eq_none (h : ∀ c ∈ text, c.isDigit = false) :
    Decimal.readFloat? text = none := by
  rcases hsign : Decimal.splitSign text with ⟨negative, unsigned⟩
  have hunsigned : ∀ c ∈ unsigned, c.isDigit = false := by
    intro c hc
    apply h c
    apply mem_of_mem_splitSign
    rwa [hsign]
  obtain ⟨hwhole, hrest⟩ := takeWhile_isDigit hunsigned
  rw [Decimal.readFloat?, hsign]
  dsimp only
  rw [hwhole, hrest]
  split
  · rename_i rest
    obtain ⟨hfraction, -⟩ :=
      takeWhile_isDigit fun c hc => hunsigned c (List.mem_cons_of_mem _ hc)
    rw [hfraction]
    rfl
  · rfl

end NoDigits

end Stencil
