import Stencil.Assignment
import Stencil.Proofs.Decimal.Numeral

/-! Assignments of values as they are written in a filled template. Integers, strings and arrays of
them are read back, as long as no string looks like something else. -/
namespace Stencil

namespace Text

variable {cs : List Char}

/-- No blank stands at either end. -/
structure Trimmed (cs : List Char) : Prop where
  head : ∀ c ∈ cs.head?, isBlank c = false
  last : ∀ c ∈ cs.getLast?, isBlank c = false

theorem dropWhile_isBlank (h : ∀ c ∈ cs.head?, isBlank c = false) :
    cs.dropWhile isBlank = cs := by
  cases cs with
  | nil => rfl
  | cons c cs =>
    have hc : isBlank c = false := h c rfl
    exact List.dropWhile_cons_of_neg (by simp [hc])

/-- Only what stands between the blanks at the ends is left. -/
theorem trim_append (front : List Char) (hfront : ∀ c ∈ front, isBlank c = true)
    (h : Trimmed cs) : trim (front ++ cs) = cs := by
  have hlast : cs.reverse.dropWhile isBlank = cs.reverse :=
    dropWhile_isBlank (by simpa [List.head?_reverse] using h.last)
  rw [trim, List.dropWhile_append_of_pos hfront, dropWhile_isBlank h.head, hlast,
    List.reverse_reverse]

theorem isBlank_of_isDigit {c : Char} (h : c.isDigit = true) : isBlank c = false := by
  obtain ⟨hlow, hhigh⟩ := toNat_of_isDigit h
  simp only [isBlank, Bool.or_eq_false_iff, Bool.and_eq_false_iff, decide_eq_false_iff_not,
    beq_eq_false_iff_ne]
  omega

end Text

section Intercalate

variable {α : Type} {sep l l' : List α} {ls : List (List α)}

theorem intercalate_cons_head (a : α) : sep.intercalate ((a :: l) :: ls) =
    a :: sep.intercalate (l :: ls) := by
  cases ls <;> simp

theorem intercalate_append_head : sep.intercalate ((l ++ sep ++ l') :: ls) =
    sep.intercalate (l :: l' :: ls) := by
  cases ls <;> simp

/-- The second half of a separator may belong to what it separates. -/
theorem intercalate_pair (a b : α) : [a, b].intercalate (l :: ls) =
    [a].intercalate (l :: ls.map (b :: ·)) := by
  induction ls generalizing l with
  | nil => simp
  | cons l' ls ih =>
    rw [List.intercalate_cons_cons, ih, List.map_cons, List.intercalate_cons_cons,
      intercalate_cons_head]
    simp

end Intercalate

namespace Value

/-- An integer, or a string that does not read as a number and can stand between commas. -/
inductive ReadableItem : Value → Prop
  | int (n : Int64) : ReadableItem (.number (.int n))
  | string {s : String} (digits : ∀ c ∈ s.toList, c.isDigit = false) (comma : ',' ∉ s.toList)
      (trimmed : Text.Trimmed s.toList) : ReadableItem (.string s)

/-- An integer, a string that reads neither as a number nor as an array, or an array that does not
read as an empty one. -/
inductive Readable : Value → Prop
  | int (n : Int64) : Readable (.number (.int n))
  | string {s : String} (digits : ∀ c ∈ s.toList, c.isDigit = false)
      (brackets : ¬ (s.toList.head? = some '[' ∧ s.toList.getLast? = some ']')) :
      Readable (.string s)
  | array {items : List Value} (each : ∀ item ∈ items, item.ReadableItem)
      (lone : items ≠ [.string ""]) : Readable (.array items)

theorem toList_restText (done : String) (items : List Value) : (restText done items).toList =
    [',', ' '].intercalate (done.toList :: items.map fun item => item.text.toList) := by
  induction items generalizing done with
  | nil => simp [restText]
  | cons item items ih =>
    rw [restText, ih, String.toList_append, String.toList_append, List.map_cons]
    exact intercalate_append_head

/-- What stands between the commas of an array. Every item but the first is behind a blank. -/
def pieces (item : Value) (items : List Value) : List (List Char) :=
  item.text.toList :: items.map fun next => ' ' :: next.text.toList

theorem toList_text_array (item : Value) (items : List Value) :
    (array (item :: items)).text.toList =
      '[' :: ([','].intercalate (pieces item items) ++ [']']) := by
  have hopen : "[".toList ++ item.text.toList = '[' :: item.text.toList := rfl
  rw [text, String.toList_append, toList_restText, String.toList_append, hopen,
    intercalate_cons_head, intercalate_pair, List.map_map]
  rfl

end Value

namespace Assignment

theorem readScalar_of_string {s : String} (h : ∀ c ∈ s.toList, c.isDigit = false) :
    readScalar s.toList = .string s := by
  rw [readScalar, readInt64?_eq_none h, readFloat?_eq_none h]
  dsimp only
  rw [String.ofList_toList]

theorem readScalar_of_int (n : Int64) : readScalar (integerText n).toList = .number (.int n) := by
  rw [readScalar, readInt64?_integerText]

end Assignment

namespace Value.ReadableItem

variable {item : Value}

theorem readScalar_eq (h : item.ReadableItem) :
    Assignment.readScalar item.text.toList = item := by
  cases h with
  | int n => exact Assignment.readScalar_of_int n
  | string digits => exact Assignment.readScalar_of_string digits

theorem trimmed (h : item.ReadableItem) : Text.Trimmed item.text.toList := by
  cases h with
  | int n =>
    have hmem : ∀ c ∈ (integerText n).toList, Text.isBlank c = false := by
      intro c hc
      rcases mem_integerText n hc with rfl | hdigit
      · rfl
      · exact Text.isBlank_of_isDigit hdigit
    exact ⟨fun c hc => hmem c (List.mem_of_head? hc),
      fun c hc => hmem c (List.mem_of_getLast? hc)⟩
  | string _ _ trimmed => exact trimmed

theorem comma_not_mem (h : item.ReadableItem) : ',' ∉ item.text.toList := by
  cases h with
  | int n =>
    intro hmem
    rcases mem_integerText n hmem with hminus | hdigit
    · cases hminus
    · cases hdigit
  | string _ comma => exact comma

/-- Only the empty string is written as nothing. -/
theorem text_ne_nil (h : item.ReadableItem) (hne : item ≠ .string "") :
    item.text.toList ≠ [] := by
  cases h with
  | int n =>
    show (integerText n).toList ≠ []
    obtain ⟨m, ⟨-, htext⟩ | ⟨-, htext⟩⟩ := toList_integerText n
    · rw [htext]
      exact Nat.toDigits_ne_nil
    · rw [htext]
      exact List.cons_ne_nil _ _
  | @string s =>
    intro hnil
    have hempty : s = "" := String.toList_eq_nil_iff.1 hnil
    exact hne (congrArg Value.string hempty)

/-- The blank behind a comma is no part of the item. -/
theorem trim_blank (h : item.ReadableItem) :
    Text.trim (' ' :: item.text.toList) = item.text.toList :=
  Text.trim_append [' '] (List.forall_mem_singleton.2 rfl) h.trimmed

end Value.ReadableItem

namespace Assignment

theorem insideBrackets?_brackets (inner : List Char) :
    insideBrackets? ('[' :: (inner ++ [']'])) = some inner := by
  rw [insideBrackets?, if_pos List.getLast?_concat, List.dropLast_concat]

theorem insideBrackets?_eq_none {cs : List Char}
    (h : ¬ (cs.head? = some '[' ∧ cs.getLast? = some ']')) : insideBrackets? cs = none := by
  unfold insideBrackets?
  split
  · rename_i rest
    rw [if_neg]
    intro hlast
    apply h
    rw [List.getLast?_cons, hlast]
    exact ⟨rfl, rfl⟩
  · rfl

section Array

variable {item : Value} {items : List Value}

/-- Only an empty array, or one of an empty string, has nothing but blanks in its brackets. -/
theorem all_isBlank_pieces (hitem : item.ReadableItem) (hlone : item :: items ≠ [.string ""]) :
    ([','].intercalate (Value.pieces item items)).all Text.isBlank = false := by
  cases items with
  | nil =>
    have hne : item ≠ .string "" := fun heq => hlone (by rw [heq])
    obtain ⟨c, cs, htext⟩ := List.exists_cons_of_ne_nil (hitem.text_ne_nil hne)
    have hc : Text.isBlank c = false := hitem.trimmed.head c (by rw [htext]; rfl)
    simp [Value.pieces, htext, hc]
  | cons next items =>
    have hcomma : Text.isBlank ',' = false := rfl
    rw [Value.pieces, List.map_cons, List.intercalate_cons_cons]
    simp [hcomma]

theorem comma_not_mem_pieces (hitem : item.ReadableItem)
    (hitems : ∀ next ∈ items, next.ReadableItem) : ∀ l ∈ Value.pieces item items, ',' ∉ l := by
  rw [Value.pieces, List.forall_mem_cons, List.forall_mem_map]
  refine ⟨hitem.comma_not_mem, fun next hnext => ?_⟩
  simpa using (hitems next hnext).comma_not_mem

/-- Every piece reads as its item. -/
theorem readScalar_pieces (hitem : item.ReadableItem)
    (hitems : ∀ next ∈ items, next.ReadableItem) :
    (Value.pieces item items).map (fun text => readScalar (Text.trim text)) = item :: items := by
  have hfirst : Text.trim item.text.toList = item.text.toList :=
    Text.trim_append [] (List.forall_mem_nil _) hitem.trimmed
  have hnext : ∀ next ∈ items, readScalar (Text.trim (' ' :: next.text.toList)) = next := by
    intro next hnext
    rw [(hitems next hnext).trim_blank, (hitems next hnext).readScalar_eq]
  rw [Value.pieces, List.map_cons, hfirst, hitem.readScalar_eq, List.map_map]
  exact congrArg (item :: ·) ((List.map_congr_left hnext).trans (List.map_id items))

theorem readValue_array (each : ∀ item ∈ items, item.ReadableItem)
    (lone : items ≠ [.string ""]) : readValue (Value.array items).text.toList = .array items := by
  cases items with
  | nil => rfl
  | cons item items =>
    obtain ⟨hitem, hitems⟩ := List.forall_mem_cons.1 each
    have hsplit : ([','].intercalate (Value.pieces item items)).splitOn ',' =
        Value.pieces item items :=
      List.splitOn_intercalate ',' (comma_not_mem_pieces hitem hitems) (List.cons_ne_nil _ _)
    rw [Value.toList_text_array, readValue, insideBrackets?_brackets]
    dsimp only
    rw [all_isBlank_pieces hitem lone, if_neg Bool.false_ne_true, hsplit,
      readScalar_pieces hitem hitems]

end Array

theorem readValue_text {value : Value} (h : value.Readable) :
    readValue value.text.toList = value := by
  cases h with
  | int n =>
    have hbrackets : ¬ ((integerText n).toList.head? = some '[' ∧
        (integerText n).toList.getLast? = some ']') := by
      rintro ⟨hopen, -⟩
      rcases mem_integerText n (List.mem_of_head? hopen) with hminus | hdigit
      · cases hminus
      · cases hdigit
    show readValue (integerText n).toList = .number (.int n)
    rw [readValue, insideBrackets?_eq_none hbrackets]
    exact readScalar_of_int n
  | @string s digits brackets =>
    show readValue s.toList = .string s
    rw [readValue, insideBrackets?_eq_none brackets]
    exact readScalar_of_string digits
  | array each lone => exact readValue_array each lone

/-- An assignment is read at its first colon. -/
theorem read_colon {name rest : String} (hname : name ≠ "") (hcolon : ':' ∉ name.toList) :
    read (name ++ ":" ++ rest) = .ok (name, readValue rest.toList) := by
  have hplain : ∀ c ∈ name.toList, decide (c ≠ ':') = true := by
    intro c hc
    rw [decide_eq_true_iff]
    rintro rfl
    exact hcolon hc
  have htext : (name ++ ":" ++ rest).toList = name.toList ++ ':' :: rest.toList := by
    simp
  have hbefore : (name.toList ++ ':' :: rest.toList).takeWhile (· ≠ ':') = name.toList := by
    rw [List.takeWhile_append_of_pos hplain]
    exact List.append_nil _
  have hbehind : (name.toList ++ ':' :: rest.toList).dropWhile (· ≠ ':') = ':' :: rest.toList := by
    rw [List.dropWhile_append_of_pos hplain]
    rfl
  have hempty : name.toList.isEmpty = false := by
    rw [List.isEmpty_eq_false_iff, Ne, String.toList_eq_nil_iff]
    exact hname
  rw [read, htext, hbehind, hbefore]
  dsimp only
  rw [hempty, if_neg Bool.false_ne_true, String.ofList_toList]

/-- A value is read back from what it is written as in a filled template, unless a string in it
looks like something else. -/
theorem read_text {name : String} {value : Value} (hname : name ≠ "")
    (hcolon : ':' ∉ name.toList) (h : value.Readable) :
    read (name ++ ":" ++ value.text) = .ok (name, value) := by
  rw [read_colon hname hcolon, readValue_text h]

/-- The least integer, a word for no number, half an array, a colon, nothing, and a sign. -/
def oddItems : Value :=
  .array [.number (.int Int64.minValue), .string "nan", .string "[a", .string "b: c", .string "",
    .string "-"]

theorem oddItems_read_text :
    "odd items" ≠ "" ∧ ':' ∉ "odd items".toList ∧ oddItems.Readable ∧
      oddItems.text = "[-9223372036854775808, nan, [a, b: c, , -]" ∧
      read ("odd items" ++ ":" ++ oddItems.text) = .ok ("odd items", oddItems) := by
  have hname : "odd items" ≠ "" := by decide
  have hcolon : ':' ∉ "odd items".toList := by decide
  have hreadable : oddItems.Readable := by
    refine .array ?_ (by simp)
    simp only [List.forall_mem_cons]
    refine ⟨.int _, ?_, ?_, ?_, ?_, ?_, List.forall_mem_nil _⟩
    all_goals
      refine .string (by simp) (by decide) ⟨?_, ?_⟩ <;> rintro c ⟨⟩ <;> rfl
  exact ⟨hname, hcolon, hreadable, rfl, read_text hname hcolon hreadable⟩

end Assignment

end Stencil
