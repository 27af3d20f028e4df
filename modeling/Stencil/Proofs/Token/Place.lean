import Mathlib.Algebra.GroupWithZero.Nat
import Mathlib.Data.String.Basic

/-! Lines and columns of a text against its bytes. -/
namespace Stencil

open String (utf8Len)

/-- The byte at which a line of a text starts. Lines are counted from one. -/
def lineStart? (text : List Char) (line : Nat) : Option Nat :=
  let lines := text.splitOn '\n'
  if 0 < line ∧ line ≤ lines.length then
    some ((lines.take (line - 1)).map fun l => utf8Len l + 1).sum
  else none

/-- The byte that a line and a column denote. Columns are counted from one. -/
def byteAt? (text : List Char) (line column : Nat) : Option Nat :=
  if 0 < column then (lineStart? text line).map (· + (column - 1)) else none

theorem length_splitOn (a : Char) (cs : List Char) :
    (cs.splitOn a).length = cs.count a + 1 := by
  induction cs with
  | nil => rfl
  | cons c cs ih =>
    rw [List.splitOn_cons_eq_if_modifyHead, List.count_cons]
    split
    · rw [List.length_cons, ih]
    · rw [List.length_modifyHead, ih, Nat.add_zero]

/-- Every line but the last takes a byte more, that of its line end. -/
theorem sum_splitOn (a : Char) (ha : a.utf8Size = 1) (cs : List Char) :
    ((cs.splitOn a).map fun l => utf8Len l + 1).sum = utf8Len cs + 1 := by
  induction cs with
  | nil => rfl
  | cons c cs ih =>
    obtain ⟨l, ls, hlines⟩ := List.exists_cons_of_ne_nil (List.splitOn_ne_nil a cs)
    rw [List.splitOn_cons_eq_if_modifyHead]
    rw [hlines] at ih ⊢
    simp only [List.map_cons, List.sum_cons] at ih
    split
    · rename_i hc
      have hsize : c.utf8Size = 1 := by rw [beq_iff_eq.1 hc, ha]
      simp only [List.map_cons, List.sum_cons, String.utf8Len_cons, String.utf8Len_nil]
      omega
    · simp only [List.modifyHead_cons, List.map_cons, List.sum_cons, String.utf8Len_cons]
      omega

theorem byteAt?_start (text : List Char) : byteAt? text 1 1 = some 0 := by
  have hlines : 1 ≤ (text.splitOn '\n').length := by
    rw [length_splitOn]
    omega
  simp [byteAt?, lineStart?, hlines]

/-- Columns count bytes. -/
theorem byteAt?_add {text : List Char} {line column byte : Nat}
    (h : byteAt? text line column = some byte) (n : Nat) :
    byteAt? text line (column + n) = some (byte + n) := by
  unfold byteAt? at h ⊢
  split at h
  · rename_i hpos
    have hpos' : 0 < column + n := by omega
    rw [if_pos hpos']
    obtain ⟨start, hstart, rfl⟩ := Option.map_eq_some_iff.1 h
    have hsum : start + (column + n - 1) = start + (column - 1) + n := by omega
    rw [hstart, Option.map_some, hsum]
  · cases h

/-- Behind a line end the next line starts. -/
theorem byteAt?_line (front rest : List Char) :
    byteAt? (front ++ '\n' :: rest) (front.count '\n' + 1 + 1) 1 = some (utf8Len front + 1) := by
  have hlines : (front ++ '\n' :: rest).splitOn '\n' = front.splitOn '\n' ++ rest.splitOn '\n' :=
    List.splitOn_append_cons_self front rest
  have hcount : (front.splitOn '\n').length = front.count '\n' + 1 := length_splitOn '\n' front
  have hbound : front.count '\n' + 1 + 1 ≤ (front.splitOn '\n' ++ rest.splitOn '\n').length := by
    have hrest : 0 < (rest.splitOn '\n').length := List.length_pos_iff.2 (List.splitOn_ne_nil _ _)
    rw [List.length_append]
    omega
  have hbefore : (front.splitOn '\n' ++ rest.splitOn '\n').take (front.count '\n' + 1) =
      front.splitOn '\n' := by
    rw [← hcount, List.take_left]
  have hstart : lineStart? (front ++ '\n' :: rest) (front.count '\n' + 1 + 1) =
      some (utf8Len front + 1) := by
    unfold lineStart?
    rw [hlines]
    dsimp only
    rw [if_pos ⟨Nat.succ_pos _, hbound⟩, Nat.add_sub_cancel, hbefore, sum_splitOn '\n' rfl]
  rw [byteAt?, if_pos Nat.one_pos, hstart]
  rfl

example : byteAt? ['a', '\n', 'é', '\n', 'b'] 3 1 = some 5 := by decide

end Stencil
