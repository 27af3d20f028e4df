import Stencil.Toml.Tree

/-! Numbers, dates and times of TOML, read from a whole word. -/
namespace Stencil.Toml

/-- Digits in which single underscores may stand between two digits, without the underscores. -/
def joinDigits? (isDigit : Char → Bool) (text : List Char) : Option (List Char) :=
  let parts := text.splitOn '_'
  if parts.all fun part => !part.isEmpty && part.all isDigit then some parts.flatten else none

/-- Decimal digits without a leading zero, zero itself apart. -/
def decimal? (text : List Char) : Option (List Char) := do
  let digits ← joinDigits? Char.isDigit text
  if digits.head? = some '0' ∧ 1 < text.length then none else some digits

/-- The value of digits in a base, when it is a 64-bit integer. -/
def basedInteger? (base : Nat) (isDigit : Char → Bool) (text : List Char) : Option Int64 := do
  let digits ← joinDigits? isDigit text
  let digit (c : Char) : Nat :=
    if c.isDigit then c.toNat - '0'.toNat else c.toUpper.toNat - 'A'.toNat + 10
  Decimal.int64? (digits.foldl (fun n c => base * n + digit c) 0 : Nat)

def isHexDigit (c : Char) : Bool :=
  c.isDigit || ('a' ≤ c && c ≤ 'f') || ('A' ≤ c && c ≤ 'F')

def integer? : List Char → Option Int64
  | '0' :: 'x' :: text => basedInteger? 16 isHexDigit text
  | '0' :: 'o' :: text => basedInteger? 8 (fun c => '0' ≤ c && c ≤ '7') text
  | '0' :: 'b' :: text => basedInteger? 2 (fun c => c == '0' || c == '1') text
  | text => do
    let (negative, unsigned) := Decimal.splitSign text
    let n := Decimal.digitsValue (← decimal? unsigned)
    Decimal.int64? (if negative then -(n : Int) else n)

/-- An exponent without its mark. -/
def exponent? (text : List Char) : Option Int := do
  let (negative, unsigned) := Decimal.splitSign text
  let n := Decimal.digitsValue (← joinDigits? Char.isDigit unsigned)
  return if negative then -(n : Int) else n

/-- A decimal numeral with a fraction, an exponent or both. One too large to be told from
positive infinity is refused. -/
def float? (text : List Char) : Option Float := do
  let (negative, unsigned) := Decimal.splitSign text
  match unsigned with
  | ['i', 'n', 'f'] => return if negative then -(1.0 / 0.0) else 1.0 / 0.0
  | ['n', 'a', 'n'] => return 0.0 / 0.0
  | _ =>
    let isMark (c : Char) := c == 'e' || c == 'E'
    let mantissa := unsigned.takeWhile (!isMark ·)
    let exponent ← match unsigned.dropWhile (!isMark ·) with
      | [] => some 0
      | _ :: text => exponent? text
    let whole ← decimal? (mantissa.takeWhile (· ≠ '.'))
    let fraction ← match mantissa.dropWhile (· ≠ '.') with
      | [] => if mantissa.length = unsigned.length then none else some []
      | _ :: text => joinDigits? Char.isDigit text
    let x := Decimal.nearestFloat negative (Decimal.digitsValue (whole ++ fraction))
      (exponent - fraction.length)
    if x == 1.0 / 0.0 then none else some x

/-- A number of exactly two digits. -/
def twoDigits? : List Char → Option Nat
  | [a, b] => if a.isDigit ∧ b.isDigit then some (Decimal.digitsValue [a, b]) else none
  | _ => none

def daysInMonth (year month : Nat) : Nat :=
  if month = 2 then
    if year % 4 = 0 ∧ (year % 100 ≠ 0 ∨ year % 400 = 0) then 29 else 28
  else if month = 4 ∨ month = 6 ∨ month = 9 ∨ month = 11 then 30
  else 31

def isDate (text : List Char) : Bool :=
  match text.splitOn '-' with
  | [year, month, day] =>
    match twoDigits? month, twoDigits? day with
    | some month, some day =>
      year.length == 4 && year.all Char.isDigit && 1 ≤ month && month ≤ 12 && 1 ≤ day &&
        day ≤ daysInMonth (Decimal.digitsValue year) month
    | _, _ => false
  | _ => false

/-- Hours and minutes. -/
def isClock (text : List Char) : Bool :=
  match text.splitOn ':' with
  | [hour, minute] => (twoDigits? hour).any (· ≤ 23) && (twoDigits? minute).any (· ≤ 59)
  | _ => false

/-- Hours, minutes and seconds, with or without a fraction. -/
def isTime (text : List Char) : Bool :=
  let whole := text.takeWhile (· ≠ '.')
  let fraction := text.drop whole.length
  isClock (whole.take 5) && whole[5]? == some ':' && (twoDigits? (whole.drop 6)).any (· ≤ 60) &&
    (fraction.isEmpty || (1 < fraction.length && (fraction.drop 1).all Char.isDigit))

/-- A time with or without its distance from universal time. -/
def isOffsetTime (text : List Char) : Bool :=
  let time := text.takeWhile fun c => c.isDigit || c == ':' || c == '.'
  isTime time &&
    match text.drop time.length with
    | [] | ['Z'] | ['z'] => true
    | sign :: offset => (sign == '+' || sign == '-') && isClock offset

/-- A date, a time, or both with a `T` between them. -/
def isMoment (text : List Char) : Bool :=
  isTime text || isDate text ||
    (isDate (text.take 10) && (text[10]? == some 'T' || text[10]? == some 't') &&
      isOffsetTime (text.drop 11))

def scalar? (word : List Char) : Option Node :=
  if word = ['t', 'r', 'u', 'e'] then some (.boolean true)
  else if word = ['f', 'a', 'l', 's', 'e'] then some (.boolean false)
  else if isMoment word then some .moment
  else (float? word).map .float <|> (integer? word).map .integer

end Stencil.Toml
