import Stencil.Decimal.Shortest

/-! Numerals: how floating-point numbers and 64-bit integers are written and read. -/
namespace Stencil.Decimal

/-- The decimal exponents of leading digits that are written positionally. -/
structure PositionalRange where
  least : Int
  greatest : Int

/-- Numbers from `10 ^ -4` up to, not including, `10 ^ 16` are written positionally. -/
def positional : PositionalRange := ⟨-4, 15⟩

private def zeros (n : Nat) : List Char := List.replicate n '0'

/-- `digits · 10 ^ k` with a decimal point and at least one digit on either side of it. -/
def positionalText (digits : List Char) (k : Int) : List Char :=
  let places := (-k).toNat
  if places = 0 then digits ++ zeros k.toNat ++ ['.', '0']
  else
    let padded := zeros (places + 1 - digits.length) ++ digits
    let whole := padded.length - places
    padded.take whole ++ '.' :: padded.drop whole

/-- `digits · 10 ^ k` with one digit before the point, and no point after a lone digit. -/
def scientificText (digits : List Char) (k : Int) : List Char :=
  let point := match digits.drop 1 with
    | [] => []
    | fraction => '.' :: fraction
  digits.take 1 ++ point ++ 'e' :: (toString (k + digits.length - 1)).toList

/-- The text of a positive finite number from its shortest decimal. -/
def magnitudeText (n : Nat) (k : Int) : List Char :=
  let digits := Nat.toDigits 10 n
  let leading := k + digits.length - 1
  if positional.least ≤ leading ∧ leading ≤ positional.greatest then positionalText digits k
  else scientificText digits k

/-- One more than the greatest fraction of a double, which has 52 bits. -/
def fractionBound : Nat := 0x10000000000000

/-- One more than the greatest biased exponent of a double, which has 11 bits. -/
def exponentBound : Nat := 0x800

/-- The three fields of a double: sign, biased exponent and fraction. -/
def fields (x : Float) : Bool × Nat × Nat :=
  let bits := x.toBits.toNat
  (fractionBound * exponentBound ≤ bits, bits / fractionBound % exponentBound,
    bits % fractionBound)

/-- The shortest numeral that reads back as `x`, always with a fraction or an exponent. -/
def ofFloat (x : Float) : String :=
  let (negative, exponent, fraction) := fields x
  let unsigned : List Char :=
    if exponent = 0 then
      if fraction = 0 then ['0', '.', '0']
      else
        let (n, k) := shortest fraction (-1074) false
        magnitudeText n k
    else
      let (n, k) := shortest (fractionBound + fraction) (exponent - 1075) (fraction = 0 ∧ 1 < exponent)
      magnitudeText n k
  if exponent + 1 = exponentBound then
    if fraction ≠ 0 then "NaN" else if negative then "-inf" else "inf"
  else String.ofList (if negative then '-' :: unsigned else unsigned)

/-- The value of a string of decimal digits. -/
def digitsValue (digits : List Char) : Nat :=
  digits.foldl (fun n c => 10 * n + (c.toNat - '0'.toNat)) 0

/-- A leading minus or plus sign, and what follows it. -/
def splitSign : List Char → Bool × List Char
  | '-' :: rest => (true, rest)
  | '+' :: rest => (false, rest)
  | rest => (false, rest)

/-- An exponent mark with a signed exponent; the empty text stands for exponent zero. -/
def readExponent? : List Char → Option Int
  | [] => some 0
  | mark :: rest =>
    let (negative, digits) := splitSign rest
    if (mark = 'e' ∨ mark = 'E') ∧ digits ≠ [] ∧ digits.all Char.isDigit then
      some (if negative then -(digitsValue digits : Int) else digitsValue digits)
    else none

/-- The double nearest to `± n · 10 ^ k`, ties to even. -/
def nearestFloat (negative : Bool) (n : Nat) (k : Int) : Float :=
  let magnitude := Float.ofScientific n (k < 0) k.natAbs
  if negative then -magnitude else magnitude

/-- Reads a whole text as a decimal or scientific numeral: an optional sign, digits with an
optional point among or beside them, an optional exponent. -/
def readFloat? (text : List Char) : Option Float :=
  let (negative, text) := splitSign text
  let whole := text.takeWhile Char.isDigit
  let rest := text.dropWhile Char.isDigit
  let (fraction, rest) := match rest with
    | '.' :: rest => (rest.takeWhile Char.isDigit, rest.dropWhile Char.isDigit)
    | rest => ([], rest)
  if whole.isEmpty && fraction.isEmpty then none
  else do
    let exponent ← readExponent? rest
    some (nearestFloat negative (digitsValue (whole ++ fraction)) (exponent - fraction.length))

/-- The 64-bit integer of value `n`, when there is one. -/
def int64? (n : Int) : Option Int64 :=
  if Int64.minValue.toInt ≤ n ∧ n ≤ Int64.maxValue.toInt then some (.ofInt n) else none

/-- Reads a whole text as an optionally signed string of digits within the 64-bit range. -/
def readInt64? (text : List Char) : Option Int64 :=
  let (negative, digits) := splitSign text
  if digits.isEmpty || !digits.all Char.isDigit then none
  else int64? (if negative then -(digitsValue digits : Int) else digitsValue digits)

end Stencil.Decimal
