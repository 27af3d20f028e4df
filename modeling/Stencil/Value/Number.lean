import Stencil.Builtin
import Stencil.Decimal.Text

/-! Numbers: 64-bit integers with exact or failing arithmetic, and doubles. -/
namespace Stencil

inductive Number
  | int (value : Int64)
  | float (value : Float)
  deriving DecidableEq

inductive Operator
  | add
  | subtract
  | multiply
  | divide
  deriving DecidableEq, Repr

def Operator.symbol : Operator → String
  | add => "+"
  | subtract => "-"
  | multiply => "*"
  | divide => "/"

inductive ArithmeticError
  | overflow (op : Operator) (lhs rhs : Int64)
  | remainderOverflow (lhs rhs : Int64)
  | divisionByZero
  | zeroBase (function : Builtin)
  deriving DecidableEq

/-- The decimal digits of an integer after its sign. -/
def integerText (n : Int64) : String := toString n.toInt

def ArithmeticError.message : ArithmeticError → String
  | overflow op a b => s!"integer overflow in {integerText a} {op.symbol} {integerText b}"
  | remainderOverflow a b => s!"integer overflow in {integerText a} mod {integerText b}"
  | divisionByZero => "division by zero"
  | zeroBase f => s!"{f.name} called with a base of zero"

namespace Number

def text : Number → String
  | int n => integerText n
  | float x => Decimal.ofFloat x

/-- The nearest double. -/
def toFloat : Number → Float
  | int n => Float.ofInt n.toInt
  | float x => x

def isZero : Number → Bool
  | int n => n == 0
  | float x => x == 0.0

/-- The integer `n`, or `failure` when it does not fit. -/
def ofInt (failure : ArithmeticError) (n : Int) : Except ArithmeticError Number :=
  match Decimal.int64? n with
  | some n => .ok (.int n)
  | none => .error failure

/-- Sums, differences and products of integers are exact; a quotient is always a double, and
one double operand makes the operation one on doubles. -/
def apply (op : Operator) : Number → Number → Except ArithmeticError Number
  | int a, int b =>
    match op with
    | .add => ofInt (.overflow op a b) (a.toInt + b.toInt)
    | .subtract => ofInt (.overflow op a b) (a.toInt - b.toInt)
    | .multiply => ofInt (.overflow op a b) (a.toInt * b.toInt)
    | .divide =>
      if b = 0 then .error .divisionByZero
      else .ok (.float ((int a).toFloat / (int b).toFloat))
  | a, b =>
    match op with
    | .add => .ok (.float (a.toFloat + b.toFloat))
    | .subtract => .ok (.float (a.toFloat - b.toFloat))
    | .multiply => .ok (.float (a.toFloat * b.toFloat))
    | .divide =>
      if b.toFloat == 0.0 then .error .divisionByZero
      else .ok (.float (a.toFloat / b.toFloat))

/-- The remainder of integers that has the sign of the divisor. The truncated one has the sign of
the dividend, and is one divisor away where the two signs differ. -/
def floorRemainder (a b : Int64) : Int64 :=
  let r := a % b
  if r ≠ 0 ∧ ¬ (r < 0 ↔ b < 0) then r + b else r

/-- The remainder that has the sign of the divisor. The one quotient of integers that does not
fit, that of the least integer by `-1`, counts as overflow. -/
def floorMod (a b : Number) : Except ArithmeticError Number :=
  if b.isZero then .error .divisionByZero
  else match a, b with
    | int a, int b =>
      if a = Int64.minValue ∧ b = -1 then .error (.remainderOverflow a b)
      else .ok (.int (floorRemainder a b))
    | a, b => .ok (.float (a.toFloat - b.toFloat * (a.toFloat / b.toFloat).floor))

end Number

/-- The value of a call with two arguments. Rounding goes to the next multiple of the second
argument; comparison is that of the nearest doubles, and the first argument wins a tie. -/
def Builtin.apply (f : Builtin) (a b : Number) : Except ArithmeticError Number :=
  match f with
  | roundUp =>
    if b.isZero then .error (.zeroBase f)
    else do
      let difference ← Number.apply .subtract b a
      Number.apply .add a (← difference.floorMod b)
  | roundDown =>
    if b.isZero then .error (.zeroBase f)
    else do Number.apply .subtract a (← a.floorMod b)
  | minimum => .ok (if b.toFloat < a.toFloat then b else a)
  | maximum => .ok (if a.toFloat < b.toFloat then b else a)

end Stencil
