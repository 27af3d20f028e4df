/-! The shortest decimal numeral that reads back as a given binary number. -/
namespace Stencil.Decimal

/-- A positive number `value / unit`, with how far below and above it a decimal may lie
and still be read as the same binary number; `closed` says whether the ends count. -/
structure Target where
  value : Nat
  unit : Nat
  below : Nat
  above : Nat
  closed : Bool

/-- The number `m · 2 ^ q` between its two binary neighbours. The neighbour below lies at half
the distance when `m` is the least mantissa of its binade (`binadeStart`). -/
def Target.ofBinary (m : Nat) (q : Int) (binadeStart : Bool) : Target :=
  let scale := Nat.pow 2 q.toNat
  { value := 4 * m * scale
    unit := 4 * Nat.pow 2 (-q).toNat
    below := if binadeStart then scale else 2 * scale
    above := 2 * scale
    closed := m % 2 == 0 }

/-- The exponent of the leading decimal digit. -/
def Target.magnitude (t : Target) : Int :=
  if t.unit ≤ t.value then (Nat.toDigits 10 (t.value / t.unit)).length - 1
  else -(Nat.toDigits 10 ((t.unit - 1) / t.value)).length

/-- The same number measured in units of `10 ^ k`. -/
def Target.inUnitsOf (t : Target) (k : Int) : Target :=
  let scale := Nat.pow 10 (-k).toNat
  { t with
    value := t.value * scale
    unit := t.unit * Nat.pow 10 k.toNat
    below := t.below * scale
    above := t.above * scale }

/-- The whole number nearest to the target among those that read back as it; a tie goes up. -/
def Target.hit? (t : Target) : Option Nat :=
  let floor := t.value / t.unit
  let down := t.value % t.unit
  let up := t.unit - down
  let reaches (distance gap : Nat) := if t.closed then distance ≤ gap else distance < gap
  if reaches down t.below ∧ (2 * down < t.unit ∨ ¬ reaches up t.above) then some floor
  else if reaches up t.above then some (floor + 1)
  else none

/-- Tries grids with ever more digits; `fuel` is the number of grids left to try. -/
def Target.search (t : Target) (k : Int) : Nat → Nat × Int
  | 0 => ((t.inUnitsOf k).value / (t.inUnitsOf k).unit, k)
  | fuel + 1 =>
    match (t.inUnitsOf k).hit? with
    | some 10 => (1, k + 1)
    | some n => (n, k)
    | none => t.search (k - 1) fuel

/-- The decimal `n · 10 ^ k` with the fewest digits that reads back as `m · 2 ^ q`,
and of those the nearest. Seventeen digits always suffice for a 53-bit mantissa. -/
def shortest (m : Nat) (q : Int) (binadeStart : Bool) : Nat × Int :=
  let t := Target.ofBinary m q binadeStart
  t.search t.magnitude 17

end Stencil.Decimal
