import NativeBridge.Number.Format

/-! The shortest decimal that reads back as a number.

    A number owns the interval of values that round to it; its ends belong to it when its
    significand is even. With one digit, two digits and so on, the two neighbours of the value
    on that decimal grid are tried, and the first grid with one inside the interval wins. All
    comparisons are between integers. -/

namespace NativeBridge

/-- The decimal `digits * 10 ^ exponent`. -/
structure Decimal where
  digits : Nat
  exponent : Int
  deriving DecidableEq, Repr

namespace Decimal

/-- A value and the ends of its interval, in units of `num / den`. -/
structure Interval where
  low : Nat
  value : Nat
  high : Nat
  closed : Bool
  num : Nat
  den : Nat
  deriving Repr

/-- The interval of `significand * 2 ^ exponent`, in quarters of the gap above it. The gap below
    is half as wide at a power of two, except at the smallest numbers. -/
def Interval.of (f : Format) (significand : Nat) (exponent : Int) : Interval :=
  let narrow := significand = pow2 f.fraction ∧ f.least < exponent
  { low := 4 * significand - (if narrow then 1 else 2)
    value := 4 * significand
    high := 4 * significand + 2
    closed := significand % 2 = 0
    num := pow2 (exponent - 2).toNat
    den := pow2 (2 - exponent).toNat }

/-- Place of the first digit of `num / den`: how often ten goes into it, or it into ten. -/
def leadingPlace (num den : Nat) : Int :=
  if den ≤ num then ((Nat.toDigits 10 (num / den)).length : Int) - 1
  else
    let inverse := (den + num - 1) / num
    Int.neg (Nat.toDigits 10 (inverse - 1)).length

/-- The neighbour of the value on the grid of `10 ^ place` that lies in the interval; of two the
    nearer, and in the middle the upper one. -/
def Interval.onGrid? (i : Interval) (place : Int) : Option Decimal :=
  let a := i.num * Nat.pow 10 (-place).toNat
  let b := i.den * Nat.pow 10 place.toNat
  let inside (d : Nat) : Bool :=
    if i.closed then i.low * a ≤ d * b && d * b ≤ i.high * a
    else i.low * a < d * b && d * b < i.high * a
  let down := i.value * a / b
  let downNearer := i.value * a - down * b < (down + 1) * b - i.value * a
  if inside down && (downNearer || !inside (down + 1)) then some ⟨down, place⟩
  else if inside (down + 1) then some ⟨down + 1, place⟩
  else none

/-- Drops zeros at the end of the digits, of which there are fewer than `fuel`. -/
def trim (d : Decimal) : Nat → Decimal
  | 0 => d
  | fuel + 1 =>
    if d.digits ≠ 0 ∧ d.digits % 10 = 0 then trim ⟨d.digits / 10, d.exponent + 1⟩ fuel else d

/-- Digits that suffice for every number of the two formats. -/
def mostDigits : Nat := 17

/-- The shortest decimal that reads back as `significand * 2 ^ exponent`. -/
def shortest (f : Format) (significand : Nat) (exponent : Int) : Decimal :=
  let i := Interval.of f significand exponent
  let first := leadingPlace (i.value * i.num) i.den
  match (List.range mostDigits).findSome? fun n : Nat => i.onGrid? (first - n) with
  | some d => d.trim (mostDigits + 1)
  | none => ⟨0, 0⟩

end Decimal

end NativeBridge
