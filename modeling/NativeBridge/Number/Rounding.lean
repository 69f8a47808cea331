import NativeBridge.Number.Arithmetic

/-! Rounding to integers.

    A rounding mode picks one of the two integers around a quotient, and `Binary.integral` applies
    it to the exact value of a number. `Binary.roundHalfEven` has no mode of its own: it rounds a
    tie away from zero and then repairs it. `Binary.toUnsigned` truncates and clamps to the
    unsigned 64-bit range. -/

namespace NativeBridge

/-- Which of the two integers around a value is taken. -/
inductive RoundingMode where
  | down | up | towardZero | halfAway
  deriving DecidableEq, Repr

/-- Absolute value of `± num / den` rounded to an integer. -/
def RoundingMode.quotient (mode : RoundingMode) (negative : Bool) (num den : Nat) : Nat :=
  let away := (num + (den - 1)) / den
  match mode with
  | .down => if negative then away else num / den
  | .up => if negative then num / den else away
  | .towardZero => num / den
  | .halfAway => (2 * num + den) / (2 * den)

namespace Binary

variable {f : Format}

/-- The number rounded to an integer; a zero result keeps the sign, as do infinities and NaN. -/
def integral (mode : RoundingMode) (x : Binary f) : Binary f :=
  match x.value with
  | .finite s m e =>
    if 0 ≤ e then x else nearest s (mode.quotient s m (pow2 (-e).toNat)) 0
  | _ => x

/-- The nearest integer, a tie to the even one: where rounding away from zero went exactly one
    half too far, the half of the number is rounded instead, and doubled. -/
def roundHalfEven (x : Binary f) : Binary f :=
  let z := x.integral .halfAway
  if (x - z).abs.eq half then two * (x / two).integral .halfAway else z

/-- The value cut toward zero, as an integer; zero for what is not finite. -/
def integerPart (x : Binary f) : Int :=
  match x.value with
  | .finite s m e =>
    let size := if 0 ≤ e then m * pow2 e.toNat else m / pow2 (-e).toNat
    if s then -(size : Int) else size
  | _ => 0

/-- One more than the largest unsigned 64-bit integer. -/
def unsignedLimit : Nat := pow2 64

/-- The value cut toward zero and clamped to the unsigned 64-bit range; a NaN gives zero. -/
def toUnsigned (x : Binary f) : Nat :=
  match x.value with
  | .nan | .infinite true | .finite true _ _ => 0
  | .infinite false => unsignedLimit - 1
  | .finite false m e =>
    min (unsignedLimit - 1) (if 0 ≤ e then m * pow2 e.toNat else m / pow2 (-e).toNat)

end Binary

end NativeBridge
