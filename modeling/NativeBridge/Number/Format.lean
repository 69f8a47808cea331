/-! Binary floating-point formats and their exact values.

    A number of a format is its bit pattern. `Binary.value` reads it exactly, as a sign and an
    integer multiple of a power of two; `Binary.nearest` goes back, to the closest number of the
    format, a tie to the even one. The bits below the sign bit order the numbers like their
    absolute values, so rounding only has to find the right code and cap it at infinity. -/

namespace NativeBridge

/-- The power of two. -/
abbrev pow2 (n : Nat) : Nat := Nat.pow 2 n

/-- Width of the two stored parts of a number: its fraction and its exponent. -/
structure Format where
  fraction : Nat
  exponent : Nat
  deriving DecidableEq, Repr

namespace Format

/-- Single precision, 32 bits. -/
abbrev binary32 : Format := ⟨23, 8⟩

/-- Double precision, 64 bits. -/
abbrev binary64 : Format := ⟨52, 11⟩

/-- Number of bits below the sign bit. -/
abbrev magnitudeBits (f : Format) : Nat := f.exponent + f.fraction

/-- Number of all bits. -/
abbrev width (f : Format) : Nat := f.magnitudeBits + 1

/-- Exponent of two in the gap between the smallest numbers. -/
def least (f : Format) : Int := 2 - pow2 (f.exponent - 1) - f.fraction

/-- The code of infinity, above those of all finite numbers. -/
def infinity (f : Format) : Nat := (pow2 f.exponent - 1) * pow2 f.fraction

end Format

/-- The quotient rounded to the nearest integer, a tie to the even one. -/
def nearestEven (num den : Nat) : Nat :=
  let quotient := num / den
  let twice := 2 * (num % den)
  if twice < den then quotient
  else if den < twice then quotient + 1
  else quotient + quotient % 2

/-- What a bit pattern stands for; a finite one is `± significand * 2 ^ exponent`. -/
inductive Value where
  | nan
  | infinite (negative : Bool)
  | finite (negative : Bool) (significand : Nat) (exponent : Int)
  deriving DecidableEq, Repr

/-- Code of the number nearest to `significand * 2 ^ exponent`, infinity when it is too large. -/
def Format.nearestCode (f : Format) (significand : Nat) (exponent : Int) : Nat :=
  if significand = 0 then 0
  else
    let gap := max (exponent + significand.log2 - f.fraction) f.least
    let units :=
      if gap ≤ exponent then significand * pow2 (exponent - gap).toNat
      else nearestEven significand (pow2 (gap - exponent).toNat)
    min f.infinity ((gap - f.least).toNat * pow2 f.fraction + units)

/-- A number of a format: its bits. -/
structure Binary (f : Format) where
  bits : BitVec f.width
  deriving DecidableEq, Repr

/-- Double precision number. -/
abbrev Double := Binary .binary64

/-- Single precision number. -/
abbrev Single := Binary .binary32

namespace Binary

variable {f g : Format}

/-- The number with these bits, read as one unsigned integer. -/
def ofBits (bits : Nat) : Binary f := ⟨BitVec.ofNat _ bits⟩

/-- The bits as one unsigned integer. -/
def toBits (x : Binary f) : Nat := x.bits.toNat

/-- Whether the sign bit is set. -/
def negative (x : Binary f) : Bool := pow2 f.magnitudeBits ≤ x.toBits

/-- The bits below the sign bit; they order numbers by absolute value. -/
def code (x : Binary f) : Nat := x.toBits % pow2 f.magnitudeBits

/-- The number with this sign and code. -/
def ofCode (negative : Bool) (code : Nat) : Binary f :=
  ofBits (if negative then pow2 f.magnitudeBits + code else code)

/-- Positive zero. -/
def zero : Binary f := ofCode false 0

/-- The infinity of this sign. -/
def infinity (negative : Bool) : Binary f := ofCode negative f.infinity

/-- The quiet pattern that stands for "not a number". -/
def nan : Binary f := ofCode false (f.infinity + pow2 (f.fraction - 1))

/-- The exact value: equal gaps below the first full exponent, doubling gaps from there on. -/
def value (x : Binary f) : Value :=
  let exponent := x.code / pow2 f.fraction
  let fraction := x.code % pow2 f.fraction
  if f.infinity < x.code then .nan
  else if x.code = f.infinity then .infinite x.negative
  else if exponent = 0 then .finite x.negative fraction f.least
  else .finite x.negative (pow2 f.fraction + fraction) (f.least + (exponent - 1 : Nat))

/-- The number nearest to `± significand * 2 ^ exponent`, a tie to the even code. -/
def nearest (negative : Bool) (significand : Nat) (exponent : Int) : Binary f :=
  ofCode negative (f.nearestCode significand exponent)

/-- The number nearest to an integer; zero is positive. -/
def ofInt (n : Int) : Binary f := nearest (n < 0) n.natAbs 0

/-- The same value in another format, exact when that format is wider. -/
def convert (x : Binary f) : Binary g :=
  match x.value with
  | .nan => nan
  | .infinite s => infinity s
  | .finite s m e => nearest s m e

/-- Whether the pattern is not a number. -/
def isNaN (x : Binary f) : Bool := f.infinity < x.code

/-- Whether the pattern is a NaN without the leading fraction bit that marks the quiet ones. -/
def isSignaling (x : Binary f) : Bool :=
  x.isNaN && x.code % pow2 f.fraction < pow2 (f.fraction - 1)

/-- Whether the number is an infinity. -/
def isInfinite (x : Binary f) : Bool := x.code = f.infinity

/-- Whether the number is a zero, of either sign. -/
def isZero (x : Binary f) : Bool := x.code = 0

/-- The code with its sign; it orders all numbers, the two zeros being equal. -/
def signedCode (x : Binary f) : Int := if x.negative then -(x.code : Int) else x.code

/-- Numeric equality: zeros are equal, a NaN equals nothing. -/
def eq (x y : Binary f) : Bool := !x.isNaN && !y.isNaN && x.signedCode == y.signedCode

/-- Numeric order; a NaN is not below anything. -/
def lt (x y : Binary f) : Bool := !x.isNaN && !y.isNaN && x.signedCode < y.signedCode

/-- The number without its sign. -/
def abs (x : Binary f) : Binary f := ofCode false x.code

/-- The absolute value of `x` with the sign of `y`. -/
def copySign (x y : Binary f) : Binary f := ofCode y.negative x.code

end Binary

end NativeBridge
