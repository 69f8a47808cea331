import NativeBridge.Number.Arithmetic
import NativeBridge.Number.Rounding

/-! The exponential less one and the logarithm of one more, accurate also near zero.

    Both move the argument close to zero with a multiple of the logarithm of two and sum up a
    series there. The rounding errors of that move are known exactly enough to be carried along,
    so the result is within one unit of the last place in either format. -/

namespace NativeBridge

/-- The logarithm of two as a sum. The first part has so few bits that its multiples by small
    integers are exact. -/
structure LogTwo (f : Format) where
  high : Binary f
  low : Binary f
  deriving DecidableEq, Repr

namespace LogTwo

/-- The parts in double precision. -/
def double : LogTwo .binary64 := ⟨.ofBits 0x3fe62e42fee00000, .ofBits 0x3dea39ef35793c76⟩

/-- The parts in single precision. -/
def single : LogTwo .binary32 := ⟨.ofBits 0x3f317180, .ofBits 0x3717f7d1⟩

end LogTwo

namespace NearZero

open Binary

variable {f : Format}

/-- A constant, given by its bits in double precision. -/
def constant (bits : Nat) : Binary f := (ofBits bits : Double).convert

/-- The sum `a * x + b * x ^ 2 + …` for the coefficients `a, b, …`. -/
def series (x : Binary f) (coefficients : List Nat) : Binary f :=
  coefficients.foldr (fun a rest => x * (constant a + rest)) zero

/-! ### The exponential less one -/

/-- Coefficients of `6 / x * (coth (x / 2) - 2 / x)` in `x ^ 2 / 2`, without the leading one. -/
def expCoefficients : List Nat :=
  [0xbfa11111111110f4, 0x3f5a01a019fe5585, 0xbf14ce199eaadbb7, 0x3ed0cfca86e65239,
    0xbe8afdb76e09c32d]

/-- The multiple of the logarithm of two that is nearest to an argument. -/
def nearestMultiple (x : Binary f) : Int :=
  if !(constant 0x3fd62e42fefa39ef : Binary f).lt x.abs then 0
  else if x.abs.lt (constant 0x3ff0a2b23f3bab73) then if x.negative then -1 else 1
  else (constant 0x3ff71547652b82fe * x + half.copySign x).integerPart

/-- The exponential of `x - c` times `2 ^ k`, less one, for small `x` and a tiny correction `c`. -/
def expandExp (k : Int) (x c : Binary f) : Binary f :=
  let h := half * x
  let square := x * h
  let p := one + series square expCoefficients
  let q := ofInt 3 - p * h
  let e := square * ((p - q) / (ofInt 6 - x * q))
  if k = 0 then x - (x * e - square)
  else
    let e := x * (e - c) - c - square
    if k = -1 then half * (x - e) - half
    else if k = 1 then
      if x.lt (nearest true 1 (-2)) then ofInt (-2) * (e - (x + half)) else one + two * (x - e)
    else if k < 0 || 56 < k then (one - (e - x)).scale k - one
    else if k < f.fraction then ((one - one.scale (-k)) - (e - x)).scale k
    else (x - (e + one.scale (-k)) + one).scale k

/-- The exponential less one. -/
def expm1 (logTwo : LogTwo f) (x : Binary f) : Binary f :=
  if x.isNaN then nan
  else if (ofInt (pow2 f.exponent)).lt x.abs then if x.negative then -one else infinity false
  else
    let k := nearestMultiple x
    let high := x - ofInt k * logTwo.high
    let low := ofInt k * logTwo.low
    let rest := high - low
    expandExp k rest (high - rest - low)

/-! ### The logarithm of one more -/

/-- Coefficients of `log ((1 + s) / (1 - s)) / s` in `s ^ 2`, without the leading two. -/
def logCoefficients : List Nat :=
  [0x3fe5555555555593, 0x3fd999999997fa04, 0x3fd2492494229359, 0x3fcc71c51d8e78af,
    0x3fc7466496cb03de, 0x3fc39a09d078c69f, 0x3fc2f112df3e5244]

/-- The parts `(k, r, c)` of `1 + x = 2 ^ k * (1 + r)`, with `1 + r` about between the root of one
    half and the root of two; `c` is what the sum `1 + x` has lost, divided by it. -/
def splitOneMore (x : Binary f) : Int × Binary f × Binary f :=
  if x.lt (constant 0x3fda827ae0000000) && (-x).lt (constant 0x3fd2bec400000000) then (0, x, zero)
  else
    let u := one + x
    let k := u.leadingExponent
    let lost := if 0 < k then one - (u - x) else x - (u - one)
    let m := u.scale (-k)
    if m.lt (constant 0x3ff6a09ee0000000) then (k, m - one, lost / u)
    else (k + 1, half * m - one, lost / u)

/-- The logarithm of `2 ^ k * (1 + r)`, corrected by a tiny `c`. -/
def expandLog (logTwo : LogTwo f) (k : Int) (r c : Binary f) : Binary f :=
  let h := half * r * r
  let s := r / (two + r)
  let t := s * (h + series (s * s) logCoefficients)
  if k = 0 then r - (h - t)
  else ofInt k * logTwo.high - (h - (t + (ofInt k * logTwo.low + c)) - r)

/-- The logarithm of one more, undefined below minus one. -/
def log1p (logTwo : LogTwo f) (x : Binary f) : Binary f :=
  if x.isNaN || x.lt (-one) then nan
  else if x.eq (-one) then infinity true
  else if x.isInfinite then x
  else
    let (k, r, c) := splitOneMore x
    expandLog logTwo k r c

end NearZero

end NativeBridge
