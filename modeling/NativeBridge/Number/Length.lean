import NativeBridge.Number.Arithmetic
import NativeBridge.Number.Root

/-! The length of a vector with two parts.

    The root of the sum of the squares is off by what the squares lost. In double precision that is
    made good by one step of Newton's method, whose residual is put together so that its large
    terms cancel exactly; very large and very small parts are scaled first. For single precision
    the squares are exact in double precision already. -/

namespace NativeBridge

namespace Binary

variable {f : Format}

/-- A length from the rule for finite parts: infinite if a part is, even beside a quiet NaN. -/
def lengthBy (finite : Binary f → Binary f → Binary f) (x y : Binary f) : Binary f :=
  if x.isSignaling || y.isSignaling then nan
  else if x.isInfinite || y.isInfinite then infinity false
  else if x.isNaN || y.isNaN then nan
  else finite x y

end Binary

namespace Length

open Binary

/-- The length for `long ≥ short > 0` whose squares are neither too large nor too small. -/
def corrected (long short : Double) : Double :=
  let h := (long * long + short * short).sqrt
  let residual :=
    if (two * short).lt h then
      let d := h - long
      two * d * (long - two * short) + ((ofInt 4 * d - short) * short + d * d)
    else
      let d := h - short
      long * (two * d - long) + (d - two * (long - short)) * d
  h - residual / (two * h)

/-- Whether the short part is too small to change the long one by more than its last bit. -/
def isDominated (long short : Double) : Bool := !(long.scale (-54)).lt short

/-- The length for finite parts in double precision. -/
def ofDoubles (x y : Double) : Double :=
  let long := if x.abs.lt y.abs then y.abs else x.abs
  let short := if x.abs.lt y.abs then x.abs else y.abs
  let shift : Int :=
    if (one.scale 511).lt long then -600
    else if short.lt (one.scale (-459)) then 600
    else 0
  if isDominated (long.scale shift) (short.scale shift) then long + short
  else (corrected (long.scale shift) (short.scale shift)).scale (-shift)

/-- The length in double precision. -/
def double : Double → Double → Double := lengthBy ofDoubles

/-- The length in single precision. -/
def single : Single → Single → Single :=
  lengthBy fun x y =>
    let x : Double := x.convert
    let y : Double := y.convert
    (x * x + y * y).sqrt.convert

end Length

end NativeBridge
