import NativeBridge.Number.Format

/-! Remainder and square root, computed on the exact values and rounded once. -/

namespace NativeBridge

/-- Integer square root, two bits of the argument at a time. -/
def floorSqrt (n : Nat) : Nat :=
  if n = 0 then 0
  else
    let half := 2 * floorSqrt (n / 4)
    if (half + 1) * (half + 1) ≤ n then half + 1 else half
termination_by n
decreasing_by omega

namespace Binary

variable {f : Format}

/-- The number nearest to the root of `significand * 2 ^ exponent`. The root of the shifted
    significand has two bits more than a fraction; one more says whether it was cut. -/
def nearestRoot (significand : Nat) (exponent : Int) : Binary f :=
  let shift := 2 * (f.fraction + 2) + (exponent % 2).toNat
  let scaled := significand * pow2 shift
  let root := floorSqrt scaled
  let cut := if root * root = scaled then 0 else 1
  nearest false (2 * root + cut) ((exponent - shift) / 2 - 1)

/-- The square root: zeros and positive infinity are kept, other negative numbers have none. -/
def sqrt (x : Binary f) : Binary f :=
  match x.value with
  | .nan | .infinite true => nan
  | .infinite false => x
  | .finite s m e => if m = 0 then x else if s then nan else nearestRoot m e

/-- The remainder of the division cut toward zero; its sign is that of the dividend. -/
def remainder (x y : Binary f) : Binary f :=
  match x.value, y.value with
  | .nan, _ | _, .nan | .infinite _, _ => nan
  | .finite .., .infinite _ => x
  | .finite s m e, .finite _ n d =>
    if n = 0 then nan
    else
      let low := min e d
      nearest s (m * pow2 (e - low).toNat % (n * pow2 (d - low).toNat)) low

end Binary

end NativeBridge
