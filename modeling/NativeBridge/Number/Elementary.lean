import NativeBridge.Number.Length
import NativeBridge.Number.NearZero

/-! The elementary functions of both formats.

    Their last bits are the platform's, so they are kept together in one record per format and
    everything above is written against the record. -/

namespace NativeBridge

/-- The elementary functions on the numbers of a format. -/
structure Elementary (f : Format) where
  exp : Binary f → Binary f
  expm1 : Binary f → Binary f
  log : Binary f → Binary f
  log1p : Binary f → Binary f
  log10 : Binary f → Binary f
  log2 : Binary f → Binary f
  sin : Binary f → Binary f
  cos : Binary f → Binary f
  tan : Binary f → Binary f
  asin : Binary f → Binary f
  acos : Binary f → Binary f
  atan : Binary f → Binary f
  sinh : Binary f → Binary f
  cosh : Binary f → Binary f
  tanh : Binary f → Binary f
  asinh : Binary f → Binary f
  acosh : Binary f → Binary f
  atanh : Binary f → Binary f
  atan2 : Binary f → Binary f → Binary f
  pow : Binary f → Binary f → Binary f
  hypot : Binary f → Binary f → Binary f

namespace Elementary

variable {f : Format}

/-- A platform function as one on double precision bits. -/
def onDouble (op : Float → Float) (x : Double) : Double :=
  .ofBits (op (.ofBits (.ofNat x.toBits))).toBits.toNat

/-- A platform function of two arguments as one on double precision bits. -/
def onDoubles (op : Float → Float → Float) (x y : Double) : Double :=
  .ofBits (op (.ofBits (.ofNat x.toBits)) (.ofBits (.ofNat y.toBits))).toBits.toNat

/-- A platform function as one on single precision bits. -/
def onSingle (op : Float32 → Float32) (x : Single) : Single :=
  .ofBits (op (.ofBits (.ofNat x.toBits))).toBits.toNat

/-- A platform function of two arguments as one on single precision bits. -/
def onSingles (op : Float32 → Float32 → Float32) (x y : Single) : Single :=
  .ofBits (op (.ofBits (.ofNat x.toBits)) (.ofBits (.ofNat y.toBits))).toBits.toNat

/-- A function that a signaling NaN makes undefined, also where it would ignore a quiet one. -/
def unlessSignaling (op : Binary f → Binary f → Binary f) (x y : Binary f) : Binary f :=
  if x.isSignaling || y.isSignaling then .nan else op x y

/-- The inverse hyperbolic tangent, from the logarithm of one more. Below zero the argument of the
    logarithm comes close to minus one, and the rounding errors of the quotient show. -/
def inverseTanh (log1p : Binary f → Binary f) (x : Binary f) : Binary f :=
  .half * log1p (.two * x / (.one - x))

/-- Double precision. -/
def double : Elementary .binary64 where
  exp := onDouble Float.exp
  expm1 := NearZero.expm1 .double
  log := onDouble Float.log
  log1p := NearZero.log1p .double
  log10 := onDouble Float.log10
  log2 := onDouble Float.log2
  sin := onDouble Float.sin
  cos := onDouble Float.cos
  tan := onDouble Float.tan
  asin := onDouble Float.asin
  acos := onDouble Float.acos
  atan := onDouble Float.atan
  sinh := onDouble Float.sinh
  cosh := onDouble Float.cosh
  tanh := onDouble Float.tanh
  asinh := onDouble Float.asinh
  acosh := onDouble Float.acosh
  atanh := inverseTanh (NearZero.log1p .double)
  atan2 := onDoubles Float.atan2
  pow := unlessSignaling (onDoubles Float.pow)
  hypot := Length.double

/-- Single precision. -/
def single : Elementary .binary32 where
  exp := onSingle Float32.exp
  expm1 := NearZero.expm1 .single
  log := onSingle Float32.log
  log1p := NearZero.log1p .single
  log10 := onSingle Float32.log10
  log2 := onSingle Float32.log2
  sin := onSingle Float32.sin
  cos := onSingle Float32.cos
  tan := onSingle Float32.tan
  asin := onSingle Float32.asin
  acos := onSingle Float32.acos
  atan := onSingle Float32.atan
  sinh := onSingle Float32.sinh
  cosh := onSingle Float32.cosh
  tanh := onSingle Float32.tanh
  asinh := onSingle Float32.asinh
  acosh := onSingle Float32.acosh
  atanh := inverseTanh (NearZero.log1p .single)
  atan2 := onSingles Float32.atan2
  pow := unlessSignaling (onSingles Float32.pow)
  hypot := Length.single

end Elementary

end NativeBridge
