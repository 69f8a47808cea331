import NativeBridge.Number.Elementary
import NativeBridge.Number.Rounding

/-! The mathematical functions on offer, by name, each defined once for every format. -/

namespace NativeBridge

/-- A function of one number. -/
inductive UnaryFunction where
  | sqrt | exp | expm1 | log | log1p | log10 | log2
  | sin | cos | tan | asin | acos | atan
  | sinh | cosh | tanh | asinh | acosh | atanh
  | floor | ceil | trunc | fabs
  deriving DecidableEq, Repr

/-- A function of two numbers. -/
inductive BinaryFunction where
  | atan2 | pow | fmod | hypot | copysign
  deriving DecidableEq, Repr

namespace UnaryFunction

/-- Every function, in the order of registration. -/
def all : List UnaryFunction :=
  [.sqrt, .exp, .expm1, .log, .log1p, .log10, .log2, .sin, .cos, .tan, .asin, .acos, .atan,
    .sinh, .cosh, .tanh, .asinh, .acosh, .atanh, .floor, .ceil, .trunc, .fabs]

/-- Name of the double precision function. -/
def name : UnaryFunction → String
  | sqrt => "sqrt" | exp => "exp" | expm1 => "expm1" | log => "log" | log1p => "log1p"
  | log10 => "log10" | log2 => "log2" | sin => "sin" | cos => "cos" | tan => "tan"
  | asin => "asin" | acos => "acos" | atan => "atan" | sinh => "sinh" | cosh => "cosh"
  | tanh => "tanh" | asinh => "asinh" | acosh => "acosh" | atanh => "atanh"
  | floor => "floor" | ceil => "ceil" | trunc => "trunc" | fabs => "fabs"

/-- The function on the numbers of a format. -/
def eval {f : Format} (lib : Elementary f) : UnaryFunction → Binary f → Binary f
  | sqrt => Binary.sqrt
  | exp => lib.exp
  | expm1 => lib.expm1
  | log => lib.log
  | log1p => lib.log1p
  | log10 => lib.log10
  | log2 => lib.log2
  | sin => lib.sin
  | cos => lib.cos
  | tan => lib.tan
  | asin => lib.asin
  | acos => lib.acos
  | atan => lib.atan
  | sinh => lib.sinh
  | cosh => lib.cosh
  | tanh => lib.tanh
  | asinh => lib.asinh
  | acosh => lib.acosh
  | atanh => lib.atanh
  | floor => Binary.integral .down
  | ceil => Binary.integral .up
  | trunc => Binary.integral .towardZero
  | fabs => Binary.abs

end UnaryFunction

namespace BinaryFunction

/-- Every function, in the order of registration. -/
def all : List BinaryFunction := [.atan2, .pow, .fmod, .hypot, .copysign]

/-- Name of the double precision function. -/
def name : BinaryFunction → String
  | atan2 => "atan2" | pow => "pow" | fmod => "fmod" | hypot => "hypot" | copysign => "copysign"

/-- The function on the numbers of a format. -/
def eval {f : Format} (lib : Elementary f) : BinaryFunction → Binary f → Binary f → Binary f
  | atan2 => lib.atan2
  | pow => lib.pow
  | fmod => Binary.remainder
  | hypot => lib.hypot
  | copysign => Binary.copySign

end BinaryFunction

end NativeBridge
