import NativeBridge.Number.Elementary

/-! Complex numbers of two doubles, and their powers. -/

namespace NativeBridge

/-- A complex number in rectangular form. -/
structure Complex where
  real : Double
  imag : Double
  deriving DecidableEq, Repr

namespace Complex

/-- Zero. -/
def zero : Complex := ⟨.zero, .zero⟩

/-- One. -/
def one : Complex := ⟨.one, .zero⟩

/-- A real number as a complex one; the imaginary part is positive zero. -/
def ofReal (x : Double) : Complex := ⟨x, .zero⟩

/-- The distance from zero. -/
def abs (z : Complex) : Double := Elementary.double.hypot z.real z.imag

/-- Equality of numbers: zeros of either sign are equal and a NaN equals nothing. -/
def eq (z w : Complex) : Bool := z.real.eq w.real && z.imag.eq w.imag

/-- Whether both parts are zeros, of any sign. -/
def isZero (z : Complex) : Bool := z.real.isZero && z.imag.isZero

/-- The power in polar form. A zero exponent gives one, and otherwise a zero base gives zero,
    also where the exponent is negative or not real. -/
def pow (base exponent : Complex) : Complex :=
  if exponent.isZero then one
  else if base.isZero then zero
  else
    let lib := Elementary.double
    let size := base.abs
    let angle := lib.atan2 base.imag base.real
    let length := lib.pow size exponent.real
    let phase := angle.mul exponent.real
    let (length, phase) :=
      if exponent.imag.isZero then (length, phase)
      else (length.div (lib.exp (angle.mul exponent.imag)),
        phase.add (exponent.imag.mul (lib.log size)))
    ⟨length.mul (lib.cos phase), length.mul (lib.sin phase)⟩

end Complex

end NativeBridge
