import NativeBridge.Number.Format

/-! Sum, product and quotient of two numbers: the exact result, rounded once. They are also what
    the operators mean on numbers of a format. -/

namespace NativeBridge.Binary

variable {f : Format}

/-- One. -/
def one : Binary f := ofInt 1

/-- The number with the other sign. -/
def neg (x : Binary f) : Binary f := ofCode (!x.negative) x.code

/-- The sum; an exact zero is negative only if both terms are. -/
def add (x y : Binary f) : Binary f :=
  match x.value, y.value with
  | .nan, _ | _, .nan => nan
  | .infinite s, .infinite t => if s = t then x else nan
  | .infinite _, _ => x
  | _, .infinite _ => y
  | .finite s m e, .finite t n d =>
    let low := min e d
    let a : Int := m * pow2 (e - low).toNat
    let b : Int := n * pow2 (d - low).toNat
    let sum := (if s then -a else a) + (if t then -b else b)
    nearest (sum < 0 || (sum = 0 && s && t)) sum.natAbs low

/-- The difference. -/
def sub (x y : Binary f) : Binary f := x.add y.neg

/-- The product. -/
def mul (x y : Binary f) : Binary f :=
  let sign := x.negative != y.negative
  match x.value, y.value with
  | .nan, _ | _, .nan => nan
  | .infinite _, _ => if y.isZero then nan else infinity sign
  | _, .infinite _ => if x.isZero then nan else infinity sign
  | .finite _ m e, .finite _ n d => nearest sign (m * n) (e + d)

/-- The number nearest to `m / n * 2 ^ exponent`. The quotient has two bits more than a
    fraction; one more says whether it was cut. -/
def nearestQuotient (negative : Bool) (m n : Nat) (exponent : Int) : Binary f :=
  let shift := f.fraction + 3 + n.log2
  let scaled := m * pow2 shift
  let cut := if scaled % n = 0 then 0 else 1
  nearest negative (2 * (scaled / n) + cut) (exponent - shift - 1)

/-- The quotient. -/
def div (x y : Binary f) : Binary f :=
  let sign := x.negative != y.negative
  match x.value, y.value with
  | .nan, _ | _, .nan | .infinite _, .infinite _ => nan
  | .infinite _, .finite .. => infinity sign
  | .finite .., .infinite _ => ofCode sign 0
  | .finite _ m e, .finite _ n d =>
    if n = 0 then (if m = 0 then nan else infinity sign)
    else nearestQuotient sign m n (e - d)

/-- The product with a power of two. -/
def scale (x : Binary f) (k : Int) : Binary f :=
  match x.value with
  | .finite s m e => nearest s m (e + k)
  | _ => x

/-- Exponent of the leading bit of a finite number that is not zero. -/
def leadingExponent (x : Binary f) : Int :=
  match x.value with
  | .finite _ m e => e + m.log2
  | _ => 0

instance : Neg (Binary f) := ⟨neg⟩
instance : Add (Binary f) := ⟨add⟩
instance : Sub (Binary f) := ⟨sub⟩
instance : Mul (Binary f) := ⟨mul⟩
instance : Div (Binary f) := ⟨div⟩

/-- One half. -/
def half : Binary f := nearest false 1 (-1)

/-- Two. -/
def two : Binary f := ofInt 2

end NativeBridge.Binary
