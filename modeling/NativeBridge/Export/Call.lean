import NativeBridge.Export.Helper
import NativeBridge.Host
import NativeBridge.Number.Division

/-! Calling what an address leads to.

    Each signature has its own way to call. Code that has another signature, like a helper that
    cannot do its work, answers zero or nothing and leaves its output alone. -/

namespace NativeBridge.Code

/-- Calls code that maps one double to another. -/
def callDouble : Code → Double → Double
  | .helper (.unary function .double), x => function.eval .double x
  | .helper .roundEven, x => x.roundHalfEven
  | _, _ => .zero

/-- Calls code that maps one single precision number to another. -/
def callSingle : Code → Single → Single
  | .helper (.unary function .single), x => function.eval .single x
  | .helper .roundfEven, x => x.roundHalfEven
  | _, _ => .zero

/-- Calls code that maps two doubles to one. -/
def callDoubles : Code → Double → Double → Double
  | .helper (.binary function .double), x, y => function.eval .double x y
  | _, _, _ => .zero

/-- Calls code that maps a double to an unsigned integer. -/
def callUnsigned : Code → Double → Nat
  | .helper .fptoui, x => x.toUnsigned
  | _, _ => 0

/-- Calls code that maps two 64-bit words to one; a signed helper reads them as signed. -/
def callWords : Code → UInt64 → UInt64 → UInt64
  | .helper .sdiv, a, b => (Division.sdiv a.toInt64 b.toInt64).toUInt64
  | .helper .srem, a, b => (Division.srem a.toInt64 b.toInt64).toUInt64
  | .helper .udiv, a, b => Division.udiv a b
  | .helper .urem, a, b => Division.urem a b
  | _, _, _ => 0

/-- Calls code that writes a complex power into `out`. -/
def callPower : Code → Complex → Complex → Complex → Complex
  | .helper .cpow, base, exponent, _ => base.pow exponent
  | _, _, _, out => out

/-- Calls code that converts a value into `out`. -/
def callAdaptor (code : Code) (host : Host) (value : Option Ref) (out : Complex) :
    Host × Int × Complex :=
  match code with
  | .helper .complexAdaptor => host.complexAdaptor value out
  | _ => (host, 0, out)

/-- Calls code that takes a buffer into `out`. -/
def callExtract (code : Code) (host : Host) (object : Option Ref) (out : View) :
    Host × Address × View :=
  match code with
  | .helper .extractRecordData => host.extractRecordData object out
  | _ => (host, .null, out)

/-- Calls code that releases a view. -/
def callRelease (code : Code) (host : Host) (view : View) : Host :=
  match code with
  | .helper .releaseRecordBuffer => (host.releaseRecordBuffer (some view)).1
  | _ => host

/-- Calls code that rebuilds a record. -/
def callRecreate (code : Code) (host : Host) (start : Address) (size : Int) (dtype : Option Ref) :
    Host × Option Ref :=
  match code with
  | .helper .recreateRecord => host.recreateRecord start size dtype
  | _ => (host, none)

end NativeBridge.Code
