import NativeBridge.Heap.Slots
import NativeBridge.Error

/-! From a dynamic value to a native complex number.

    What the value's type offers decides once how it is read (`NumericKind.of`); a reading that
    then fails is a failure and no other one is tried. The references taken on the way are given
    back before the answer, so a conversion leaves the heap as it found it. -/

namespace NativeBridge

/-- How a value is read as a complex number. -/
inductive NumericKind where
  | nativeComplex | arrayScalar | coercibleReal | notNumeric
  deriving DecidableEq, Repr

namespace NumericKind

/-- The name of the way to read. -/
def name : NumericKind → String
  | nativeComplex => "NativeComplex"
  | arrayScalar => "ArrayScalar"
  | coercibleReal => "CoercibleReal"
  | notNumeric => "NotNumeric"

/-- The first way that fits: the host's complex numbers, then array scalars of the complex
    family, then whatever has a float coercion. -/
def of (body : Body) : NumericKind :=
  if body.kind = .complex then nativeComplex
  else if body.element?.any (·.isComplex) then arrayScalar
  else if body.hasFloat then coercibleReal
  else notNumeric

end NumericKind

namespace Heap

/-- Casts stored element bytes as a descriptor says; `layout` is `none` where the object found
    is no descriptor. -/
def castElement (layout : Option Layout) (storage : Option (List UInt8)) :
    Except ConversionError Complex :=
  match layout, storage with
  | none, _ => .error .descriptorUnavailable
  | some (.record ..), _ => .error .castFailed
  | some (.scalar _), none => .error .castFailed
  | some (.scalar type), some raw => .ok (type.cast raw)

/-- Converts an array scalar through its element descriptor. -/
def adaptElement (h : Heap) (r : Ref) : Heap × Except ConversionError Complex :=
  match h.elementDescriptor r with
  | (h, none) => (h, .error .descriptorUnavailable)
  | (h, some descr) =>
    let result := castElement (h.layout? descr) ((h.element? r).bind (·.storage))
    (h.release descr, result)

/-- Converts a value through its float coercion. -/
def adaptReal (h : Heap) (r : Ref) : Heap × Except ConversionError Complex :=
  match h.coerce r with
  | none => (h, .error .notNumeric)
  | some (h, none) => (h, .error .notNumeric)
  | some (h, some float) =>
    let result :=
      match (h.body? float).bind (·.float?) with
      | some value => .ok (.ofReal value)
      | none => .error .notNumeric
    (h.release float, result)

/-- Converts a value, or the missing value, to a complex number. -/
def adapt (h : Heap) (value : Option Ref) : Heap × Except ConversionError Complex :=
  match value with
  | none => (h, .error .notNumeric)
  | some r =>
    match h.body? r with
    | none => (h, .error .notNumeric)
    | some body =>
      match NumericKind.of body, body.complex? with
      | .nativeComplex, some value => (h, .ok value)
      | .arrayScalar, _ => h.adaptElement r
      | .coercibleReal, _ => h.adaptReal r
      | _, _ => (h, .error .notNumeric)

end Heap

end NativeBridge
