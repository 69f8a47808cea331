import NativeBridge.Layout.Basic
import NativeBridge.Heap.Kind
import NativeBridge.Heap.RefCount

/-! Host objects: what each holds, what its type offers, and which objects it keeps alive.

    Besides the objects of the reference host there are custom ones, whose type has exactly the
    slots it is given. The kind of an object promises how its contents are read, whatever slots
    its type has: a custom object of kind complex, float, descriptor or legacy buffer has the
    contents of that kind. The layouts of bytes, record arrays and records are the reference host's
    own, so no custom object can keep what these kinds promise, and none has them. -/

namespace NativeBridge

/-- An object's identity: its place in the order of creation. -/
abbrev Ref := Nat

/-- Where memory starts: nowhere, in the contents of a bytes object, or in a block outside the
    heap. -/
inductive Address where
  | null
  | object (owner : Ref) (offset : Nat)
  | block (index : Nat) (offset : Nat)
  deriving DecidableEq, Repr

/-- The address `n` bytes further on. -/
def Address.advance (n : Nat) : Address → Address
  | null => null
  | object owner offset => object owner (offset + n)
  | block index offset => block index (offset + n)

/-! ### Parts of objects

    Objects are named by `ρ` and memory by `μ`, so the same description serves for an object to
    be made and for one on the heap. -/

/-- Name of the attribute that holds the object a buffer is taken from. -/
def dataAttribute : String := "data"

/-- A legacy buffer: `size` bytes at `start`, or at `offset` into the memory of its base. A
    negative size reaches to the end of the base. -/
structure Window (ρ μ : Type) where
  base : Option ρ
  start : μ
  size : Int
  offset : Int
  deriving DecidableEq, Repr

/-- Array scalar slots: the family, the element descriptor and the storage, either of which may
    be missing. -/
structure Element (ρ : Type) where
  isComplex : Bool
  descr : Option ρ
  storage : Option (List UInt8)
  deriving DecidableEq, Repr

/-- Buffer slots: what a request answers and writes, and whether exports can be given back. -/
structure Exporter (μ : Type) where
  status : Int
  start : μ
  length : Int
  itemSize : Int
  readOnly : Int
  dimensions : Int
  releases : Bool
  deriving DecidableEq, Repr

/-- A legacy read slot that answers every segment alike. -/
structure Segment (μ : Type) where
  start : μ
  size : Int
  deriving DecidableEq, Repr

/-- The kinds that promise no contents. -/
inductive PlainKind where
  | int | arrayScalar | recordHolder | recordKind | other
  deriving DecidableEq, Repr

/-- The kind of this name among all. -/
def PlainKind.kind : PlainKind → Kind
  | int => .int
  | arrayScalar => .arrayScalar
  | recordHolder => .recordHolder
  | recordKind => .recordKind
  | other => .other

/-- What a custom object is besides its slots: its kind, with the contents that kind promises. -/
inductive Shape (ρ μ : Type) where
  | plain (kind : PlainKind)
  | complex (value : Complex)
  | float (value : Double)
  | descriptor (layout : Layout) (isRecord : Bool)
  | window (window : Window ρ μ)
  deriving DecidableEq, Repr

namespace Shape

variable {ρ μ : Type}

/-- The kind that promises these contents. -/
def kind : Shape ρ μ → Kind
  | plain kind => kind.kind
  | complex _ => .complex
  | float _ => .float
  | descriptor .. => .descriptor
  | window _ => .legacyBuffer

/-- The value of a complex number. -/
def complex? : Shape ρ μ → Option Complex
  | complex value => some value
  | _ => none

/-- The value of a float. -/
def float? : Shape ρ μ → Option Double
  | float value => some value
  | _ => none

/-- The layout of a descriptor and whether it is combined with the record kind. -/
def descriptor? : Shape ρ μ → Option (Layout × Bool)
  | descriptor layout isRecord => some (layout, isRecord)
  | _ => none

/-- The window of a legacy buffer. -/
def window? : Shape ρ μ → Option (Window ρ μ)
  | window w => some w
  | _ => none

/-- The same contents, the memory of a legacy buffer being at `start`. -/
def withStart {ν : Type} (start : ν) : Shape ρ μ → Shape ρ ν
  | plain kind => plain kind
  | complex value => complex value
  | float value => float value
  | descriptor layout isRecord => descriptor layout isRecord
  | window w => window { w with start }

@[simp] theorem kind_withStart {ν : Type} (start : ν) (shape : Shape ρ μ) :
    (shape.withStart start).kind = shape.kind := by
  cases shape <;> rfl

theorem window?_withStart {ν : Type} (start : ν) (shape : Shape ρ μ) :
    (shape.withStart start).window? = shape.window?.map ({ · with start }) := by
  cases shape <;> rfl

end Shape

/-- A custom object: its shape and the slots that its type has. -/
structure Custom (ρ μ : Type) where
  shape : Shape ρ μ
  float : Option (Option ρ)
  element : Option (Element ρ)
  attributes : Option (List (String × ρ))
  exporter : Option (Exporter μ)
  segment : Option (Segment μ)
  deriving DecidableEq, Repr

/-- Every object that a custom one names, as often as it names it. -/
def Custom.refs {ρ μ : Type} (c : Custom ρ μ) : List ρ :=
  (c.shape.window?.bind (·.base)).toList ++ c.float.join.toList ++
    (c.element.bind (·.descr)).toList ++ (c.attributes.getD []).map (·.2)

/-! ### Objects -/

/-- The contents of an object. They never change while it lives. -/
inductive Body where
  | complex (value : Complex)
  | float (value : Double)
  | int (value : Int)
  | scalar (element : Element Ref)
  | descriptor (layout : Layout) (isRecord : Bool)
  | bytes (data : List UInt8)
  | window (window : Window Ref Address)
  | holder (data : Ref)
  | recordArray (descr storage : Ref)
  | record (descr storage : Ref)
  | recordKind
  | custom (custom : Custom Ref Address)
  deriving DecidableEq, Repr

namespace Body

/-- The objects that this one keeps alive. -/
def refs : Body → List Ref
  | scalar element => element.descr.toList
  | window w => w.base.toList
  | holder data => [data]
  | recordArray descr storage | record descr storage => [descr, storage]
  | custom c => c.refs
  | _ => []

/-- The kind of the object. -/
def kind : Body → Kind
  | complex _ => .complex
  | float _ => .float
  | int _ => .int
  | scalar _ => .arrayScalar
  | descriptor .. => .descriptor
  | bytes _ => .bytes
  | window _ => .legacyBuffer
  | holder _ => .recordHolder
  | recordArray .. => .recordArray
  | record .. => .record
  | recordKind => .recordKind
  | custom c => c.shape.kind

/-- The name of the object's type. -/
def typeName : Body → String
  | complex _ => "complex"
  | float _ => "float"
  | int _ => "int"
  | scalar element => if element.isComplex then "complexfloating" else "number"
  | descriptor .. => "dtype"
  | bytes _ => "bytes"
  | window _ => "buffer"
  | holder _ => "holder"
  | recordArray .. => "recarray"
  | record .. => "record"
  | recordKind => "type"
  | custom _ => "custom"

/-- The array scalar slots, if the type has them. -/
def element? : Body → Option (Element Ref)
  | scalar element => some element
  | custom c => c.element
  | _ => none

/-- The value of a complex number. -/
def complex? : Body → Option Complex
  | complex value => some value
  | custom c => c.shape.complex?
  | _ => none

/-- The value of a float. -/
def float? : Body → Option Double
  | float value => some value
  | custom c => c.shape.float?
  | _ => none

/-- The layout of a descriptor and whether it is combined with the record kind. -/
def descriptor? : Body → Option (Layout × Bool)
  | descriptor layout isRecord => some (layout, isRecord)
  | custom c => c.shape.descriptor?
  | _ => none

/-- The window of a legacy buffer. -/
def window? : Body → Option (Window Ref Address)
  | window w => some w
  | custom c => c.shape.window?
  | _ => none

/-- The attributes an object answers, if its type has any. -/
def attributes? : Body → Option (List (String × Ref))
  | holder data => some [(dataAttribute, data)]
  | recordArray _ storage | record _ storage => some [(dataAttribute, storage)]
  | custom c => c.attributes
  | _ => none

@[simp] theorem complex?_complex (value : Complex) : (complex value).complex? = some value := rfl

@[simp] theorem float?_float (value : Double) : (float value).float? = some value := rfl

@[simp] theorem descriptor?_descriptor (layout : Layout) (isRecord : Bool) :
    (descriptor layout isRecord).descriptor? = some (layout, isRecord) := rfl

/-- Whether the type coerces its objects to floats. -/
def hasFloat : Body → Bool
  | float _ | int _ => true
  | scalar element => !element.isComplex
  | custom c => c.float.isSome
  | _ => false

/-- Whether the type exports buffers. -/
def hasBuffer : Body → Bool
  | bytes _ => true
  | custom c => c.exporter.isSome
  | _ => false

/-- Whether the type has the legacy way to read its memory. -/
def hasSegment : Body → Bool
  | bytes _ | window _ => true
  | custom c => c.segment.isSome
  | _ => false

/-- The type of an object in words: its name, its kind and which slots it fills. -/
def describeType (body : Body) : String :=
  let filled (name : String) (present : Bool) := ", " ++ name ++ ": " ++ toString present
  "HostType \x7b name: \"" ++ body.typeName ++ "\", kind: " ++ body.kind.label ++
    filled "number_float" body.hasFloat ++ filled "scalar" body.element?.isSome ++
    filled "get_attr" body.attributes?.isSome ++ filled "buffer" body.hasBuffer ++
    filled "legacy_read_buffer" body.hasSegment ++ " \x7d"

end Body

/-- An object on the heap: its references, its outstanding exports and its contents. -/
structure Object where
  count : RefCount
  exports : Int
  body : Body
  deriving DecidableEq, Repr

end NativeBridge
