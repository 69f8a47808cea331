import NativeBridge.Heap.Basic

/-! Making objects of the reference host and custom ones. -/

namespace NativeBridge.Heap

/-- A new object with references of its own to everything it names. -/
def create (h : Heap) (body : Body) : Heap × Ref := (h.retainAll body.refs).alloc body

/-- A descriptor that is not combined with the record kind. -/
def newDescriptor (h : Heap) (layout : Layout) : Heap × Ref := h.alloc (.descriptor layout false)

/-- Number of bytes that an array scalar stores. -/
def storageSize : Nat := 16

/-- Element storage with these bytes at its start, cut or filled up with zeros. -/
def storage (raw : List UInt8) : List UInt8 :=
  (raw ++ List.replicate storageSize 0).take storageSize

/-- An array scalar with a descriptor of its own. -/
def newScalar (h : Heap) (isComplex : Bool) (layout : Layout) (raw : List UInt8) : Heap × Ref :=
  let (h, descr) := h.newDescriptor layout
  h.alloc (.scalar ⟨isComplex, some descr, some (storage raw)⟩)

/-- An array scalar of a real type. -/
def newRealScalar (h : Heap) (type : ScalarType) (raw : List UInt8) : Heap × Ref :=
  h.newScalar false (.scalar type) raw

/-- An array scalar of two single precision parts. -/
def newComplex64 (h : Heap) (real imag : Single) : Heap × Ref :=
  h.newScalar true (.scalar .complex64) (toLittleEndian 4 real.toBits ++ toLittleEndian 4 imag.toBits)

/-- An array scalar of two double precision parts. -/
def newComplex128 (h : Heap) (real imag : Double) : Heap × Ref :=
  h.newScalar true (.scalar .complex128) (toLittleEndian 8 real.toBits ++ toLittleEndian 8 imag.toBits)

/-- A complex array scalar without a descriptor. -/
def newScalarWithoutDescriptor (h : Heap) : Heap × Ref :=
  h.alloc (.scalar ⟨true, none, some (storage [])⟩)

/-- A complex array scalar whose descriptor has fields. -/
def newScalarWithRecordDescriptor (h : Heap) : Heap × Ref :=
  h.newScalar true (.packed [⟨"re", 0, .float64⟩, ⟨"im", 8, .float64⟩]) []

/-- An object whose `data` attribute is `data`. -/
def newHolder (h : Heap) (data : Ref) : Heap × Ref := h.create (.holder data)

/-- A legacy buffer without a base, or over the memory of one. -/
def newWindow (h : Heap) (w : Window Ref Address) : Heap × Ref := h.create (.window w)

/-- A custom object: its contents are placed in memory and the rest is kept as described. -/
def newCustom (h : Heap) (c : Custom Ref (Option (List UInt8))) : Heap × Ref :=
  let (h, window) := h.place? (c.shape.window?.bind (·.start))
  let (h, exported) := h.place? (c.exporter.bind (·.start))
  let (h, segment) := h.place? (c.segment.bind (·.start))
  h.create <| .custom
    { c with
      shape := c.shape.withStart window
      element := c.element.map fun e => { e with storage := e.storage.map storage }
      exporter := c.exporter.map fun e => { e with start := exported }
      segment := c.segment.map fun s => { s with start := segment } }

end NativeBridge.Heap
