import NativeBridge.Heap.Basic

/-! What the slots of an object's type do.

    A slot that yields an object yields a new reference to it, which the caller gives back. -/

namespace NativeBridge.Heap

/-- A new reference to an object that may be missing. -/
def handOut (h : Heap) : Option Ref → Heap × Option Ref
  | none => (h, none)
  | some r => (h.retain r, some r)

/-- The object behind an attribute, if the type answers that name. -/
def attribute? (h : Heap) (r : Ref) (name : String) : Option Ref := do
  (← (← h.body? r).attributes?).lookup name

/-- Looks up an attribute; nothing has no attributes. -/
def getAttribute (h : Heap) (object : Option Ref) (name : String) : Heap × Option Ref :=
  h.handOut (object.bind (h.attribute? · name))

/-- Coerces a value to a float object; `none` when its type has no such slot. -/
def coerce (h : Heap) (r : Ref) : Option (Heap × Option Ref) :=
  match h.body? r with
  | some (.float _) => some (h.handOut (some r))
  | some (.int value) =>
    let (h, float) := h.alloc (.float (.ofInt value))
    some (h, some float)
  | some (.scalar ⟨false, descr, storage⟩) =>
    match descr.bind h.layout?, storage with
    | some (.scalar type), some raw =>
      let (h, float) := h.alloc (.float (type.cast raw).real)
      some (h, some float)
    | _, _ => some (h, none)
  | some (.custom c) => c.float.map h.handOut
  | _ => none

/-- The array scalar slots of an object. -/
def element? (h : Heap) (r : Ref) : Option (Element Ref) := (h.body? r).bind (·.element?)

/-- The element descriptor of an array scalar. -/
def elementDescriptor (h : Heap) (r : Ref) : Heap × Option Ref :=
  h.handOut ((h.element? r).bind (·.descr))

/-- The buffer slots of an object. A bytes object exports all its contents, read-only. -/
def exporter? (h : Heap) (r : Ref) : Option (Exporter Address) :=
  match h.body? r with
  | some (.bytes data) => some ⟨0, .object r 0, data.length, 1, 1, 1, true⟩
  | some (.custom c) => c.exporter
  | _ => none

/-- The window of a legacy buffer. -/
def window? (h : Heap) (r : Ref) : Option (Window Ref Address) := (h.body? r).bind (·.window?)

/-- Reads a segment of an object the legacy way: its size and where it starts. A bytes object
    has segment 0 only, and so has a legacy buffer, provided it has no base of its own. -/
def readSegment (h : Heap) (r : Ref) (segment : Int) : Option (Int × Address) :=
  match h.body? r with
  | some (.bytes data) =>
    some (if segment ≠ 0 then (-1, .null) else (data.length, .object r 0))
  | some (.window w) =>
    some (if segment ≠ 0 ∨ w.base.isSome ∨ w.size < 0 then (-1, .null) else (w.size, w.start))
  | some (.custom c) => c.segment.map fun s => (s.size, s.start)
  | _ => none

end NativeBridge.Heap
