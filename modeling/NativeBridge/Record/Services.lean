import NativeBridge.Heap.Create

/-! The services of a host runtime: the record kind, descriptors combined with it, arrays made
    from bytes, and their items.

    `Services` says which of them work. Each yields a new reference, or nothing. -/

namespace NativeBridge

/-- What a runtime answers when it is asked for its record kind. -/
inductive KindService where
  | genuine | missing | fresh
  deriving DecidableEq, Repr

/-- Which services of a runtime work; one that does not yields nothing. -/
structure Services where
  kind : KindService
  combines : Bool
  makesArrays : Bool
  yieldsItems : Bool
  deriving DecidableEq, Repr

/-- One more than the largest size of a memory region. -/
def sizeLimit : Nat := pow2 64

/-- A size, if it can be one. -/
def size? (n : Nat) : Option Nat := if n < sizeLimit then some n else none

/-- The bytes of one item, if the index and the item stay inside. -/
def itemBytes? (bytes : List UInt8) (index itemSize : Nat) : Option (List UInt8) := do
  let start ← size? (index * itemSize)
  let stop ← size? (start + itemSize)
  if stop ≤ bytes.length then some ((bytes.drop start).take itemSize) else none

namespace Services

/-- The runtime of the reference host. -/
def reference : Services := ⟨.genuine, true, true, true⟩

/-- The record kind, or whatever the runtime takes for it. -/
def recordKind (s : Services) (h : Heap) : Heap × Option Ref :=
  match s.kind with
  | .genuine => (h.retain Heap.recordKind, some Heap.recordKind)
  | .missing => (h, none)
  | .fresh =>
    let (h, int) := h.alloc (.int 0)
    (h, some int)

/-- The descriptor of a structured layout combined with the record kind. -/
def combine (s : Services) (h : Heap) (kind dtype : Ref) : Heap × Option Ref :=
  match s.combines && h.kind? kind = some .recordKind, h.layout? dtype with
  | true, some layout =>
    if layout.isRecord then
      let (h, descr) := h.alloc (.descriptor layout true)
      (h, some descr)
    else (h, none)
  | _, _ => (h, none)

/-- An array of one item, copied from the start of the bytes. The reference to the descriptor
    goes to the array; without an array it is given back. -/
def array (s : Services) (h : Heap) (bytes : List UInt8) (descr : Ref) : Heap × Option Ref :=
  match s.makesArrays, h.layout? descr with
  | true, some layout =>
    if layout.itemSize = 0 ∨ bytes.length < layout.itemSize then (h.release descr, none)
    else
      let (h, storage) := h.alloc (.bytes (bytes.take layout.itemSize))
      let (h, array) := h.alloc (.recordArray descr storage)
      (h, some array)
  | _, _ => (h.release descr, none)

/-- The item of an array at an index, with bytes of its own. -/
def item (s : Services) (h : Heap) (sequence : Ref) (index : Nat) : Heap × Option Ref :=
  match s.yieldsItems, h.body? sequence with
  | true, some (.recordArray descr storage) =>
    match h.layout? descr, h.data? storage with
    | some layout, some bytes =>
      match itemBytes? bytes index layout.itemSize with
      | none => (h, none)
      | some bytes =>
        let (h, storage) := (h.retain descr).alloc (.bytes bytes)
        let (h, record) := h.alloc (.record descr storage)
        (h, some record)
    | _, _ => (h, none)
  | _, _ => (h, none)

end Services

end NativeBridge
