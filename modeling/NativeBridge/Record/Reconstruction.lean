import NativeBridge.Record.Services
import NativeBridge.Error

/-! Rebuilding a record from a region of memory and a descriptor, and reading it.

    The record kind, the combined descriptor and the array that the runtime hands out on the way
    are given back whatever happens; the record alone is handed on. -/

namespace NativeBridge.Heap

/-- The bytes of a region; a region at the null address must be empty. -/
def region? (h : Heap) (start : Address) (length : Nat) : Option (List UInt8) :=
  if length = 0 then some []
  else if start = .null then none
  else some (h.read start length)

/-- Makes an array of the region and takes its first item. The reference to the combined
    descriptor is used up. -/
def rebuildFromRegion (h : Heap) (s : Services) (start : Address) (length : Nat) (descr : Ref) :
    Heap × Except ReconstructError Ref :=
  match h.region? start length with
  | none => (h.release descr, .error .copyFailed)
  | some bytes =>
    match s.array h bytes descr with
    | (h, none) => (h, .error .copyFailed)
    | (h, some array) =>
      match s.item h array 0 with
      | (h, none) => (h.release array, .error .copyFailed)
      | (h, some record) => (h.release array, .ok record)

/-- Combines the record kind with a descriptor and goes on with the result. -/
def rebuildCombined (h : Heap) (s : Services) (start : Address) (length : Nat) (kind dtype : Ref) :
    Heap × Except ReconstructError Ref :=
  match s.combine h kind dtype with
  | (h, none) => (h, .error .badDescriptor)
  | (h, some descr) => h.rebuildFromRegion s start length descr

/-- Holds the given descriptor, if there is one, while the record is built. -/
def rebuildWithKind (h : Heap) (s : Services) (start : Address) (length : Nat) (kind : Ref)
    (dtype : Option Ref) : Heap × Except ReconstructError Ref :=
  match dtype with
  | none => (h, .error .badDescriptor)
  | some dtype =>
    let (h, result) := (h.retain dtype).rebuildCombined s start length kind dtype
    (h.release dtype, result)

/-- Rebuilds a record from `length` bytes at `start`, using a runtime if there is one. -/
def reconstruct (h : Heap) (runtime : Option Services) (start : Address) (length : Nat)
    (dtype : Option Ref) : Heap × Except ReconstructError Ref :=
  match runtime with
  | none => (h, .error .runtimeUnavailable)
  | some s =>
    match s.recordKind h with
    | (h, none) => (h, .error .runtimeUnavailable)
    | (h, some kind) =>
      let (h, result) := h.rebuildWithKind s start length kind dtype
      (h.release kind, result)

/-- The bytes of a record. -/
def recordBytes? (h : Heap) (r : Ref) : Option (List UInt8) :=
  match h.body? r with
  | some (.record _ storage) => h.data? storage
  | _ => none

/-- A field of a record as a complex number, unless it reaches past the record. -/
def recordField? (h : Heap) (r : Ref) (name : String) : Option Complex :=
  match h.body? r with
  | some (.record descr storage) => do
    let field ← (← h.layout? descr).field? name
    let bytes ← h.data? storage
    if bytes.length < field.stop then none else some (field.scalar.cast (bytes.drop field.offset))
  | _ => none

end NativeBridge.Heap
