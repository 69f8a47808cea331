import NativeBridge.Heap.Slots

/-! Buffer views.

    A view says where memory starts, how long it is and which object keeps it: it holds one
    reference to that owner and, unless it was taken the legacy way, one of its exports.
    Releasing gives both back and forgets the owner, so a view is released at most once. -/

namespace NativeBridge

/-- A view of memory; one without an owner is released. -/
structure View where
  start : Address
  owner : Option Ref
  length : Int
  itemSize : Int
  readOnly : Int
  dimensions : Int
  isLegacy : Bool
  deriving DecidableEq, Repr

namespace View

/-- The view of nothing. -/
def empty : View := ⟨.null, none, 0, 1, 0, 1, false⟩

/-- Bytes that compiled code reserves for a view: an address, an owner, two sizes, two small
    numbers and the mark of its origin. -/
def byteSize : Nat := 8 + 8 + 8 + 8 + 4 + 4 + 8

/-- Whether the view holds nothing. -/
def isReleased (v : View) : Bool := v.owner.isNone

/-- The memory that the view shows; none where it starts nowhere or has a negative length. -/
def bytes (h : Heap) (v : View) : List UInt8 := h.read v.start v.length.toNat

end View

namespace Heap

/-- Gives back what a view holds. -/
def releaseView (h : Heap) (v : View) : Heap × View :=
  match v.owner with
  | none => (h, v)
  | some owner =>
    let exported := !v.isLegacy && (h.exporter? owner).any (·.releases)
    let h := if exported then h.unlock owner else h
    (h.release owner, { v with owner := none })

end Heap

end NativeBridge
