import NativeBridge.Buffer.View
import NativeBridge.Error

/-! Taking the buffer behind an object's `data` attribute.

    There are two strategies: to ask the exporter, and to follow a legacy buffer by hand. They
    are tried in order and the first view wins; one that fails holds nothing afterwards. -/

namespace NativeBridge

/-- A way to take a view of an object. -/
inductive Strategy where
  | current | legacy
  deriving DecidableEq, Repr

/-- The exporter first, then the legacy buffers. -/
def Strategy.standard : List Strategy := [.current, .legacy]

namespace Heap

/-- Asks the exporter. An export with a negative length or without an address is given back. -/
def acquireCurrent (h : Heap) (object : Ref) : Heap × Option View :=
  match h.exporter? object with
  | none => (h, none)
  | some e =>
    if e.status ≠ 0 then (h, none)
    else
      let h := h.lock object
      if e.length < 0 ∨ e.start = .null then
        (if e.releases then h.unlock object else h, none)
      else
        (h.retain object,
          some ⟨e.start, some object, e.length, e.itemSize, e.readOnly, e.dimensions, false⟩)

/-- Where a legacy buffer starts and how long it is. A base must be readable and not have a
    base of its own; the window is cut at the end of the base. -/
def windowRange (h : Heap) (w : Window Ref Address) : Option (Address × Int) :=
  match w.base with
  | none => if w.size < 0 ∨ w.start = .null then none else some (w.start, w.size)
  | some base =>
    if ((h.window? base).bind (·.base)).isSome then none
    else
      match h.readSegment base 0 with
      | none => none
      | some (available, start) =>
        if available ≤ 0 ∨ start = .null ∨ w.offset < 0 ∨ available < w.offset then none
        else
          let rest := available - w.offset
          some (start.advance w.offset.toNat, if w.size < 0 then rest else min w.size rest)

/-- Follows a legacy buffer; its export is not counted. -/
def acquireLegacy (h : Heap) (object : Ref) : Heap × Option View :=
  match (h.window? object).bind h.windowRange with
  | none => (h, none)
  | some (start, length) => (h.retain object, some ⟨start, some object, length, 1, 1, 1, true⟩)

/-- Takes a view by one strategy. -/
def acquire (h : Heap) (object : Ref) : Strategy → Heap × Option View
  | .current => h.acquireCurrent object
  | .legacy => h.acquireLegacy object

/-- Takes a view by the first strategy that succeeds. -/
def acquireFirst (h : Heap) (object : Ref) : List Strategy → Heap × Option View
  | [] => (h, none)
  | strategy :: rest =>
    match h.acquire object strategy with
    | (h, none) => h.acquireFirst object rest
    | (h, some view) => (h, some view)

/-- Takes a view of the object behind the `data` attribute. The reference to that object is
    given back, so afterwards only the view holds it. -/
def extract (h : Heap) (object : Option Ref) (strategies : List Strategy) :
    Heap × Except ExtractError View :=
  match h.getAttribute object dataAttribute with
  | (h, none) => (h, .error .noDataAttribute)
  | (h, some data) =>
    match h.acquireFirst data strategies with
    | (h, none) => (h.release data, .error .noBufferProtocol)
    | (h, some view) => (h.release data, .ok view)

end Heap

end NativeBridge
