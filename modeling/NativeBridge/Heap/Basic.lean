import NativeBridge.Heap.Object
import NativeBridge.Heap.Census

/-! The heap of host objects.

    Objects stand in slots in the order of their creation and a freed slot stays empty, so no
    identity is used twice. Giving back the last reference to an object frees it and gives back
    the references it holds, and so on; `Heap.releaseAll` does this with a list of references
    still to be given back. It ends because each step shortens that list, or empties a slot
    whose weight exceeds what it adds to the list. -/

namespace NativeBridge

/-- Objects by identity, blocks of memory outside, and the live-object counters. -/
structure Heap where
  slots : List (Option Object)
  blocks : List (List UInt8)
  census : Census
  deriving DecidableEq, Repr

namespace Heap

/-- Identity of the one record kind, an object that is never freed. -/
def recordKind : Ref := 0

/-- Nothing but the record kind. -/
def initial : Heap := ⟨[some ⟨.pinned, 0, .recordKind⟩], [], .initial⟩

/-- The object of this identity, if it is allocated. -/
def get? (h : Heap) (r : Ref) : Option Object := h.slots[r]?.join

/-- The contents of an allocated object. -/
def body? (h : Heap) (r : Ref) : Option Body := (h.get? r).map (·.body)

/-- The kind of an allocated object. -/
def kind? (h : Heap) (r : Ref) : Option Kind := (h.body? r).map (·.kind)

/-- The heap with one object changed. -/
def update (h : Heap) (r : Ref) (change : Object → Object) : Heap :=
  { h with slots := h.slots.modify r (·.map change) }

/-- A new object with its first reference, which takes over those in `body`. -/
def alloc (h : Heap) (body : Body) : Heap × Ref :=
  ({ h with
      slots := h.slots ++ [some ⟨.fresh, 0, body⟩]
      census := h.census.count body.kind 1 },
    h.slots.length)

/-- Takes one more reference to an object. -/
def retain (h : Heap) (r : Ref) : Heap := h.update r fun o => { o with count := o.count.retain }

/-- Empties a slot, without regard to what its object holds. -/
def free (h : Heap) (r : Ref) (kind : Kind) : Heap :=
  { h with slots := h.slots.set r none, census := h.census.count kind (-1) }

/-- Counts one more export of an object. -/
def lock (h : Heap) (r : Ref) : Heap := h.update r fun o => { o with exports := o.exports + 1 }

/-- Counts one export of an object less. -/
def unlock (h : Heap) (r : Ref) : Heap := h.update r fun o => { o with exports := o.exports - 1 }

/-! ### Giving references back -/

/-- One for the object in the slot and one for each reference it holds. -/
def slotWeight : Option Object → Nat
  | none => 0
  | some o => 1 + o.body.refs.length

/-- Weight of a list of slots. -/
def slotsWeight : List (Option Object) → Nat
  | [] => 0
  | slot :: rest => slotWeight slot + slotsWeight rest

/-- Weight of all slots. -/
def weight (h : Heap) : Nat := slotsWeight h.slots

theorem slotsWeight_set_none {slots : List (Option Object)} {r : Ref} {o : Object}
    (found : slots[r]?.join = some o) :
    slotsWeight (slots.set r none) + (1 + o.body.refs.length) = slotsWeight slots := by
  induction slots generalizing r with
  | nil => simp at found
  | cons slot rest ih =>
    cases r with
    | zero =>
      simp only [List.getElem?_cons_zero, Option.join_some] at found
      subst found
      simp only [List.set_cons_zero, slotsWeight, slotWeight]
      omega
    | succ r =>
      have := @ih r (by simpa using found)
      simp only [List.set_cons_succ, slotsWeight]
      omega

theorem slotsWeight_modify (slots : List (Option Object)) (r : Ref) (change : Object → Object)
    (kept : ∀ o, (change o).body = o.body) :
    slotsWeight (slots.modify r (·.map change)) = slotsWeight slots := by
  induction slots generalizing r with
  | nil => simp [List.modify_nil]
  | cons slot rest ih =>
    cases r with
    | zero => cases slot <;> simp [slotsWeight, slotWeight, kept]
    | succ r => simp [slotsWeight, ih r]

theorem weight_free {h : Heap} {r : Ref} {o : Object} (kind : Kind) (found : h.get? r = some o) :
    (h.free r kind).weight + (1 + o.body.refs.length) = h.weight :=
  slotsWeight_set_none found

theorem weight_update (h : Heap) (r : Ref) (change : Object → Object)
    (kept : ∀ o, (change o).body = o.body) : (h.update r change).weight = h.weight :=
  slotsWeight_modify h.slots r change kept

/-- Gives back one reference to each of these objects, and to what falls with them. -/
def releaseAll (h : Heap) : List Ref → Heap
  | [] => h
  | r :: rest =>
    match _ : h.get? r with
    | none => releaseAll h rest
    | some o =>
      match o.count.release with
      | some count => releaseAll (h.update r fun o => { o with count }) rest
      | none => releaseAll (h.free r o.body.kind) (o.body.refs ++ rest)
termination_by work => h.weight + work.length
decreasing_by
  · simp
  · have := h.weight_update r (fun o => { o with count }) fun _ => rfl
    simp only [List.length_cons]
    omega
  · have := weight_free o.body.kind ‹h.get? r = some o›
    simp only [List.length_cons, List.length_append]
    omega

/-- Gives back one reference to an object, freeing it if that was the last. -/
def release (h : Heap) (r : Ref) : Heap := h.releaseAll [r]

/-- Gives back a reference that may be missing. -/
def release? (h : Heap) (r : Option Ref) : Heap := h.releaseAll r.toList

/-- Takes one more reference to each of these objects. -/
def retainAll (h : Heap) (rs : List Ref) : Heap := rs.foldl retain h

/-! ### Memory -/

/-- A new block of memory outside the heap, and where it starts. -/
def place (h : Heap) (bytes : List UInt8) : Heap × Address :=
  ({ h with blocks := h.blocks ++ [bytes] }, .block h.blocks.length 0)

/-- Memory for optional contents; no contents are at the null address. -/
def place? (h : Heap) (bytes : Option (List UInt8)) : Heap × Address :=
  match bytes with
  | none => (h, .null)
  | some bytes => h.place bytes

/-- Writes the same byte over a whole block. -/
def overwrite (h : Heap) (index : Nat) (byte : UInt8) : Heap :=
  { h with blocks := h.blocks.modify index fun bytes => bytes.map fun _ => byte }

/-- The contents of an allocated bytes object. -/
def data? (h : Heap) (r : Ref) : Option (List UInt8) :=
  match h.body? r with
  | some (.bytes data) => some data
  | _ => none

/-- The bytes from an address to the end of its memory; none at the null address. -/
def memory (h : Heap) : Address → List UInt8
  | .null => []
  | .object owner offset => ((h.data? owner).getD []).drop offset
  | .block index offset => (h.blocks[index]?.getD []).drop offset

/-- The first `length` bytes at an address. -/
def read (h : Heap) (start : Address) (length : Nat) : List UInt8 := (h.memory start).take length

/-- The layout of an allocated descriptor and whether it is combined with the record kind. -/
def descriptor? (h : Heap) (r : Ref) : Option (Layout × Bool) := (h.body? r).bind (·.descriptor?)

/-- The layout of an allocated descriptor. -/
def layout? (h : Heap) (r : Ref) : Option Layout := (h.descriptor? r).map (·.1)

end Heap

end NativeBridge
