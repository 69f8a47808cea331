import Mathlib.Logic.Relation
import NativeBridge.Buffer.Extraction
import NativeBridge.Proofs.Heap.Ownership

/-! A heap together with what is held of it, and the moves that change both.

    References and exports pass from hand to hand: a slot hands one out, an object takes it over, a
    view keeps it, a release gives it back. `Custody.Move` lists the nine things that can happen to
    a heap and to what is held of it. Each operation of the library is shown once to be a sequence
    of such moves (`Custody.Moves`); whatever every move preserves is then preserved by every
    operation, so an invariant is proved for nine moves and not for each operation.

    A move takes and gives references whether or not their objects are still there, so that a
    sequence of moves exists for an operation on any heap at all. -/

namespace NativeBridge

/-! ### Views -/

namespace View

/-- The reference that a view holds. -/
def refs (v : View) : List Ref := v.owner.toList

/-- The export that a view holds; a view taken the legacy way has none. -/
def exports (v : View) : List Ref := if v.isLegacy then [] else v.owner.toList

/-- A view shows the memory that its owner's slots answer with. -/
def Reads (v : View) (h : Heap) : Prop :=
  ∀ owner, v.owner = some owner →
    if v.isLegacy then (h.window? owner).bind h.windowRange = some (v.start, v.length)
    else ∃ e, h.exporter? owner = some e ∧ e.start = v.start ∧ e.length = v.length ∧
      e.start ≠ .null ∧ 0 ≤ e.length

/-- The view after its release. -/
def released (v : View) : View := { v with owner := none }

@[simp] theorem refs_released (v : View) : v.released.refs = [] := rfl

@[simp] theorem exports_released (v : View) : v.released.exports = [] := by
  cases h : v.isLegacy <;> simp [exports, released, h]

theorem reads_released (v : View) (h : Heap) : v.released.Reads h := by
  intro owner none
  simp [released] at none

end View

/-! ### Memory outside the heap -/

/-- An address that is not inside an object. -/
def Address.Outside (a : Address) : Prop := ∀ owner offset, a ≠ .object owner offset

/-- Contents whose addresses are all outside the heap. -/
def Body.Outside : Body → Prop
  | .window w => w.start.Outside
  | .custom c =>
    (∀ w ∈ c.shape.window?, w.start.Outside) ∧ (∀ e ∈ c.exporter, e.start.Outside) ∧
      ∀ s ∈ c.segment, s.start.Outside
  | _ => True

namespace Heap

/-- The exports of this object are given back when a view goes. -/
def Releases (h : Heap) (r : Ref) : Prop := (h.exporter? r).any (·.releases) = true

/-- Known to a caller who holds these references: reached from them or from the record kind. -/
def Known (h : Heap) (refs : Multiset Ref) (r : Ref) : Prop :=
  h.Reaches (fun t => t ∈ refs ∨ t = recordKind) r

theorem Known.of_mem {h : Heap} {refs : Multiset Ref} {r : Ref} (mem : r ∈ refs) : h.Known refs r :=
  .root (.inl mem)

theorem Known.field {h : Heap} {refs : Multiset Ref} {r t : Ref} {body : Body}
    (known : h.Known refs r) (found : h.body? r = some body) (ht : t ∈ body.refs) :
    h.Known refs t := by
  obtain ⟨o, ho, rfl⟩ := body?_eq_some_iff.mp found
  exact Reaches.field known ho ht

/-! Slots answer from contents, so contents decide what they answer. -/

section Slots

variable {h h' : Heap} {r : Ref}

theorem exporter?_congr (same : h'.body? r = h.body? r) : h'.exporter? r = h.exporter? r := by
  rw [exporter?, exporter?, same]

theorem window?_congr (same : h'.body? r = h.body? r) : h'.window? r = h.window? r := by
  rw [window?, window?, same]

theorem readSegment_congr (same : h'.body? r = h.body? r) (segment : Int) :
    h'.readSegment r segment = h.readSegment r segment := by
  rw [readSegment, readSegment, same]

theorem windowRange_congr (w : Window Ref Address)
    (same : ∀ base ∈ w.base, h'.body? base = h.body? base) :
    h'.windowRange w = h.windowRange w := by
  unfold windowRange
  cases hb : w.base with
  | none => rfl
  | some base =>
    have := same base hb
    simp only [window?_congr this, readSegment_congr this]

theorem releases_congr (same : h'.body? r = h.body? r) : h'.Releases r ↔ h.Releases r := by
  rw [Releases, Releases, exporter?_congr same]

end Slots

end Heap

/-! ### Moves -/

/-- A heap and what is held of it: references and exports in hand, and views. -/
structure Custody where
  heap : Heap
  refs : Multiset Ref
  exports : Multiset Ref
  views : Multiset View

namespace Custody

/-- One move: what happens to the heap and to what is held of it. -/
inductive Move : Custody → Custody → Prop where
  | retain {h : Heap} {refs exports : Multiset Ref} {views : Multiset View} {r : Ref} :
    h.Known refs r → Move ⟨h, refs, exports, views⟩ ⟨h.retain r, r ::ₘ refs, exports, views⟩
  | release {h : Heap} {refs exports : Multiset Ref} {views : Multiset View} (work : List Ref) :
    Move ⟨h, work + refs, exports, views⟩ ⟨h.releaseAll work, refs, exports, views⟩
  | alloc {h : Heap} {refs exports : Multiset Ref} {views : Multiset View} {body : Body} :
    body.Outside → Move ⟨h, body.refs + refs, exports, views⟩
      ⟨(h.alloc body).1, (h.alloc body).2 ::ₘ refs, exports, views⟩
  | lock {h : Heap} {refs exports : Multiset Ref} {views : Multiset View} {r : Ref} {o : Object} :
    h.get? r = some o →
    Move ⟨h, refs, exports, views⟩ ⟨h.lock r, refs, r ::ₘ exports, views⟩
  | unlock {h : Heap} {refs exports : Multiset Ref} {views : Multiset View} {r : Ref} :
    Move ⟨h, refs, r ::ₘ exports, views⟩ ⟨h.unlock r, refs, exports, views⟩
  | forget {h : Heap} {refs exports : Multiset Ref} {views : Multiset View} {r : Ref} :
    ¬h.Releases r → Move ⟨h, refs, r ::ₘ exports, views⟩ ⟨h, refs, exports, views⟩
  | bind {h : Heap} {refs exports : Multiset Ref} {views : Multiset View} {v : View} :
    v.Reads h →
    Move ⟨h, v.refs + refs, v.exports + exports, views⟩ ⟨h, refs, exports, v ::ₘ views⟩
  | unbind {h : Heap} {refs exports : Multiset Ref} {views : Multiset View} (v : View) :
    Move ⟨h, refs, exports, v ::ₘ views⟩ ⟨h, v.refs + refs, v.exports + exports, views⟩
  | blocks {h : Heap} {refs exports : Multiset Ref} {views : Multiset View}
    (blocks : List (List UInt8)) :
    Move ⟨h, refs, exports, views⟩ ⟨{ h with blocks }, refs, exports, views⟩

/-- Any number of moves. -/
abbrev Moves : Custody → Custody → Prop := Relation.ReflTransGen Move

variable {h h' : Heap} {refs exports : Multiset Ref} {views : Multiset View} {r : Ref}

theorem moves_retain (known : h.Known refs r) :
    Moves ⟨h, refs, exports, views⟩ ⟨h.retain r, r ::ₘ refs, exports, views⟩ :=
  .single (.retain known)

theorem moves_releaseAll (work : List Ref) :
    Moves ⟨h, work + refs, exports, views⟩ ⟨h.releaseAll work, refs, exports, views⟩ :=
  .single (.release work)

theorem moves_release (h : Heap) (r : Ref) :
    Moves ⟨h, r ::ₘ refs, exports, views⟩ ⟨h.release r, refs, exports, views⟩ := by
  rw [← Multiset.singleton_add, ← Multiset.coe_singleton]
  exact moves_releaseAll [r]

theorem moves_alloc {body : Body} (outside : body.Outside) :
    Moves ⟨h, body.refs + refs, exports, views⟩
      ⟨(h.alloc body).1, (h.alloc body).2 ::ₘ refs, exports, views⟩ :=
  .single (.alloc outside)

/-- A new object that holds nothing. -/
theorem moves_alloc_leaf {body : Body} (outside : body.Outside) (leaf : body.refs = []) :
    Moves ⟨h, refs, exports, views⟩
      ⟨(h.alloc body).1, (h.alloc body).2 ::ₘ refs, exports, views⟩ := by
  have moved : Moves ⟨h, body.refs + refs, exports, views⟩ _ := moves_alloc outside
  rwa [leaf, Multiset.coe_nil, zero_add] at moved

/-- A new object that takes over two references. -/
theorem moves_alloc_pair {body : Body} {t u : Ref} (outside : body.Outside)
    (pair : body.refs = [t, u]) :
    Moves ⟨h, t ::ₘ u ::ₘ refs, exports, views⟩
      ⟨(h.alloc body).1, (h.alloc body).2 ::ₘ refs, exports, views⟩ := by
  have moved : Moves ⟨h, body.refs + refs, exports, views⟩ _ := moves_alloc outside
  rwa [pair, ← Multiset.cons_coe, ← Multiset.cons_coe, Multiset.cons_add, Multiset.cons_add,
    Multiset.coe_nil, zero_add] at moved

/-- A view takes over a reference to its owner and, unless it is a legacy one, an export. -/
theorem moves_bind {v : View} (owner : v.owner = some r) (reads : v.Reads h) :
    Moves ⟨h, r ::ₘ refs, if v.isLegacy then exports else r ::ₘ exports, views⟩
      ⟨h, refs, exports, v ::ₘ views⟩ := by
  have moved : Moves ⟨h, v.refs + refs, v.exports + exports, views⟩ _ := .single (.bind reads)
  rw [View.refs, View.exports, owner] at moved
  cases legacy : v.isLegacy <;> simpa [legacy] using moved

/-- The reverse of `moves_bind`. -/
theorem moves_unbind {v : View} (owner : v.owner = some r) :
    Moves ⟨h, refs, exports, v ::ₘ views⟩
      ⟨h, r ::ₘ refs, if v.isLegacy then exports else r ::ₘ exports, views⟩ := by
  have moved : Moves ⟨h, refs, exports, v ::ₘ views⟩ _ := .single (.unbind v)
  rw [View.refs, View.exports, owner] at moved
  cases legacy : v.isLegacy <;> simpa [legacy] using moved

/-- A released view holds nothing and can be kept. -/
theorem moves_keep (v : View) :
    Moves ⟨h, refs, exports, views⟩ ⟨h, refs, exports, v.released ::ₘ views⟩ := by
  have moved : Moves ⟨h, v.released.refs + refs, v.released.exports + exports, views⟩ _ :=
    .single (.bind (v.reads_released h))
  simpa using moved

/-- A released view holds nothing and can be dropped. -/
theorem moves_drop (v : View) :
    Moves ⟨h, refs, exports, v.released ::ₘ views⟩ ⟨h, refs, exports, views⟩ := by
  have moved : Moves ⟨h, refs, exports, v.released ::ₘ views⟩ _ := .single (.unbind v.released)
  simpa using moved

/-! ### Everything held -/

/-- The references in hand and in views. -/
def allRefs (c : Custody) : Multiset Ref := c.refs + c.views.bind fun v => v.refs

/-- Number of owners of an object: what is held of it, and what objects on the heap hold. -/
def owners (c : Custody) (r : Ref) : Nat := (c.allRefs + c.heap.fields).count r

/-- The exports in hand and in views. -/
def allExports (c : Custody) : Multiset Ref := c.exports + c.views.bind fun v => v.exports

end Custody

end NativeBridge
