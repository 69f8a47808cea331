import NativeBridge.Proofs.Custody.Buffers
import NativeBridge.Proofs.Heap.Restoration
import NativeBridge.Proofs.Record.Reconstruction

/-! From a record to its bytes and back.

    The view of a record shows the record's own bytes and keeps them while the record goes. What is
    rebuilt from there is another record with the same bytes and the same fields, and when the view
    and that record are gone, nothing is left of either (`Heap.record_round_trip`). -/

namespace NativeBridge

namespace Heap

variable {h h' h₀ h₁ : Heap} {start : Address} {length size : Nat} {out : Multiset Ref}
  {r t d descr storage : Ref} {fields : List Field} {bytes : List UInt8}

/-! ### Records that were built -/

theorem isRecord_of_reconstruct (hosted : h₀.Hosted)
    (layout : h₀.layout? t = some (.record fields size))
    (built : h₀.reconstruct (some .reference) start length (some t) = (h₁, .ok r)) :
    ∃ descr storage bytes, bytes.length = size ∧ h₁.IsRecord r descr storage fields bytes := by
  have live := live_some (live_of_layout? layout)
  have answer : (h₀.reconstruct (some .reference) start length (some t)).2 = .ok r := by rw [built]
  obtain ⟨descr, storage, _, all, intact⟩ := isRecord_of_built hosted live answer layout
  exact ⟨descr, storage, _, all, intact h₁ fun _ _ => by rw [built]⟩

/-- A record that is still there is as it was built. -/
theorem IsRecord.of_keeps (intact : h₁.IsRecord r descr storage fields bytes)
    (keeps : h₁.Keeps h) (acc : h.Accounts out) (live : ∃ o, h.get? r = some o) :
    h.IsRecord r descr storage fields bytes := by
  have body := keeps.body?_of_live intact.body live
  obtain ⟨o, found, contents⟩ := body?_eq_some_iff.mp body
  have held : ∀ t ∈ [descr, storage], ∃ o, h.get? t = some o := fun t ht =>
    acc.stored found (by rwa [contents])
  exact ⟨body, keeps.body?_of_live intact.own (held descr (by simp)),
    keeps.body?_of_live intact.data (held storage (by simp)), intact.positive, intact.word⟩

/-- Layout and bytes decide what the fields are. -/
theorem IsRecord.recordField?_congr {r' descr' storage' : Ref}
    (intact : h.IsRecord r descr storage fields bytes)
    (again : h'.IsRecord r' descr' storage' fields bytes) (name : String) :
    h'.recordField? r' name = h.recordField? r name := by
  simp [recordField?, layout?, descriptor?, data?, intact.body, intact.own, intact.data,
    again.body, again.own, again.data]

/-! ### The view of a record -/

/-- All the bytes of a bytes object, as its exporter answers. -/
def viewOf (storage : Ref) (bytes : List UInt8) : View :=
  ⟨.object storage 0, some storage, bytes.length, 1, 1, 1, false⟩

/-- The heap once the bytes object is viewed: an export more, and a reference more after the one
    that was handed out on the way went back. -/
def viewed (h : Heap) (storage : Ref) : Heap :=
  (((h.retain storage).lock storage).retain storage).release storage

theorem length_viewed (h : Heap) (storage : Ref) :
    (h.viewed storage).slots.length = h.slots.length := by
  simp [viewed, release, lock]

theorem bytes_viewOf (data : h.body? storage = some (.bytes bytes)) :
    (viewOf storage bytes).bytes h = bytes := by
  simp [View.bytes, viewOf, read, memory, data?, data]

theorem extract_eq (intact : h.IsRecord r descr storage fields bytes) :
    h.extract (some r) Strategy.standard = (h.viewed storage, .ok (viewOf storage bytes)) := by
  have named : h.attribute? r dataAttribute = some storage := by
    simp [attribute?, intact.body, Body.attributes?, dataAttribute]
  have exported : (h.retain storage).exporter? storage =
      some ⟨0, .object storage 0, bytes.length, 1, 1, 1, true⟩ := by
    rw [exporter?, body?_retain, intact.data]
  have usable : ¬(bytes.length : Int) < 0 := by omega
  simp [extract, getAttribute, named, handOut, Strategy.standard, acquireFirst, acquire,
    acquireCurrent, exported, usable, viewed, viewOf]

theorem releaseView_viewOf (data : h.body? storage = some (.bytes bytes)) :
    (h.releaseView (viewOf storage bytes)).1 = (h.unlock storage).release storage := by
  simp [releaseView, viewOf, exporter?, data]

/-! ### Rebuilding from a view -/

/-- What is rebuilt from the view is another record with the same bytes. -/
theorem grown_reconstruct_viewOf (hosted : h.Hosted) (data : h.body? storage = some (.bytes bytes))
    (positive : 0 < bytes.length) (word : bytes.length < sizeLimit)
    (layout : h.layout? d = some (.record fields bytes.length)) :
    let call := h.reconstruct (some .reference) (.object storage 0) bytes.length (some d)
    ∃ r' descr' storage', call.2 = .ok r' ∧
      (h.lent (some d)).Grown (recordObjects r' storage' descr' bytes fields bytes.length) call.1 ∧
      call.1.IsRecord r' descr' storage' fields bytes := by
  intro call
  have live := live_some (live_of_layout? layout)
  have holds : h.Holds (.object storage 0) bytes.length bytes.length :=
    ⟨positive, word, Nat.le_refl _, by simp [memory, data?, data]⟩
  have all : h.read (.object storage 0) bytes.length = bytes := by
    simp [read, memory, data?, data]
  obtain ⟨news, rebuilds, grown⟩ := rebuilds_reference hosted live
  obtain ⟨r', storage', descr', answer, rfl⟩ :=
    rebuilds.eq_record ((combines_reference hosted).mpr layout) ⟨rfl, rfl, holds⟩
  have again := grown.isRecord holds fun _ _ => rfl
  rw [all] at grown again
  exact ⟨r', descr', storage', answer, grown, again⟩

/-! ### Afterwards -/

section Settled

variable {marked : Ref → Prop} {n : Nat}

/-- While the view is taken, the bytes object is held twice: by the view and by the extraction. -/
theorem accounts_taken (acc : h.Accounts out) (live : ∃ o, h.get? storage = some o) :
    (((h.retain storage).lock storage).retain storage).Accounts (storage ::ₘ storage ::ₘ out) := by
  obtain ⟨o, found⟩ := live
  have locked := (acc.retain found).update_exports storage (· + 1)
  obtain ⟨o', found'⟩ := locked.owned (Multiset.mem_cons_self storage out)
  exact locked.retain found'

theorem accounts_viewed (acc : h.Accounts out) (live : ∃ o, h.get? storage = some o) :
    (h.viewed storage).Accounts (storage ::ₘ out) :=
  (accounts_taken acc live).release

theorem room_viewed (acc : h.Accounts out) (live : ∃ o, h.get? storage = some o)
    (room : h.Room (n + 2)) : (h.viewed storage).Room n := by
  have locked : ((h.retain storage).lock storage).Room (n + 1) :=
    (room.retain storage).update fun _ => rfl
  exact (locked.retain storage).release (accounts_taken acc live)

theorem traces_viewed (acc : h.Accounts out) (live : ∃ o, h.get? storage = some o)
    (either : marked storage ∨ h.Room 3) : (h.lock storage).Traces marked (h.viewed storage) := by
  have locked : (h.lock storage).Traces marked ((h.retain storage).lock storage) :=
    (Traces.retain h (either.imp id (·.mono (by decide)))).update_exports storage (· + 1)
  have taken := Traces.retain ((h.retain storage).lock storage)
    (either.imp id fun room => (room.retain storage).update fun _ => rfl)
  exact (locked.trans taken).trans (.release (accounts_taken acc live))

theorem accounts_lent (acc : h.Accounts out) (live : ∃ o, h.get? d = some o) :
    (h.lent (some d)).Accounts out := by
  obtain ⟨o, found⟩ := live
  exact (acc.retain found).release

theorem traces_lent (acc : h.Accounts out) (live : ∃ o, h.get? d = some o)
    (either : marked d ∨ h.Room 2) : h.Traces marked (h.lent (some d)) := by
  obtain ⟨o, found⟩ := live
  exact (Traces.retain h either).trans (.release (acc.retain found))

/-- The way from the view on: names are dropped, the second record comes and goes, and the view is
    released. -/
def settled (h : Heap) (storage d : Ref) (dropped : List Ref) : Heap :=
  ((((h.viewed storage).releaseAll dropped).lent (some d)).unlock storage).release storage

variable {dropped : List Ref} {kept : Multiset Ref}

theorem accounts_dropped (acc : h.Accounts (dropped + kept))
    (live : ∃ o, h.get? storage = some o) :
    ((h.viewed storage).releaseAll dropped).Accounts (storage ::ₘ kept) := by
  have viewed := accounts_viewed acc live
  rw [← Multiset.add_cons] at viewed
  exact viewed.releaseAll

theorem accounts_settled (acc : h.Accounts (dropped + kept))
    (live : ∃ o, h.get? storage = some o)
    (given : ∃ o, ((h.viewed storage).releaseAll dropped).get? d = some o) :
    (h.settled storage d dropped).Accounts kept :=
  ((accounts_lent (accounts_dropped acc live) given).update_exports storage (· - 1)).release

theorem traces_parted (acc : h.Accounts (dropped + kept)) (live : ∃ o, h.get? storage = some o)
    (either : marked storage ∨ h.Room 3) :
    (h.lock storage).Traces marked ((h.viewed storage).releaseAll dropped) := by
  have viewed := accounts_viewed acc live
  rw [← Multiset.add_cons] at viewed
  exact (traces_viewed acc live either).trans (.releaseAll viewed)

theorem traces_settled (acc : h.Accounts (dropped + kept)) (live : ∃ o, h.get? storage = some o)
    (given : ∃ o, ((h.viewed storage).releaseAll dropped).get? d = some o)
    (either : (marked storage ∧ marked d) ∨ h.Room 16) :
    h.Traces marked (h.settled storage d dropped) := by
  have viewed := accounts_viewed acc live
  have parted := accounts_dropped acc live
  rw [← Multiset.add_cons] at viewed
  have first : (h.lock storage).Traces marked ((h.viewed storage).releaseAll dropped) :=
    traces_parted acc live (either.imp And.left (·.mono (by decide)))
  have room (room : h.Room 16) : ((h.viewed storage).releaseAll dropped).Room 2 :=
    (room_viewed acc live (room.mono (by decide))).releaseAll viewed
  have second := first.trans (traces_lent parted given (either.imp And.right room))
  exact second.unlock.trans
    (.release ((accounts_lent parted given).update_exports storage (· - 1)))

end Settled

/-- Old objects change alike on both sides when the view is released. -/
theorem Grown.releaseView {g : Heap} {news : List (Ref × Object)} (grown : g.Grown news h')
    (data : g.body? storage = some (.bytes bytes)) :
    ((g.unlock storage).release storage).Grown news
      (h'.releaseView (viewOf storage bytes)).1 := by
  obtain ⟨o, found, contents⟩ := body?_eq_some_iff.mp data
  have after : h'.body? storage = some (.bytes bytes) := (grown.body?_eq found).trans data
  have unlocked : (g.unlock storage).get? storage =
      some { o with exports := o.exports - 1 } := by
    rw [unlock, get?_update, if_pos rfl, found]
    rfl
  rw [releaseView_viewOf after]
  exact (grown.update_old (lt_length_of_get? found) _).release_leaf_old unlocked
    (by rw [contents]; rfl)

theorem counts_releaseView (h : Heap) (v : View) : h.Counts (h.releaseView v).1 := by
  have moved : Custody.Moves ⟨h, 0, 0, v ::ₘ 0⟩ _ := Custody.moves_releaseView v
  exact Custody.counts_moves moved

theorem counts_extract (h : Heap) (object : Option Ref) (strategies : List Strategy) :
    h.Counts (h.extract object strategies).1 := by
  have moved : Custody.Moves ⟨h, object.toList, 0, 0⟩ _ :=
    Custody.moves_extract (fun t ht => by simpa using ht) strategies
  exact Custody.counts_moves moved

theorem keeps_viewed (h : Heap) (storage : Ref) : h.Keeps (h.viewed storage) := by
  have held : h.Keeps (h.retain storage) := .update _ _ _ fun _ => rfl
  have locked : (h.retain storage).Keeps ((h.retain storage).lock storage) :=
    .update _ _ _ fun _ => rfl
  have again : ((h.retain storage).lock storage).Keeps
      (((h.retain storage).lock storage).retain storage) := .update _ _ _ fun _ => rfl
  exact ((held.trans locked).trans again).trans (.releaseAll _ _)

/-! ### There and back -/

/-- Another record, new after the heap `before`, with the bytes and fields of this one. -/
structure Copied (h : Heap) (r : Ref) (before after : Heap) (copy : Ref) : Prop where
  other : copy ≠ r
  new : before.get? copy = none
  bytes : after.recordBytes? copy = h.recordBytes? r
  fields : ∀ name, after.recordField? copy name = h.recordField? r name

/-- The last heap is what giving up the dropped references makes of the first, with the record gone
    if nothing owns it any more. Only a count that came up to the mark of an immortal object on
    the way stays there, and none does where there was room for a few references more. -/
structure Restored (h : Heap) (r : Ref) (dropped : List Ref) (kept : Multiset Ref) (last : Heap) :
    Prop where
  objects : ∀ u, (last.Pinned u → h.Pinned u) → last.get? u = (h.releaseAll dropped).get? u
  same : h.Room 16 → (h.releaseAll dropped).Same last
  gone : ¬h.Pinned r → r ∉ kept + (h.releaseAll dropped).fields → last.get? r = none

theorem copied_of_view {before : Heap} (intact : h.IsRecord r descr storage fields bytes)
    (hosted : before.Hosted) (later : h.slots.length ≤ before.slots.length)
    (still : before.body? storage = some (.bytes bytes))
    (alike : before.layout? d = some (.record fields bytes.length)) :
    ∃ after copy, before.reconstruct (some .reference) (.object storage 0) bytes.length (some d) =
      (after, .ok copy) ∧ h.Copied r before after copy := by
  obtain ⟨copy, descr', storage', answer, grown, again⟩ :=
    grown_reconstruct_viewOf hosted still intact.positive intact.word alike
  have fresh : before.slots.length ≤ copy := by
    rw [← length_lent before (some d)]
    exact grown.fresh (copy, _) List.mem_cons_self
  have other : copy ≠ r := by
    obtain ⟨p, found, _⟩ := body?_eq_some_iff.mp intact.body
    exact Nat.ne_of_gt (Nat.lt_of_lt_of_le (lt_length_of_get? found) (later.trans fresh))
  exact ⟨_, copy, Prod.ext rfl answer, other, get?_of_length_le fresh,
    again.recordBytes?_eq.trans intact.recordBytes?_eq.symm, intact.recordField?_congr again⟩

section Restored

variable {dropped : List Ref} {kept : Multiset Ref} {last : Heap}

/-- The view keeps nothing but the bytes, so what else is there after the drop is there without
    the view. -/
theorem live_of_parted (acc : h.Accounts (dropped + kept))
    (data : h.body? storage = some (.bytes bytes)) (other : d ≠ storage)
    (given : ∃ o, ((h.viewed storage).releaseAll dropped).get? d = some o) :
    ∃ o, (h.releaseAll dropped).get? d = some o := by
  obtain ⟨p, stored, _⟩ := body?_eq_some_iff.mp data
  have live : ∃ o, h.get? storage = some o := ⟨p, stored⟩
  have plain : h.Traces (fun _ => False) (h.releaseAll dropped) := .releaseAll acc
  have traces : h.Traces (· = storage) (((h.viewed storage).releaseAll dropped).unlock storage) :=
    Traces.unlock (traces_parted acc live (.inl rfl))
  have held := (accounts_dropped acc live).update_exports storage (· - 1)
  have roots : ∀ t, t ∈ storage ::ₘ kept ∨
      (((h.viewed storage).releaseAll dropped).unlock storage).Pinned t →
      (∃ o, (h.releaseAll dropped).get? t = some o) ∨ t = storage := by
    rintro t (named | pinned)
    · rcases Multiset.mem_cons.mp named with rfl | named
      · exact .inr rfl
      · exact .inl (acc.releaseAll.owned named)
    · exact (traces.mark t pinned).imp (fun p => (plain.stays t p).imp fun _ p => p.1) id
  have leaf : ∀ t, t = storage →
      slotFields ((((h.viewed storage).releaseAll dropped).unlock storage).get? t) = [] := by
    rintro t rfl
    exact traces.slotFields_eq_nil (slotFields_of_body? data)
  obtain ⟨o, found⟩ := given
  have unlocked : (((h.viewed storage).releaseAll dropped).unlock storage).get? d = some o := by
    rw [unlock, get?_update, if_neg other.symm, found]
  exact (allocated_of_roots held acc.releaseAll (traces.agree plain) roots leaf
    unlocked).resolve_right other

/-- A descriptor that is there after the drop was there before, with the same layout. -/
theorem described_before {layout : Layout}
    (described : ((h.viewed storage).releaseAll dropped).layout? d = some layout) :
    h.layout? d = some layout := by
  obtain ⟨o', after⟩ := live_of_layout? described
  have earlier := lt_length_of_get? after
  rw [length_releaseAll, length_viewed] at earlier
  obtain ⟨o, found, same⟩ :=
    ((keeps_viewed h storage).trans (.releaseAll _ dropped)).same d earlier o' after
  have contents : ((h.viewed storage).releaseAll dropped).body? d = h.body? d := by
    rw [body?, body?, after, found, Option.map_some, Option.map_some, same]
  rwa [layout?_congr contents] at described

theorem restored_of_settled (acc : h.Accounts (dropped + kept))
    (intact : h.IsRecord r descr storage fields bytes)
    (alike : ((h.viewed storage).releaseAll dropped).layout? d = some (.record fields size))
    (same : (h.settled storage d dropped).Grown [] last) (counts : h.Counts last) :
    h.Restored r dropped kept last := by
  obtain ⟨o, stored, _⟩ := body?_eq_some_iff.mp intact.data
  have live : ∃ o, h.get? storage = some o := ⟨o, stored⟩
  have given := live_of_layout? alike
  have described := described_before alike
  have bytesOther : d ≠ storage := by
    rintro rfl
    simp [layout?, descriptor?, intact.data, Body.descriptor?] at described
  have recordOther : r ≠ d := by
    rintro rfl
    simp [layout?, descriptor?, intact.body, Body.descriptor?] at described
  have objects : ∀ u, last.get? u = (h.settled storage d dropped).get? u := fun u =>
    same.old u (by simp)
  have pinned : ∀ u, last.Pinned u ↔ (h.settled storage d dropped).Pinned u := fun u => by
    rw [Pinned, Pinned, objects]
  have plain : h.Traces (fun _ => False) (h.releaseAll dropped) := .releaseAll acc
  -- of the objects held in the meantime the bytes hold nothing, and the descriptor is there anyway
  let marked : Ref → Prop := fun u => u = storage ∨ u = d
  have traces : h.Traces marked (h.settled storage d dropped) :=
    traces_settled acc live given (.inl ⟨.inl rfl, .inr rfl⟩)
  have there : ∃ o, (h.releaseAll dropped).get? d = some o :=
    live_of_parted acc intact.data bytesOther given
  have harmless : ∀ u, marked u →
      (∃ o, (h.releaseAll dropped).get? u = some o) ∨ slotFields (h.get? u) = [] := by
    intro u marked
    rcases marked with rfl | rfl
    · exact .inr (slotFields_of_body? intact.data)
    · exact .inl there
  have equal : ∀ u, (last.Pinned u → h.Pinned u) →
      last.get? u = (h.releaseAll dropped).get? u := by
    intro u mortal
    rw [objects]
    exact plain.get?_eq traces acc.releaseAll (accounts_settled acc live given) harmless fun p =>
      mortal ((pinned u).mpr p)
  refine ⟨equal, fun room => ?_, fun mortal unowned => ?_⟩
  · have roomy : h.Traces (fun _ => False) (h.settled storage d dropped) :=
      traces_settled acc live given (.inr room)
    refine .of_counts (fun u => equal u fun p => ?_) ?_ ?_
    · exact (roomy.mark u ((pinned u).mp p)).resolve_right id
    · rw [same.blocks, blocks_releaseAll]
      simp [settled, viewed, lent, release, unlock, lock, retain, update]
    · exact (Counts.releaseAll h dropped).symm.trans counts
  · have other : ¬marked r := by
      rintro (rfl | same)
      · cases intact.body.symm.trans intact.data
      · exact recordOther same
    rw [equal r fun p => (traces.mark r ((pinned r).mp p)).resolve_right other]
    exact acc.releaseAll.get?_of_unowned (fun p => mortal ((plain.mark r p).resolve_right id))
      unowned

theorem restored_of_view (acc : h.Accounts (dropped + kept))
    (intact : h.IsRecord r descr storage fields bytes)
    (still : ((h.viewed storage).releaseAll dropped).body? storage = some (.bytes bytes))
    (alike : ((h.viewed storage).releaseAll dropped).layout? d =
      some (.record fields bytes.length)) :
    let v := viewOf storage bytes
    ∃ after copy, ((h.viewed storage).releaseAll dropped).reconstruct (some .reference)
        (.object storage 0) bytes.length (some d) = (after, .ok copy) ∧
      h.Restored r dropped kept ((after.releaseView v).1.release copy) ∧
      h.Restored r dropped kept ((after.release copy).releaseView v).1 := by
  intro v
  obtain ⟨o, stored, _⟩ := body?_eq_some_iff.mp intact.data
  have hosted := (accounts_dropped acc ⟨o, stored⟩).hosted
  obtain ⟨copy, descr', storage', answer, grown, _⟩ :=
    grown_reconstruct_viewOf hosted still intact.positive intact.word alike
  have lent : (((h.viewed storage).releaseAll dropped).lent (some d)).body? storage =
      some (.bytes bytes) :=
    (body?_lent hosted (live_some (live_of_layout? alike)) storage).trans still
  have counts := (counts_extract h (some r) Strategy.standard).trans (.releaseAll _ dropped)
  rw [extract_eq intact] at counts
  have rebuilt := counts.trans (counts_reconstruct _ (some .reference) (.object storage 0)
    bytes.length (some d))
  exact ⟨_, copy, Prod.ext rfl answer,
    restored_of_settled acc intact alike (grown.releaseView lent).release_record
      ((rebuilt.trans (counts_releaseView ..)).trans (.releaseAll _ _)),
    restored_of_settled acc intact alike (grown.release_record.releaseView lent)
      ((rebuilt.trans (.releaseAll _ _)).trans (counts_releaseView ..))⟩

end Restored

/-- A record is taken apart and put together again.

    The view of a record shows its bytes, and goes on showing them while it is held, whatever else
    is made or dropped, the record included. What is rebuilt from there with a descriptor of the
    same layout is another record with the same bytes and fields. Where nothing but references was
    given up in the meantime, the heap is in the end as if there had been neither: once the view
    and that record are gone, in either order, it is what giving up those references makes of it. -/
theorem record_round_trip {dropped : List Ref} {kept : Multiset Ref} (hosted : h₀.Hosted)
    (layout : h₀.layout? t = some (.record fields size))
    (built : h₀.reconstruct (some .reference) start length (some t) = (h₁, .ok r))
    (keeps : h₁.Keeps h) (acc : h.Accounts (dropped + kept)) (live : ∃ o, h.get? r = some o) :
    ∃ h₂ v, h.extract (some r) Strategy.standard = (h₂, .ok v) ∧
      (∃ descr storage, h.body? r = some (.record descr storage) ∧ v.owner = some storage) ∧
      h.recordBytes? r = some (v.bytes h₂) ∧
      (∀ (h₃ : Heap) (out : Multiset Ref), h₂.Keeps h₃ → h₃.Accounts (v.refs + out) →
        v.bytes h₃ = v.bytes h₂ ∧
        ∀ d, h₃.layout? d = some (.record fields size) → ∃ h₄ r',
          h₃.reconstruct (some .reference) v.start v.length.toNat (some d) = (h₄, .ok r') ∧
            h.Copied r h₃ h₄ r') ∧
      let h₃ := h₂.releaseAll dropped
      h₃.Accounts (v.refs + kept) ∧
        ∀ d, h₃.layout? d = some (.record fields size) → ∃ h₄ r',
          h₃.reconstruct (some .reference) v.start v.length.toNat (some d) = (h₄, .ok r') ∧
            h.Restored r dropped kept ((h₄.releaseView v).1.release r') ∧
            h.Restored r dropped kept ((h₄.release r').releaseView v).1 := by
  obtain ⟨descr, storage, bytes, rfl, new⟩ := isRecord_of_reconstruct hosted layout built
  have intact : h.IsRecord r descr storage fields bytes := new.of_keeps keeps acc live
  obtain ⟨o, stored, _⟩ := body?_eq_some_iff.mp intact.data
  have there : ∃ o, h.get? storage = some o := ⟨o, stored⟩
  have shown : (h.viewed storage).body? storage = some (.bytes bytes) :=
    (keeps_viewed h storage).body?_of_live intact.data
      ((accounts_viewed acc there).owned (Multiset.mem_cons_self ..))
  have parted : ((h.viewed storage).releaseAll dropped).Accounts (storage ::ₘ kept) :=
    accounts_dropped acc there
  refine ⟨h.viewed storage, viewOf storage bytes, extract_eq intact,
    ⟨descr, storage, intact.body, rfl⟩, by rw [intact.recordBytes?_eq, bytes_viewOf shown], ?_,
    by simpa [View.refs, viewOf] using parted, fun d alike => ?_⟩
  · intro h₃ out later held
    have still : h₃.body? storage = some (.bytes bytes) :=
      later.body?_of_live shown (held.owned (by simp [View.refs, viewOf]))
    have longer := later.grows
    rw [length_viewed] at longer
    exact ⟨by rw [bytes_viewOf still, bytes_viewOf shown], fun d alike =>
      copied_of_view intact held.hosted longer still alike⟩
  · have still : ((h.viewed storage).releaseAll dropped).body? storage = some (.bytes bytes) :=
      (Keeps.releaseAll _ dropped).body?_of_live shown (parted.owned (Multiset.mem_cons_self ..))
    exact restored_of_view acc intact still alike

/-- The record is dropped while its bytes are viewed, and another is rebuilt from them. -/
theorem record_round_trip_of_dropped :
    let built := described.reconstruct (some .reference) (.block 0 0) 3 (some 1)
    let dropped : List Ref := [6]
    described.Hosted ∧ built.2 = .ok 6 ∧ built.1.Accounts (dropped + {1}) ∧ built.1.Room 16 ∧
      ∃ h₂ v, built.1.extract (some 6) Strategy.standard = (h₂, .ok v) ∧
        (h₂.releaseAll dropped).get? 6 = none ∧ v.bytes (h₂.releaseAll dropped) = [1, 2] ∧
        ∃ h₄ r', (h₂.releaseAll dropped).reconstruct (some .reference) v.start v.length.toNat
            (some 1) = (h₄, .ok r') ∧ h₄.recordBytes? r' = some [1, 2] ∧
          (built.1.releaseAll dropped).Same ((h₄.releaseView v).1.release r') ∧
          ((h₄.releaseView v).1.release r').get? 6 = none := by
  intro built dropped
  have hosted : described.Hosted := accounts_described.hosted
  have answer : built.2 = .ok 6 := by decide +kernel
  have moved : Custody.Moves ⟨described, {1}, 0, 0⟩
      ⟨built.1, built.2.toOption.toList + {1}, 0, 0⟩ :=
    Custody.moves_reconstruct _ _ _ (by simp)
  have acc : built.1.Accounts (dropped + {1}) := by
    have held := Custody.accounts_moves moved
      (by simpa [Custody.allRefs] using accounts_described)
    simpa [Custody.allRefs, answer, Except.toOption, dropped] using held
  have live : ∃ o, built.1.get? 6 = some o := acc.owned (by simp [dropped])
  have room : built.1.Room 16 := by decide +kernel
  have layout : described.layout? 1 = some (.record [⟨"a", 0, .float64⟩] 2) := by decide
  have bytes : built.1.recordBytes? 6 = some [1, 2] := by decide +kernel
  have gone : (built.1.releaseAll dropped).get? 6 = none := by decide +kernel
  obtain ⟨h₂, v, extracted, _, shown, later, held, rebuild⟩ :=
    record_round_trip hosted layout (Prod.ext rfl answer) (.refl _) acc live
  obtain rfl : (built.1.extract (some 6) Strategy.standard).1 = h₂ := by rw [extracted]
  have viewed := Option.some.inj (shown.symm.trans bytes)
  have alike : ((built.1.extract (some 6) Strategy.standard).1.releaseAll dropped).layout? 1 =
      some (.record [⟨"a", 0, .float64⟩] 2) := by decide +kernel
  obtain ⟨still, copies⟩ := later _ _ (.releaseAll _ dropped) held
  obtain ⟨h₄, r', again, copied⟩ := copies 1 alike
  obtain ⟨h₅, r'', again', restored, _⟩ := rebuild 1 alike
  cases again.symm.trans again'
  exact ⟨hosted, answer, acc, room, _, v, extracted, by decide +kernel, still.trans viewed, h₄, r',
    again, copied.bytes.trans bytes, restored.same room,
    ((restored.same room).objects 6).trans gone⟩

end Heap

end NativeBridge
