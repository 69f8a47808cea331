import NativeBridge.Proofs.Heap.Growth

/-! What falls when a reference is given back.

    An object whose last reference goes still stands, with no count, while the references it holds
    are given back one after the other, each with all that falls with it; only then its memory goes.
    `Heap.Cascade` is this recursion. Nothing in it says that it ends, and it does not go on where a
    reference leads to nothing or memory would go twice.

    It ends because references lead to objects that were made earlier (`Heap.Ordered`), and what it
    ends with is what `Heap.releaseAll` computes, which frees first and looks at the references
    afterwards (`Heap.exists_mirrors`). What falls is what the remaining owners no longer reach,
    each object once, and the count of what stays is less by the owners that it lost
    (`Heap.Collapses`). -/

namespace NativeBridge.Heap

variable {h h' h₁ h₂ g g₁ g' : Heap} {r t : Ref} {o o' : Object} {count : RefCount}
  {work rest fallen fallen' inner outer : List Ref} {out : Multiset Ref}

/-- Objects hold references to objects made before them only. -/
def Ordered (h : Heap) : Prop := ∀ r o, h.get? r = some o → ∀ t ∈ o.body.refs, t < r

/-! ### The recursion -/

/-- Gives references back one after the other: the objects that fall, in the order in which they
    begin to, and the heap that is left. -/
inductive Cascade : Heap → List Ref → List Ref → Heap → Prop where
  | done {h : Heap} : Cascade h [] [] h
  | more {h h' : Heap} {r : Ref} {o : Object} {count : RefCount} {rest fallen : List Ref} :
    h.get? r = some o → o.count.release = some count →
    Cascade (h.update r fun o => { o with count }) rest fallen h' →
    Cascade h (r :: rest) fallen h'
  | last {h h₁ h' : Heap} {r : Ref} {o o' : Object} {rest inner outer : List Ref} :
    h.get? r = some o → o.count.release = none →
    Cascade (h.update r fun o => { o with count := 0 }) o.body.refs inner h₁ →
    h₁.get? r = some o' → Cascade (h₁.free r o.body.kind) rest outer h' →
    Cascade h (r :: rest) (r :: (inner ++ outer)) h'

/-- There is one way only in which references are given back. -/
theorem Cascade.unique (first : h.Cascade work fallen h₁) (second : h.Cascade work fallen' h₂) :
    fallen' = fallen ∧ h₂ = h₁ := by
  induction first generalizing fallen' h₂ with
  | done =>
    cases second
    exact ⟨rfl, rfl⟩
  | more found released _ ih =>
    cases second with
    | more found' released' later =>
      cases found.symm.trans found'
      cases released.symm.trans released'
      exact ih later
    | last found' last =>
      cases found.symm.trans found'
      cases released.symm.trans last
  | last found last _ _ _ ihInner ihOuter =>
    cases second with
    | more found' released =>
      cases found.symm.trans found'
      cases last.symm.trans released
    | last found' _ inner' _ outer' =>
      cases found.symm.trans found'
      obtain ⟨rfl, rfl⟩ := ihInner inner'
      obtain ⟨rfl, rfl⟩ := ihOuter outer'
      exact ⟨rfl, rfl⟩

/-! ### What falls -/

/-- The references that these objects hold. -/
def heldBy (h : Heap) (rs : List Ref) : List Ref := rs.flatMap fun r => slotFields (h.get? r)

theorem heldBy_congr {rs : List Ref}
    (same : ∀ r ∈ rs, slotFields (h'.get? r) = slotFields (h.get? r)) :
    h'.heldBy rs = h.heldBy rs := List.flatMap_congr same

/-- What is still there holds what it held. -/
theorem slotFields_releaseAll (found : (h.releaseAll work).get? t = some o) :
    slotFields ((h.releaseAll work).get? t) = slotFields (h.get? t) := by
  obtain ⟨o', found', same, _⟩ := get?_releaseAll found
  rw [found, found', slotFields, slotFields, Option.map_some, Option.map_some, same]

/-- These are the objects that fall when the references are given back. Of the references held on
    the heap those are gone that they held. -/
structure Fallen (h : Heap) (work fallen : List Ref) : Prop where
  once : fallen.Nodup
  mem : ∀ t, t ∈ fallen ↔ (∃ o, h.get? t = some o) ∧ (h.releaseAll work).get? t = none
  fields : (h.fields : Multiset Ref) = h.heldBy fallen + (h.releaseAll work).fields

namespace Fallen

theorem nil (h : Heap) : h.Fallen [] [] := by
  refine ⟨List.nodup_nil, fun t => ?_, ?_⟩
  · rw [releaseAll_nil]
    cases h.get? t <;> simp
  · rw [releaseAll_nil]
    exact (zero_add _).symm

theorem more (found : h.get? r = some o) (released : o.count.release = some count)
    (later : (h.update r fun o => { o with count }).Fallen rest fallen) :
    h.Fallen (r :: rest) fallen := by
  have lookup (t : Ref) := get?_update h r t fun o => { o with count }
  have held : ∀ t, slotFields ((h.update r fun o => { o with count }).get? t) =
      slotFields (h.get? t) := by
    intro t
    rw [lookup]
    split
    · cases h.get? t <;> rfl
    · rfl
  have fields := later.fields
  rw [fields_update h r (fun o => { o with count }) fun _ => rfl,
    heldBy_congr fun t _ => held t] at fields
  refine ⟨later.once, fun t => ?_, ?_⟩
  · rw [releaseAll_of_more found released, later.mem, lookup]
    split
    · cases h.get? t <;> simp
    · rfl
  · rw [releaseAll_of_more found released, fields]

/-- First some references are given back, then others besides. -/
theorem append (first : h.Fallen work inner) (second : (h.releaseAll work).Fallen rest outer) :
    h.Fallen (work ++ rest) (inner ++ outer) := by
  have still : ∀ t o, (h.releaseAll work).get? t = some o → t ∉ inner := fun t o found mem => by
    cases ((first.mem t).mp mem).2.symm.trans found
  refine ⟨List.nodup_append.mpr ⟨first.once, second.once, ?_⟩, fun t => ?_, ?_⟩
  · rintro t early _ late rfl
    obtain ⟨o, found⟩ := ((second.mem t).mp late).1
    exact still t o found early
  · rw [releaseAll_append, List.mem_append, first.mem, second.mem]
    cases middle : (h.releaseAll work).get? t with
    | none => simp [get?_releaseAll_of_missing middle]
    | some p =>
      obtain ⟨q, before, _⟩ := get?_releaseAll middle
      simp [before]
  · have held : (h.releaseAll work).heldBy outer = h.heldBy outer := heldBy_congr fun t mem => by
      obtain ⟨p, found⟩ := ((second.mem t).mp mem).1
      exact slotFields_releaseAll found
    have all : h.heldBy (inner ++ outer) = h.heldBy inner ++ h.heldBy outer := List.flatMap_append
    rw [releaseAll_append, first.fields, second.fields, held, all, ← Multiset.coe_add, add_assoc]

/-- An object that is freed falls before what falls with it. -/
theorem cons_free (found : h.get? r = some o) (last : o.count.release = none)
    (later : (h.free r o.body.kind).Fallen (o.body.refs ++ rest) fallen) :
    h.Fallen (r :: rest) (r :: fallen) := by
  have here := get?_free_self h r o.body.kind
  have other : ∀ t ∈ fallen, t ≠ r := by
    rintro t mem rfl
    obtain ⟨p, there⟩ := ((later.mem t).mp mem).1
    cases here.symm.trans there
  refine ⟨List.nodup_cons.mpr ⟨fun mem => other r mem rfl, later.once⟩, fun t => ?_, ?_⟩
  · rw [releaseAll_of_last found last, List.mem_cons, later.mem]
    by_cases same : t = r
    · subst same
      exact iff_of_true (.inl rfl) ⟨⟨o, found⟩, get?_releaseAll_of_missing here⟩
    · rw [get?_free_of_ne same, or_iff_right same]
  · have held : (h.free r o.body.kind).heldBy fallen = h.heldBy fallen :=
      heldBy_congr fun t mem => by rw [get?_free_of_ne (other t mem)]
    have all : h.heldBy (r :: fallen) = o.body.refs ++ h.heldBy fallen := by
      simp [heldBy, found, slotFields]
    rw [releaseAll_of_last found last, fields_free o.body.kind found, later.fields, held, all,
      ← Multiset.coe_add, add_assoc]

end Fallen

/-! ### Objects that are about to fall -/

/-- How the recursion on `g` follows `releaseAll` on `h`, which is `g` without the objects that are
    about to fall. -/
structure Mirrors (h g : Heap) (work fallen : List Ref) (g' : Heap) : Prop where
  cascade : g.Cascade work fallen g'
  shared : ∀ t o, h.get? t = some o → g'.get? t = (h.releaseAll work).get? t
  aside : ∀ t, h.get? t = none → g'.get? t = g.get? t
  counts : g.Counts g'
  blocks : g'.blocks = g.blocks

/-- All objects of the one heap stand in the other. -/
def Within (h g : Heap) : Prop := ∀ t o, h.get? t = some o → g.get? t = some o

namespace Within

theorem update (within : h.Within g) (r : Ref) (change : Object → Object) :
    (h.update r change).Within (g.update r change) := by
  intro t o found
  rw [get?_update] at found ⊢
  split at found
  · rename_i same
    obtain ⟨p, hp, rfl⟩ := Option.map_eq_some_iff.mp found
    rw [if_pos same, within t p hp, Option.map_some]
  · rename_i other
    rw [if_neg other, within t o found]

/-- An object that is about to fall stands in the one heap and is gone from the other. -/
theorem update_free (within : h.Within g) (r : Ref) (kind : Kind) (change : Object → Object) :
    (h.free r kind).Within (g.update r change) := by
  intro t o found
  rw [get?_free] at found
  split at found
  · cases found
  · rename_i other
    rw [get?_update, if_neg other, within t o found]

theorem free (within : h.Within g) (gone : h.get? r = none) (kind : Kind) :
    h.Within (g.free r kind) := by
  intro t o found
  have other : t ≠ r := by
    rintro rfl
    cases found.symm.trans gone
  rw [get?_free_of_ne other, within t o found]

end Within

namespace Mirrors

theorem within (mirrors : h.Mirrors g work fallen g') : (h.releaseAll work).Within g' := by
  intro t o found
  obtain ⟨o', before, _⟩ := get?_releaseAll found
  rw [mirrors.shared t o' before, found]

theorem nil (within : h.Within g) : h.Mirrors g [] [] g := by
  refine ⟨.done, fun t o found => ?_, fun _ _ => rfl, .refl g, rfl⟩
  rw [releaseAll_nil, found, within t o found]

theorem more (within : h.Within g) (found : h.get? r = some o)
    (released : o.count.release = some count)
    (later : (h.update r fun o => { o with count }).Mirrors (g.update r fun o => { o with count })
      rest fallen g') : h.Mirrors g (r :: rest) fallen g' := by
  refine ⟨.more (within r o found) released later.cascade, fun t p hp => ?_, fun t missing => ?_,
    (Counts.update g r (fun o => { o with count }) fun _ => rfl).trans later.counts, later.blocks⟩
  · rw [releaseAll_of_more found released]
    have still : ∃ q, (h.update r fun o => { o with count }).get? t = some q := by
      rw [get?_update, hp]
      split <;> simp
    obtain ⟨q, hq⟩ := still
    exact later.shared t q hq
  · have other : r ≠ t := by
      rintro rfl
      cases found.symm.trans missing
    rw [later.aside t (by rw [get?_update, if_neg other, missing]), get?_update, if_neg other]

/-- The object stands until the references it held are given back, and then goes. -/
theorem last (within : h.Within g) (found : h.get? r = some o) (last : o.count.release = none)
    (first : (h.free r o.body.kind).Mirrors (g.update r fun o => { o with count := 0 })
      o.body.refs inner g₁)
    (second : ((h.free r o.body.kind).releaseAll o.body.refs).Mirrors (g₁.free r o.body.kind)
      rest outer g') : h.Mirrors g (r :: rest) (r :: (inner ++ outer)) g' := by
  have stands : g₁.get? r = some { o with count := 0 } := by
    rw [first.aside r (get?_free_self h r _), get?_update, if_pos rfl, within r o found]
    rfl
  refine ⟨.last (within r o found) last first.cascade stands second.cascade, fun t p hp => ?_,
    fun t missing => ?_, ?_, ?_⟩
  · rw [releaseAll_of_last found last, releaseAll_append]
    cases middle : ((h.free r o.body.kind).releaseAll o.body.refs).get? t with
    | some q => exact second.shared t q middle
    | none =>
      rw [second.aside t middle, get?_releaseAll_of_missing middle]
      by_cases same : t = r
      · rw [same, get?_free_self]
      · rw [get?_free_of_ne same, first.shared t p (by rw [get?_free_of_ne same, hp]), middle]
  · have other : t ≠ r := by
      rintro rfl
      cases found.symm.trans missing
    have missing' : (h.free r o.body.kind).get? t = none := by rw [get?_free_of_ne other, missing]
    rw [second.aside t (get?_releaseAll_of_missing missing'), get?_free_of_ne other,
      first.aside t missing', get?_update, if_neg other.symm]
  · have fell : g₁.Counts (g₁.free r { o with count := 0 }.body.kind) := Counts.free stands
    exact ((Counts.update g r (fun o => { o with count := 0 }) fun _ => rfl).trans
      first.counts).trans (fell.trans second.counts)
  · exact second.blocks.trans first.blocks

end Mirrors

/-- The recursion ends: what an object holds was made before it, and while references are given
    back there are fewer of them. -/
theorem exists_mirrors (bound : Ref) (acc : h.Accounts (work + out)) (within : h.Within g)
    (earlier : ∀ r ∈ work, r < bound) :
    ∃ fallen g', h.Fallen work fallen ∧ h.Mirrors g work fallen g' := by
  induction bound using Nat.strong_induction_on generalizing h g work out with
  | _ bound deeper =>
    induction work generalizing h g with
    | nil => exact ⟨[], g, .nil h, .nil within⟩
    | cons r rest ih =>
      have earlier' : ∀ t ∈ rest, t < bound := fun t mem => earlier t (List.mem_cons_of_mem r mem)
      obtain ⟨o, found⟩ := acc.live r (by simp)
      rw [← Multiset.cons_coe, Multiset.cons_add] at acc
      cases released : o.count.release with
      | some count =>
        obtain ⟨fallen, g', fell, mirrors⟩ :=
          ih (acc.lower found released) (within.update r _) earlier'
        exact ⟨fallen, g', .more found released fell, .more within found released mirrors⟩
      | none =>
        have freed := acc.free found released
        obtain ⟨inner, g₁, fell₁, mirrors₁⟩ := deeper r (earlier r List.mem_cons_self) freed
          (within.update_free r o.body.kind _) (acc.ordered r o found)
        have gone := get?_free_self h r o.body.kind
        have within' := mirrors₁.within.free (get?_releaseAll_of_missing gone) o.body.kind
        obtain ⟨outer, g', fell₂, mirrors₂⟩ := ih freed.releaseAll within' earlier'
        exact ⟨_, g', .cons_free found released (fell₁.append fell₂),
          .last within found released mirrors₁ mirrors₂⟩

/-! ### What stays -/

/-- What stays is what the remaining owners reach, or an immortal object. -/
theorem stays_iff_reached (acc : h.Accounts (work + out)) :
    (∃ o, (h.releaseAll work).get? t = some o) ↔ h.Reaches (fun u => u ∈ out ∨ h.Pinned u) t := by
  have after := acc.releaseAll
  constructor
  · rintro ⟨o, found⟩
    have reached := after.reaches found
    clear found
    induction reached with
    | root root => exact .root (root.imp id acc.pinned_releaseAll.mp)
    | field _ found mem ih =>
      obtain ⟨o', before, same, _⟩ := get?_releaseAll found
      exact .field ih before (same ▸ mem)
  · intro reached
    induction reached with
    | root root =>
      rcases root with owned | pinned
      · exact after.owned owned
      · exact (acc.pinned_releaseAll.mpr pinned).imp fun _ p => p.1
    | field _ found mem ih =>
      obtain ⟨o, still⟩ := ih
      obtain ⟨o', before, same, _⟩ := get?_releaseAll still
      cases found.symm.trans before
      exact after.stored still (same ▸ mem)

/-- What comes of giving back a reference to `r` while `out` are the references that are held
    outside besides: these objects fall, and `h'` is left. -/
structure Collapses (h : Heap) (r : Ref) (out : Multiset Ref) (fallen : List Ref) (h' : Heap) :
    Prop where
  /-- The recursion ends, in this one way, with a heap that nothing can tell from `h'`. -/
  ends : ∃ g, (∀ fell left, h.Cascade [r] fell left ↔ fell = fallen ∧ left = g) ∧ g.Same h'
  once : fallen.Nodup
  unreached : ∀ t, t ∈ fallen ↔
    (∃ o, h.get? t = some o) ∧ ¬h.Reaches (fun u => u ∈ out ∨ h.Pinned u) t
  /-- While only the record kind is immortal, it is the owners outside that matter. -/
  unowned : (∀ t, h.Pinned t → t = recordKind) → ∀ t, t ≠ recordKind →
    (t ∈ fallen ↔ (∃ o, h.get? t = some o) ∧ ¬h.Reaches (· ∈ out) t)
  gone : ∀ t, h.get? t = none ∨ t ∈ fallen → h'.get? t = none
  /-- An object that stays loses the reference given back and those that the fallen held. -/
  stays : ∀ t o, h.get? t = some o → t ∉ fallen → ∃ count : RefCount,
    h'.get? t = some { o with count } ∧ (o.count = .pinned → count = .pinned) ∧
      (o.count ≠ .pinned → count.toNat + (r :: h.heldBy fallen).count t = o.count.toNat)

/-- What fell was there and is not there any more. -/
theorem Collapses.mem_iff (collapses : h.Collapses r out fallen h') :
    t ∈ fallen ↔ (∃ o, h.get? t = some o) ∧ h'.get? t = none := by
  refine ⟨fun mem => ⟨((collapses.unreached t).mp mem).1, collapses.gone t (.inr mem)⟩, ?_⟩
  rintro ⟨⟨o, found⟩, missing⟩
  by_contra other
  obtain ⟨_, left, _⟩ := collapses.stays t o found other
  cases missing.symm.trans left

/-- The owners from before are the one given back, those that the fallen held, and those that are
    left. -/
theorem Fallen.owners (fell : h.Fallen [r] fallen) :
    r ::ₘ out + h.fields = (r :: h.heldBy fallen : List Ref) + (out + (h.release r).fields) := by
  rw [fell.fields, ← Multiset.cons_coe, Multiset.cons_add, Multiset.cons_add, release]
  congr 1
  abel

/-- An object that stays is as it was but for its owners. -/
theorem Fallen.get?_release (fell : h.Fallen [r] fallen) (acc : h.Accounts (r ::ₘ out))
    (found : h.get? t = some o) (stays : t ∉ fallen) : ∃ count : RefCount,
      (h.release r).get? t = some { o with count } ∧ (o.count = .pinned → count = .pinned) ∧
        (o.count ≠ .pinned → count.toNat + (r :: h.heldBy fallen).count t = o.count.toNat) := by
  have still : ∃ o', (h.release r).get? t = some o' := by
    refine Option.isSome_iff_exists.mp (Option.isSome_iff_ne_none.mpr fun gone => ?_)
    exact stays ((fell.mem t).mpr ⟨⟨o, found⟩, gone⟩)
  obtain ⟨o', left⟩ := still
  obtain ⟨p, before, body, exports⟩ := get?_releaseAll left
  cases found.symm.trans before
  have same : o' = { o with count := o'.count } := by
    cases o'
    simp_all
  have mark : (h.release r).Pinned t ↔ h.Pinned t := acc.of_cons.pinned_releaseAll
  refine ⟨o'.count, same ▸ left, fun immortal => ?_, fun mortal => ?_⟩
  · obtain ⟨q, hq, pinned⟩ := mark.mpr ⟨o, found, immortal⟩
    cases hq.symm.trans left
    exact pinned
  · have mortal' : o'.count ≠ .pinned := fun pinned => by
      obtain ⟨q, hq, immortal⟩ := mark.mp ⟨o', left, pinned⟩
      cases hq.symm.trans found
      exact mortal immortal
    rw [acc.counted t o found mortal, acc.release.counted t o' left mortal', fell.owners,
      Nat.add_comm, ← Multiset.coe_count, ← Multiset.count_add]

/-- What falls is what the remaining owners do not reach, nor an immortal object. -/
theorem Fallen.mem_iff (fell : h.Fallen work fallen) (acc : h.Accounts (work + out)) (t : Ref) :
    t ∈ fallen ↔
      (∃ o, h.get? t = some o) ∧ ¬h.Reaches (fun u => u ∈ out ∨ h.Pinned u) t := by
  rw [fell.mem, ← stays_iff_reached acc, ← Option.not_isSome_iff_eq_none, Option.isSome_iff_exists]

/-- Where every count is the number of owners, a reference can be given back to the end. -/
theorem collapses_release (acc : h.Accounts (r ::ₘ out)) :
    ∃ fallen, h.Collapses r out fallen (h.release r) := by
  have acc' : h.Accounts (([r] : List Ref) + out) := acc.of_cons
  obtain ⟨fallen, g, fell, mirrors⟩ :=
    exists_mirrors (r + 1) acc' (fun _ _ => id) fun t mem => by simp_all
  refine ⟨fallen, ⟨g, fun fell left => ⟨fun other => mirrors.cascade.unique other, ?_⟩, ?_⟩,
    fell.once, fell.mem_iff acc', fun only t other => ?_, fun t missing => ?_,
    fun t o => fell.get?_release acc⟩
  · rintro ⟨rfl, rfl⟩
    exact mirrors.cascade
  · refine .of_counts (fun t => ?_) ?_ (mirrors.counts.symm.trans (.releaseAll h [r]))
    · cases found : h.get? t with
      | none => rw [mirrors.aside t found, found, release, get?_releaseAll_of_missing found]
      | some o => rw [mirrors.shared t o found, release]
    · rw [mirrors.blocks, release, blocks_releaseAll]
  · obtain ⟨k, found, _, body⟩ := acc.kind
    rw [fell.mem_iff acc']
    refine and_congr_right fun _ => not_congr ⟨fun reached => ?_, fun reached => ?_⟩
    · exact (reached.eq_kind_or found body only).resolve_left other
    · exact reached.mono fun _ => .inl
  · rcases missing with missing | mem
    · exact get?_releaseAll_of_missing missing
    · exact ((fell.mem t).mp mem).2

end NativeBridge.Heap
