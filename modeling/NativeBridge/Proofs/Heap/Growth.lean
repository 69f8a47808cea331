import NativeBridge.Proofs.Heap.Census
import NativeBridge.Proofs.Heap.Ownership

/-! A heap and what an operation adds to it.

    `Heap.Grown h news h'` says that `h'` is `h` with the objects `news` besides and nothing else
    changed. It is kept up to date along an operation: a new object joins, one of the new objects
    changes or falls, and an old object changes on both sides. An operation that ends with nothing
    new left the heap as it was, live-object counters included (`Heap.Same`).

    A count is a word, so what was borrowed and given back shows nowhere only if the count had room
    for it below the mark of an immortal object (`Heap.Room`, `Heap.grown_lent`). -/

namespace NativeBridge

namespace Heap

variable {h h' h₁ h₂ h₃ : Heap} {r t : Ref} {o : Object} {news more : List (Ref × Object)}

/-! ### The same heap -/

/-- Nothing can tell the heaps apart: the same objects with the same counts, exports and contents,
    the same memory outside and the same counters. -/
structure Same (h h' : Heap) : Prop where
  objects : ∀ r, h'.get? r = h.get? r
  blocks : h'.blocks = h.blocks
  enabled : h'.census.enabled = h.census.enabled
  total : h'.census.total = h.census.total
  live : ∀ kind, h'.census.live kind = h.census.live kind

namespace Same

theorem refl (h : Heap) : h.Same h := ⟨fun _ => rfl, rfl, rfl, rfl, fun _ => rfl⟩

theorem trans (first : h₁.Same h₂) (second : h₂.Same h₃) : h₁.Same h₃ :=
  ⟨fun r => (second.objects r).trans (first.objects r), second.blocks.trans first.blocks,
    second.enabled.trans first.enabled, second.total.trans first.total,
    fun kind => (second.live kind).trans (first.live kind)⟩

theorem body?_eq (same : h₁.Same h₂) (r : Ref) : h₂.body? r = h₁.body? r := by
  rw [body?, body?, same.objects]

end Same

theorem countP_congr_of_join {α : Type} {l l' : List (Option α)} (p : α → Bool)
    (same : ∀ i : Nat, l'[i]?.join = l[i]?.join) : l'.countP (·.any p) = l.countP (·.any p) := by
  induction l generalizing l' with
  | nil =>
    refine (List.countP_eq_zero.mpr fun slot mem => ?_).trans rfl
    obtain ⟨i, hi⟩ := List.mem_iff_getElem?.mp mem
    have none := same i
    rw [hi] at none
    cases slot with
    | none => simp
    | some a => cases none
  | cons slot rest ih =>
    cases l' with
    | nil =>
      have none : slot = none := (same 0).symm
      subst none
      exact ih fun i => same (i + 1)
    | cons slot' rest' =>
      obtain rfl : slot' = slot := same 0
      rw [List.countP_cons, List.countP_cons, ih fun i => same (i + 1)]

theorem allocated_congr (same : ∀ r, h'.get? r = h.get? r) (kind : Kind) :
    h'.allocated kind = h.allocated kind := countP_congr_of_join _ same

/-- The counters need not be looked at where they follow the objects. -/
theorem Same.of_counts (objects : ∀ r, h'.get? r = h.get? r) (blocks : h'.blocks = h.blocks)
    (counts : h.Counts h') : h.Same h' := by
  have live : ∀ kind, h'.census.live kind = h.census.live kind := by
    intro kind
    cases on : h.census.enabled with
    | false => rw [counts.off on]
    | true =>
      have := counts.live on kind
      rw [allocated_congr objects] at this
      omega
  refine ⟨objects, blocks, counts.enabled, ?_, live⟩
  have total := counts.total
  have sum : h'.census.sum = h.census.sum := by rw [Census.sum, Census.sum, funext live]
  omega

/-! ### Well-formed heaps -/

/-- The record kind is there for good, and whatever is allocated has an owner. -/
structure Hosted (h : Heap) : Prop where
  kind : ∃ o, h.get? recordKind = some o ∧ o.count = .pinned ∧ o.body = .recordKind
  positive : ∀ r o, h.get? r = some o → o.count ≠ 0

theorem Accounts.hosted {out : Multiset Ref} (acc : h.Accounts out) : h.Hosted :=
  ⟨acc.kind, acc.positive⟩

/-! ### Room for references -/

/-- Every count is at the mark of an immortal object, or has room for `n` references up to it. -/
def Room (h : Heap) (n : Nat) : Prop :=
  ∀ r o, h.get? r = some o → o.count = .pinned ∨ o.count.toNat < pow2 32 - n

instance (h : Heap) (n : Nat) : Decidable (h.Room n) := decidable_of_iff _ forall_object_iff.symm

theorem Same.room {n : Nat} (same : h.Same h') (room : h.Room n) : h'.Room n := by
  intro r o found
  exact room r o ((same.objects r).symm.trans found)

namespace Room

variable {m n : Nat}

theorem mono (room : h.Room n) (fewer : m ≤ n) : h.Room m := by
  intro r o ho
  refine (room r o ho).imp id fun below => ?_
  omega

theorem update {change : Object → Object} (room : h.Room n)
    (kept : ∀ o, (change o).count = o.count) : (h.update r change).Room n := by
  intro t o' ho'
  rw [get?_update] at ho'
  split at ho'
  · obtain ⟨o, ho, rfl⟩ := Option.map_eq_some_iff.mp ho'
    rw [kept]
    exact room t o ho
  · exact room t o' ho'

theorem retain (room : h.Room (n + 1)) (r : Ref) : (h.retain r).Room n := by
  intro t o' ho'
  rw [get?_retain] at ho'
  split at ho'
  · obtain ⟨o, ho, rfl⟩ := Option.map_eq_some_iff.mp ho'
    by_cases mark : o.count = .pinned
    · exact .inl (by simp [mark])
    · have below := (room t o ho).resolve_left mark
      have more := RefCount.toNat_retain mark
      refine .inr ?_
      show o.count.retain.toNat < _
      omega
  · exact room.mono (Nat.le_succ n) t o' ho'

/-- Where there is room, taking a reference makes nothing immortal. -/
theorem pinned_retain (room : h.Room 2) (pinned : (h.retain r).Pinned t) : h.Pinned t := by
  obtain ⟨o', ho', mark⟩ := pinned
  rw [get?_retain] at ho'
  split at ho'
  · obtain ⟨o, ho, rfl⟩ := Option.map_eq_some_iff.mp ho'
    by_contra none
    have mortal : o.count ≠ .pinned := fun hp => none ⟨o, ho, hp⟩
    have below := (room t o ho).resolve_left mortal
    have more := RefCount.toNat_retain mortal
    have top : o.count.retain.toNat = 4294967295 := congrArg UInt32.toNat mark
    have limit : pow2 32 = 4294967296 := rfl
    omega
  · exact ⟨o', ho', mark⟩

theorem releaseAll {work : List Ref} {out : Multiset Ref} (room : h.Room n)
    (acc : h.Accounts (work + out)) : (h.releaseAll work).Room n := by
  intro t o ho
  obtain ⟨o', ho', fewer⟩ := acc.count_releaseAll_le ho
  rcases room t o' ho' with mark | below
  · obtain ⟨p, hp, pinned⟩ := acc.pinned_releaseAll.mpr ⟨o', ho', mark⟩
    cases hp.symm.trans ho
    exact .inl pinned
  · exact .inr (Nat.lt_of_le_of_lt fewer below)

theorem release {out : Multiset Ref} (room : h.Room n) (acc : h.Accounts (r ::ₘ out)) :
    (h.release r).Room n := room.releaseAll acc.of_cons

end Room

end Heap

namespace RefCount

/-- A reference that was just taken is not the last. -/
theorem release_retain {count : RefCount} (positive : count ≠ 0) :
    ∃ rest, count.retain.release = some rest := by
  cases released : count.retain.release with
  | some rest => exact ⟨rest, rfl⟩
  | none =>
    have one := release_eq_none_iff.mp released
    by_cases mortal : count = pinned
    · rw [mortal] at one
      exact absurd one (by decide)
    · have more := toNat_retain mortal
      rw [one] at more
      have zero : count.toNat = 0 := by simpa using more.symm
      exact absurd (UInt32.toNat_inj.mp zero) positive

/-- Where there is room, giving back what was taken restores the count. -/
theorem eq_of_release_retain {count rest : RefCount}
    (room : count = pinned ∨ count.toNat < pow2 32 - 2)
    (released : count.retain.release = some rest) : rest = count := by
  rcases room with rfl | room
  · exact (Option.some.inj released).symm
  · have top : pinned.toNat = 4294967295 := rfl
    have mortal : count ≠ pinned := by
      rintro rfl
      simp [top] at room
    have more := toNat_retain mortal
    have below : count.retain ≠ pinned := fun same => by
      rw [same, top] at more
      simp at room
      omega
    obtain ⟨_, stays, fewer⟩ := release_eq_some (retain_ne_zero count) released
    have one := (fewer fun same => below (stays same)).2
    exact UInt32.toNat_inj.mp (by omega)

end RefCount

namespace Heap

variable {h h' h₁ h₂ h₃ : Heap} {r t : Ref} {o : Object} {news more : List (Ref × Object)}

/-! ### New objects -/

/-- The heap with these objects besides, under identities that were not given away before. -/
structure Grown (h : Heap) (news : List (Ref × Object)) (h' : Heap) : Prop where
  new : ∀ entry ∈ news, h'.get? entry.1 = some entry.2
  fresh : ∀ entry ∈ news, h.slots.length ≤ entry.1
  distinct : (news.map (·.1)).Nodup
  old : ∀ t, t ∉ news.map (·.1) → h'.get? t = h.get? t
  longer : h.slots.length ≤ h'.slots.length
  blocks : h'.blocks = h.blocks

namespace Grown

theorem refl (h : Heap) : h.Grown [] h :=
  ⟨by simp, by simp, List.nodup_nil, fun _ _ => rfl, Nat.le_refl _, rfl⟩

theorem of_objects (objects : ∀ r, h'.get? r = h.get? r)
    (longer : h.slots.length ≤ h'.slots.length) (blocks : h'.blocks = h.blocks) :
    h.Grown [] h' :=
  ⟨by simp, by simp, List.nodup_nil, fun t _ => objects t, longer, blocks⟩

theorem perm (grown : h.Grown news h') (order : news.Perm more) : h.Grown more h' := by
  have keys := order.map (·.1)
  exact ⟨fun e he => grown.new e (order.mem_iff.mpr he),
    fun e he => grown.fresh e (order.mem_iff.mpr he), keys.nodup_iff.mp grown.distinct,
    fun t ht => grown.old t fun mem => ht (keys.mem_iff.mp mem), grown.longer, grown.blocks⟩

theorem lt_length (grown : h.Grown news h') {entry : Ref × Object} (mem : entry ∈ news) :
    entry.1 < h'.slots.length := lt_length_of_get? (grown.new entry mem)

theorem ne_of_lt (grown : h.Grown news h') (earlier : t < h.slots.length) :
    t ∉ news.map (·.1) := by
  intro mem
  obtain ⟨entry, he, rfl⟩ := List.mem_map.mp mem
  exact absurd (grown.fresh entry he) (Nat.not_le.mpr earlier)

/-- What was there before is as it was. -/
theorem get?_eq (grown : h.Grown news h') (found : h.get? t = some o) : h'.get? t = some o :=
  (grown.old t (grown.ne_of_lt (lt_length_of_get? found))).trans found

theorem body?_eq (grown : h.Grown news h') (found : h.get? t = some o) :
    h'.body? t = h.body? t := by rw [body?, body?, grown.get?_eq found, found]

theorem body?_new (grown : h.Grown news h') (mem : (r, o) ∈ news) : h'.body? r = some o.body := by
  rw [body?, grown.new _ mem]
  rfl

/-- First some objects are new, then others besides. -/
theorem trans (first : h₁.Grown news h₂) (second : h₂.Grown more h₃) :
    h₁.Grown (more ++ news) h₃ := by
  have apart : ∀ entry ∈ news, entry.1 ∉ more.map (·.1) := fun entry he =>
    second.ne_of_lt (first.lt_length he)
  refine ⟨?_, ?_, ?_, ?_, first.longer.trans second.longer, second.blocks.trans first.blocks⟩
  · intro entry mem
    rcases List.mem_append.mp mem with mem | mem
    · exact second.new entry mem
    · exact (second.old _ (apart entry mem)).trans (first.new entry mem)
  · intro entry mem
    rcases List.mem_append.mp mem with mem | mem
    · exact first.longer.trans (second.fresh entry mem)
    · exact first.fresh entry mem
  · rw [List.map_append, List.nodup_append]
    refine ⟨second.distinct, first.distinct, fun t ht u hu same => ?_⟩
    obtain ⟨entry, he, rfl⟩ := List.mem_map.mp hu
    exact apart entry he (same ▸ ht)
  · intro t ht
    rw [List.map_append, List.mem_append, not_or] at ht
    rw [second.old t ht.1, first.old t ht.2]

theorem alloc (grown : h.Grown news h') (body : Body) :
    h.Grown ((h'.slots.length, ⟨.fresh, 0, body⟩) :: news) (h'.alloc body).1 := by
  refine ⟨?_, ?_, ?_, ?_, ?_, grown.blocks⟩
  · intro entry mem
    rw [get?_alloc]
    rcases List.mem_cons.mp mem with rfl | mem
    · rw [if_pos rfl]
    · rw [if_neg (Nat.ne_of_lt (grown.lt_length mem)), grown.new entry mem]
  · intro entry mem
    rcases List.mem_cons.mp mem with rfl | mem
    · exact grown.longer
    · exact grown.fresh entry mem
  · refine List.nodup_cons.mpr ⟨fun mem => ?_, grown.distinct⟩
    obtain ⟨entry, he, same⟩ := List.mem_map.mp mem
    exact absurd (grown.lt_length he) (by simp [same])
  · intro t ht
    obtain ⟨here, other⟩ := not_or.mp fun mem => ht (List.mem_cons.mpr mem)
    rw [get?_alloc, if_neg here, grown.old t other]
  · rw [length_alloc]
    exact Nat.le_succ_of_le grown.longer

/-- One of the new objects changes. -/
theorem modify (before : List (Ref × Object)) {after : List (Ref × Object)}
    (grown : h.Grown (before ++ (r, o) :: after) h') (change : Object → Object) :
    h.Grown (before ++ (r, change o) :: after) (h'.update r change) := by
  have front := grown.perm List.perm_middle
  have here := front.new (r, o) List.mem_cons_self
  obtain ⟨alone, distinct⟩ := List.nodup_cons.mp front.distinct
  suffices changed : h.Grown ((r, change o) :: (before ++ after)) (h'.update r change) from
    changed.perm List.perm_middle.symm
  refine ⟨?_, ?_, front.distinct, ?_, by simpa using grown.longer, grown.blocks⟩
  · intro entry mem
    rw [get?_update]
    rcases List.mem_cons.mp mem with rfl | mem
    · rw [if_pos rfl, here]
      rfl
    · rw [if_neg fun same : r = entry.1 => alone (List.mem_map.mpr ⟨entry, mem, same.symm⟩),
        front.new entry (List.mem_cons_of_mem _ mem)]
  · intro entry mem
    rcases List.mem_cons.mp mem with rfl | mem
    · exact front.fresh (r, o) List.mem_cons_self
    · exact front.fresh entry (List.mem_cons_of_mem _ mem)
  · intro t ht
    rw [get?_update, if_neg fun same : r = t => ht (same ▸ List.mem_cons_self), front.old t ht]

/-- One of the new objects falls. -/
theorem free (before : List (Ref × Object)) {after : List (Ref × Object)}
    (grown : h.Grown (before ++ (r, o) :: after) h') (kind : Kind) :
    h.Grown (before ++ after) (h'.free r kind) := by
  have front := grown.perm List.perm_middle
  obtain ⟨alone, distinct⟩ := List.nodup_cons.mp front.distinct
  refine ⟨?_, ?_, distinct, ?_, by simpa using grown.longer, grown.blocks⟩
  · intro entry mem
    have other : r ≠ entry.1 := fun same => alone (List.mem_map.mpr ⟨entry, mem, same.symm⟩)
    rw [get?_free, if_neg other, front.new entry (List.mem_cons_of_mem _ mem)]
  · intro entry mem
    exact front.fresh entry (List.mem_cons_of_mem _ mem)
  · intro t ht
    rw [get?_free]
    split
    · rename_i same
      subst same
      exact (get?_of_length_le (front.fresh (r, o) List.mem_cons_self)).symm
    · rename_i other
      refine front.old t fun mem => ?_
      rcases List.mem_cons.mp mem with same | mem
      · exact other same.symm
      · exact ht mem

/-- An old object changes on both sides. -/
theorem update_old (grown : h.Grown news h') (earlier : r < h.slots.length)
    (change : Object → Object) : (h.update r change).Grown news (h'.update r change) := by
  refine ⟨?_, ?_, grown.distinct, ?_, by simpa using grown.longer, grown.blocks⟩
  · intro entry mem
    rw [get?_update, if_neg, grown.new entry mem]
    rintro rfl
    exact absurd (grown.fresh entry mem) (Nat.not_le.mpr earlier)
  · intro entry mem
    simpa using grown.fresh entry mem
  · intro t ht
    rw [get?_update, get?_update, grown.old t ht]

/-- An old object falls on both sides. -/
theorem free_old (grown : h.Grown news h') (earlier : r < h.slots.length) (kind : Kind) :
    (h.free r kind).Grown news (h'.free r kind) := by
  refine ⟨?_, ?_, grown.distinct, ?_, by simpa using grown.longer, grown.blocks⟩
  · intro entry mem
    rw [get?_free, if_neg, grown.new entry mem]
    rintro rfl
    exact absurd (grown.fresh entry mem) (Nat.not_le.mpr earlier)
  · intro entry mem
    simpa using grown.fresh entry mem
  · intro t ht
    rw [get?_free, get?_free, grown.old t ht]

/-- The memory outside changes on both sides. -/
theorem withBlocks (grown : h.Grown news h') (change : List (List UInt8) → List (List UInt8)) :
    Grown { h with blocks := change h.blocks } news { h' with blocks := change h'.blocks } :=
  ⟨grown.new, grown.fresh, grown.distinct, grown.old, grown.longer, congrArg change grown.blocks⟩

/-! ### Giving references back -/

/-- The last reference to a new object goes, and what the object held goes with it. -/
theorem releaseAll_last (before : List (Ref × Object)) {after : List (Ref × Object)}
    (grown : h.Grown (before ++ (r, o) :: after) h') (last : o.count.release = none)
    (rest : List Ref) :
    ∃ h'', h'.releaseAll (r :: rest) = h''.releaseAll (o.body.refs ++ rest) ∧
      h.Grown (before ++ after) h'' :=
  ⟨_, releaseAll_of_last (grown.new (r, o) (by simp)) last rest, grown.free before _⟩

/-- The last reference to a new object that holds nothing goes. -/
theorem release_leaf (grown : h.Grown [(r, o)] h') (last : o.count.release = none)
    (leaf : o.body.refs = []) : h.Grown [] (h'.release r) := by
  obtain ⟨h'', released, left⟩ := releaseAll_last [] grown last []
  rw [leaf, List.append_nil, releaseAll_nil] at released
  rwa [release, released]

/-- One of several references to a new object goes. -/
theorem releaseAll_more (before : List (Ref × Object)) {after : List (Ref × Object)}
    {count : RefCount} (grown : h.Grown (before ++ (r, o) :: after) h')
    (more : o.count.release = some count) (rest : List Ref) :
    ∃ h'', h'.releaseAll (r :: rest) = h''.releaseAll rest ∧
      h.Grown (before ++ (r, { o with count }) :: after) h'' :=
  ⟨_, releaseAll_of_more (grown.new (r, o) (by simp)) more rest,
    grown.modify before fun o => { o with count }⟩

/-- One of several references to an old object goes. -/
theorem release_old {count : RefCount} (grown : h.Grown news h') (found : h.get? r = some o)
    (more : o.count.release = some count) : (h.release r).Grown news (h'.release r) := by
  rw [release, release, releaseAll_of_more found more,
    releaseAll_of_more (grown.get?_eq found) more, releaseAll_nil, releaseAll_nil]
  exact grown.update_old (lt_length_of_get? found) _

/-- A reference to an old object that holds nothing goes. -/
theorem release_leaf_old (grown : h.Grown news h') (found : h.get? r = some o)
    (leaf : o.body.refs = []) : (h.release r).Grown news (h'.release r) := by
  cases released : o.count.release with
  | some count => exact grown.release_old found released
  | none =>
    rw [release, release, releaseAll_of_last found released,
      releaseAll_of_last (grown.get?_eq found) released, leaf, List.append_nil, releaseAll_nil,
      releaseAll_nil]
    exact grown.free_old (lt_length_of_get? found) _

/-- The allocated objects are those from before and the new ones. -/
theorem allocated_eq (grown : h.Grown news h') (kind : Kind) :
    h'.allocated kind = h.allocated kind + news.countP (·.2.body.kind = kind) := by
  induction news generalizing h' with
  | nil => exact allocated_congr (fun t => grown.old t (by simp)) kind
  | cons entry rest ih =>
    have fewer := ih (grown.free [] entry.2.body.kind)
    have fell := allocated_free (grown.new entry List.mem_cons_self) kind
    rw [List.countP_cons]
    simp only [decide_eq_true_eq]
    omega

/-- With nothing new the heap is the same. -/
theorem same (grown : h.Grown [] h') (counts : h.Counts h') : h.Same h' :=
  .of_counts (fun t => grown.old t (by simp)) grown.blocks counts

end Grown

/-! ### Borrowing -/

/-- The heap after a reference to an object, if there is one, was taken and given back. -/
def lent (h : Heap) : Option Ref → Heap
  | none => h
  | some r => (h.retain r).release r

theorem get?_retain_self (found : h.get? r = some o) :
    (h.retain r).get? r = some { o with count := o.count.retain } := by
  rw [get?_retain, if_pos rfl, found]
  rfl

theorem lent_some (found : h.get? r = some o) {rest : RefCount}
    (released : o.count.retain.release = some rest) :
    h.lent (some r) = (h.retain r).update r fun o => { o with count := rest } := by
  rw [lent, release, releaseAll_of_more (get?_retain_self found) released, releaseAll_nil]

/-- What is borrowed is not used up. -/
theorem body?_lent (hosted : h.Hosted) {target : Option Ref}
    (live : ∀ r ∈ target, ∃ o, h.get? r = some o) (t : Ref) :
    (h.lent target).body? t = h.body? t := by
  cases target with
  | none => rfl
  | some r =>
    obtain ⟨o, found⟩ := live r rfl
    obtain ⟨rest, released⟩ := RefCount.release_retain (hosted.positive r o found)
    rw [lent_some found released,
      body?_update _ _ _ (fun o => { o with count := rest }) fun _ => rfl, body?_retain]

theorem length_lent (h : Heap) (target : Option Ref) :
    (h.lent target).slots.length = h.slots.length := by
  cases target <;> simp [lent, release]

/-- Where there is room, borrowing changes nothing. -/
theorem grown_lent (hosted : h.Hosted) (room : h.Room 2) {target : Option Ref}
    (live : ∀ r ∈ target, ∃ o, h.get? r = some o) : h.Grown [] (h.lent target) := by
  cases target with
  | none => exact .refl h
  | some r =>
    obtain ⟨o, found⟩ := live r rfl
    obtain ⟨rest, released⟩ := RefCount.release_retain (hosted.positive r o found)
    obtain rfl := RefCount.eq_of_release_retain (room r o found) released
    rw [lent_some found released]
    refine .of_objects (fun t => ?_) (by simp) rfl
    rw [get?_update, get?_retain]
    split
    · rename_i same
      subst same
      rw [found]
      rfl
    · rfl

end Heap

end NativeBridge
