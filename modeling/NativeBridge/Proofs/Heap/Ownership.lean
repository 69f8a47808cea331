import Mathlib.Data.Multiset.Bind
import Mathlib.Tactic.Abel
import NativeBridge.Proofs.Heap.Lookup

/-! Who owns the objects on a heap.

    An object has an owner for each reference held outside the heap and for each reference that an
    object on the heap holds. `Heap.Accounts h out` says that every count is the number of owners,
    where `out` are the references held outside; counts that reached the mark of an immortal object
    are left out of it, and stay there. Taking a reference, giving references back with all that
    falls, and making an object each keep the accounts, with `out` changed as one expects.

    References go back in the order of creation only, so nothing on the heap keeps itself alive:
    what is allocated is reached from outside or from an immortal object (`Accounts.reaches`). -/

namespace NativeBridge

namespace RefCount

@[simp] theorem retain_pinned : pinned.retain = pinned := rfl

theorem toNat_retain {count : RefCount} (mortal : count ≠ pinned) :
    count.retain.toNat = count.toNat + 1 := by
  have hlt : count.toNat < 4294967295 := by
    have := count.toNat_lt
    have hne : count.toNat ≠ 4294967295 := fun h => mortal (UInt32.toNat_inj.mp h)
    omega
  rw [retain, if_neg mortal, UInt32.toNat_add]
  exact Nat.mod_eq_of_lt (by simp; omega)

theorem retain_ne_zero (count : RefCount) : count.retain ≠ 0 := by
  by_cases hp : count = pinned
  · rw [hp]
    decide
  · intro h0
    have := toNat_retain hp
    rw [h0] at this
    simp at this

/-- The count falls to nothing exactly from one. -/
theorem release_eq_none_iff {count : RefCount} : count.release = none ↔ count = 1 := by
  unfold release
  split
  · rename_i hp
    subst hp
    decide
  · split <;> simp_all

theorem release_eq_some {count rest : RefCount} (positive : count ≠ 0)
    (released : count.release = some rest) :
    rest ≠ 0 ∧ (rest = pinned → count = pinned) ∧
      (rest ≠ pinned → count ≠ pinned ∧ count.toNat = rest.toNat + 1) := by
  unfold release at released
  split at released
  · rename_i hp
    cases released
    exact ⟨positive, id, fun hne => absurd hp hne⟩
  · rename_i hp
    split at released
    · simp at released
    · rename_i h1
      cases released
      have h0 : 0 < count.toNat := Nat.pos_of_ne_zero fun h => positive (UInt32.toNat_inj.mp h)
      have hsub : (count - 1).toNat = count.toNat - 1 :=
        UInt32.toNat_sub_of_le count 1 (UInt32.le_iff_toNat_le.mpr h0)
      refine ⟨fun hz => h1 ?_, fun hz => ?_, fun _ => ⟨hp, by omega⟩⟩
      · rw [hz] at hsub
        exact UInt32.toNat_inj.mp (by simp at hsub ⊢; omega)
      · have top : pinned.toNat = 4294967295 := rfl
        have := count.toNat_lt
        rw [hz] at hsub
        omega

end RefCount

namespace Heap

variable {h : Heap} {r t : Ref} {o : Object}

/-! ### References that objects hold -/

/-- The references that a slot holds. -/
def slotFields (slot : Option Object) : List Ref := (slot.map (·.body.refs)).getD []

theorem slotFields_of_body? {body : Body} (found : h.body? r = some body) :
    slotFields (h.get? r) = body.refs := by
  obtain ⟨o, ho, rfl⟩ := body?_eq_some_iff.mp found
  rw [ho]
  rfl

/-- Every reference that an object on the heap holds, as often as it holds it. -/
def fields (h : Heap) : List Ref := h.slots.flatMap slotFields

theorem mem_fields : t ∈ h.fields ↔ ∃ r o, h.get? r = some o ∧ t ∈ o.body.refs := by
  rw [fields, List.mem_flatMap]
  constructor
  · rintro ⟨slot, hs, ht⟩
    obtain ⟨r, hr⟩ := List.mem_iff_getElem?.mp hs
    cases slot with
    | none => simp [slotFields] at ht
    | some o => exact ⟨r, o, by simp [get?, hr], ht⟩
  · rintro ⟨r, o, ho, ht⟩
    rw [get?, Option.join_eq_some_iff] at ho
    exact ⟨some o, List.mem_of_getElem? ho, ht⟩

theorem fields_update (h : Heap) (r : Ref) (change : Object → Object)
    (kept : ∀ o, (change o).body = o.body) : (h.update r change).fields = h.fields := by
  simp only [fields, update]
  generalize h.slots = slots
  induction slots generalizing r with
  | nil => simp
  | cons slot rest ih =>
    cases r with
    | zero => cases slot <;> simp [slotFields, kept]
    | succ r => simp [ih]

theorem fields_alloc (h : Heap) (body : Body) :
    (h.alloc body).1.fields = h.fields ++ body.refs := by
  simp [fields, alloc, slotFields]

theorem slotFields_set_none {slots : List (Option Object)} (found : slots[r]?.join = some o) :
    (slots.flatMap slotFields).Perm (o.body.refs ++ (slots.set r none).flatMap slotFields) := by
  induction slots generalizing r with
  | nil => simp at found
  | cons slot rest ih =>
    cases r with
    | zero =>
      simp only [List.getElem?_cons_zero, Option.join_some] at found
      subst found
      simp [slotFields]
    | succ r =>
      simp only [List.set_cons_succ, List.flatMap_cons]
      exact ((ih (by simpa using found)).append_left _).trans (List.perm_append_comm_assoc ..)

/-- Freeing an object hands its references to whoever frees it. -/
theorem fields_free (kind : Kind) (found : h.get? r = some o) :
    (h.fields : Multiset Ref) = (o.body.refs : Multiset Ref) + (h.free r kind).fields :=
  Multiset.coe_eq_coe.mpr (slotFields_set_none found)

/-! ### Reachability -/

/-- Reached from the roots through the references that objects hold. -/
inductive Reaches (h : Heap) (roots : Ref → Prop) : Ref → Prop where
  | root {r : Ref} : roots r → Reaches h roots r
  | field {r t : Ref} {o : Object} :
    Reaches h roots r → h.get? r = some o → t ∈ o.body.refs → Reaches h roots t

/-- Allocated for good: its count stands at the mark. -/
def Pinned (h : Heap) (r : Ref) : Prop := ∃ o, h.get? r = some o ∧ o.count = .pinned

theorem Reaches.mono {roots roots' : Ref → Prop} (fewer : ∀ t, roots t → roots' t)
    (reached : h.Reaches roots r) : h.Reaches roots' r := by
  induction reached with
  | root root => exact .root (fewer _ root)
  | field _ found mem ih => exact .field ih found mem

/-- While only the record kind is immortal, nothing else is reached through what is immortal. -/
theorem Reaches.eq_kind_or {roots : Ref → Prop} (found : h.get? recordKind = some o)
    (body : o.body = .recordKind) (only : ∀ t, h.Pinned t → t = recordKind)
    (reached : h.Reaches (fun t => roots t ∨ h.Pinned t) r) :
    r = recordKind ∨ h.Reaches roots r := by
  induction reached with
  | root root =>
    rcases root with root | pinned
    · exact .inr (.root root)
    · exact .inl (only _ pinned)
  | field _ holder mem ih =>
    rcases ih with rfl | ih
    · cases found.symm.trans holder
      simp [body, Body.refs] at mem
    · exact .inr (.field ih holder mem)

/-- Exports bear on no count. -/
theorem pinned_exports {h : Heap} {t r : Ref} (change : Int → Int) :
    (h.update t fun o => { o with exports := change o.exports }).Pinned r ↔ h.Pinned r := by
  simp only [Pinned, get?_update]
  split
  · cases h.get? r <;> simp
  · exact .rfl

/-! ### Accounts -/

/-- Every count is the number of owners; `out` are the references held outside the heap. -/
structure Accounts (h : Heap) (out : Multiset Ref) : Prop where
  kind : ∃ o, h.get? recordKind = some o ∧ o.count = .pinned ∧ o.body = .recordKind
  ordered : ∀ r o, h.get? r = some o → ∀ t ∈ o.body.refs, t < r
  live : ∀ t ∈ out + h.fields, ∃ o, h.get? t = some o
  positive : ∀ r o, h.get? r = some o → o.count ≠ 0
  counted : ∀ r o, h.get? r = some o → o.count ≠ .pinned →
    o.count.toNat = (out + h.fields).count r

namespace Accounts

variable {out : Multiset Ref}

theorem initial (census : Census) : Accounts { Heap.initial with census } 0 := by
  have only : ∀ r o, get? { Heap.initial with census } r = some o →
      r = 0 ∧ o = ⟨.pinned, 0, .recordKind⟩ := by
    intro r o ho
    cases r with
    | zero => exact ⟨rfl, (Option.some.inj ho).symm⟩
    | succ r => simp [get?, Heap.initial] at ho
  have none : fields { Heap.initial with census } = [] := rfl
  refine ⟨⟨_, rfl, rfl, rfl⟩, ?_, ?_, ?_, ?_⟩
  · intro r o ho
    obtain ⟨rfl, rfl⟩ := only r o ho
    simp [Body.refs]
  · simp [none]
  · intro r o ho
    obtain ⟨rfl, rfl⟩ := only r o ho
    decide
  · intro r o ho hp
    obtain ⟨rfl, rfl⟩ := only r o ho
    exact absurd rfl hp

/-- A change of one object that leaves its contents keeps the accounts when the references held
    outside change with its count. -/
theorem update {change : Object → Object} {out' : Multiset Ref} (acc : h.Accounts out)
    (kept : ∀ o, (change o).body = o.body) (live : ∀ t ∈ out', ∃ o, h.get? t = some o)
    (others : ∀ t ≠ r, out'.count t = out.count t)
    (moves : ∀ o, h.get? r = some o → (change o).count ≠ 0 ∧
      (o.count = .pinned → (change o).count = .pinned) ∧
      ((change o).count ≠ .pinned →
        (change o).count.toNat + out.count r = o.count.toNat + out'.count r)) :
    (h.update r change).Accounts out' := by
  have fields : (h.update r change).fields = h.fields := fields_update h r change kept
  -- what is found afterwards was found before
  have back : ∀ t o', (h.update r change).get? t = some o' →
      ∃ o, h.get? t = some o ∧ o' = if r = t then change o else o := by
    intro t o' ho'
    rw [get?_update] at ho'
    split at ho'
    · obtain ⟨o, ho, rfl⟩ := Option.map_eq_some_iff.mp ho'
      exact ⟨o, ho, by simp [*]⟩
    · exact ⟨o', ho', by simp [*]⟩
  refine ⟨?_, ?_, ?_, ?_, ?_⟩
  · obtain ⟨k, hk, hp, hb⟩ := acc.kind
    by_cases hr : r = recordKind
    · subst hr
      exact ⟨change k, by rw [get?_update, if_pos rfl, hk]; rfl, (moves k hk).2.1 hp,
        (kept k).trans hb⟩
    · exact ⟨k, by rw [get?_update, if_neg hr, hk], hp, hb⟩
  · intro t o' ho'
    obtain ⟨o, ho, rfl⟩ := back t o' ho'
    split
    · exact kept o ▸ acc.ordered t o ho
    · exact acc.ordered t o ho
  · intro t ht
    have found : ∃ o, h.get? t = some o := by
      rw [fields] at ht
      rcases Multiset.mem_add.mp ht with ht | ht
      · exact live t ht
      · exact acc.live t (Multiset.mem_add.mpr (.inr ht))
    obtain ⟨o, ho⟩ := found
    rw [get?_update, ho]
    split <;> simp
  · intro t o' ho'
    obtain ⟨o, ho, rfl⟩ := back t o' ho'
    split
    · rename_i hr
      exact (moves o (hr ▸ ho)).1
    · exact acc.positive t o ho
  · intro t o' ho' mortal
    obtain ⟨o, ho, rfl⟩ := back t o' ho'
    rw [fields, Multiset.count_add]
    by_cases hr : r = t
    · subst hr
      rw [if_pos rfl] at mortal ⊢
      obtain ⟨_, stays, balance⟩ := moves o ho
      have before := acc.counted r o ho fun hp => mortal (stays hp)
      rw [Multiset.count_add] at before
      have := balance mortal
      omega
    · rw [if_neg hr] at mortal ⊢
      rw [acc.counted t o ho mortal, Multiset.count_add, others t (Ne.symm hr)]

theorem retain (acc : h.Accounts out) (found : h.get? r = some o) :
    (h.retain r).Accounts (r ::ₘ out) := by
  refine acc.update (fun _ => rfl) ?_ ?_ ?_
  · intro t ht
    rcases Multiset.mem_cons.mp ht with rfl | ht
    · exact ⟨o, found⟩
    · exact acc.live t (Multiset.mem_add.mpr (.inl ht))
  · intro t ht
    exact Multiset.count_cons_of_ne ht out
  · intro o _
    refine ⟨RefCount.retain_ne_zero _, fun hp => by simp [hp], fun mortal => ?_⟩
    have before : o.count ≠ .pinned := fun hp => mortal (by simp [hp])
    rw [RefCount.toNat_retain before, Multiset.count_cons_self]
    omega

/-- Giving back one of several references. -/
theorem lower {rest : RefCount} (acc : h.Accounts (r ::ₘ out)) (found : h.get? r = some o)
    (released : o.count.release = some rest) :
    (h.update r fun o => { o with count := rest }).Accounts out := by
  have drop := RefCount.release_eq_some (acc.positive r o found) released
  refine acc.update (fun _ => rfl) ?_ ?_ ?_
  · intro t ht
    exact acc.live t (Multiset.mem_add.mpr (.inl (Multiset.mem_cons_of_mem ht)))
  · intro t ht
    exact (Multiset.count_cons_of_ne ht out).symm
  · intro p hp
    obtain rfl : p = o := Option.some.inj (hp ▸ found)
    refine ⟨drop.1, fun pinned => ?_, fun mortal => ?_⟩
    · by_contra mortal
      exact (drop.2.2 mortal).1 pinned
    · rw [(drop.2.2 mortal).2, Multiset.count_cons_self]
      show rest.toNat + _ = _
      omega

/-- Exports are no references. -/
theorem update_exports (acc : h.Accounts out) (r : Ref) (change : Int → Int) :
    (h.update r fun o => { o with exports := change o.exports }).Accounts out :=
  acc.update (fun _ => rfl) (fun t ht => acc.live t (Multiset.mem_add.mpr (.inl ht)))
    (fun _ _ => rfl) fun o ho => ⟨acc.positive r o ho, id, fun _ => rfl⟩

/-- Giving back the last reference: the references that the object held are now held outside. -/
theorem free (acc : h.Accounts (r ::ₘ out)) (found : h.get? r = some o)
    (last : o.count.release = none) : (h.free r o.body.kind).Accounts (o.body.refs + out) := by
  set h' := h.free r o.body.kind with hh'
  have one : o.count = 1 := RefCount.release_eq_none_iff.mp last
  have total : r ::ₘ out + h.fields = r ::ₘ (o.body.refs + out + h'.fields) := by
    rw [fields_free o.body.kind found, Multiset.cons_add, ← hh']
    congr 1
    abel
  -- the reference given back was the only one, so nothing else names the object
  have gone : r ∉ (o.body.refs : Multiset Ref) + out + h'.fields := by
    have count := acc.counted r o found (by rw [one]; decide)
    rw [one, total, Multiset.count_cons_self] at count
    exact Multiset.count_eq_zero.mp (by simpa using count)
  have back : ∀ t o', h'.get? t = some o' → t ≠ r ∧ h.get? t = some o' := by
    intro t o' ho'
    rw [hh', get?_free] at ho'
    split at ho'
    · simp at ho'
    · exact ⟨Ne.symm ‹_›, ho'⟩
  have kept : ∀ t o', t ≠ r → h.get? t = some o' → h'.get? t = some o' := by
    intro t o' ht ho'
    rw [hh', get?_free_of_ne ht, ho']
  refine ⟨?_, ?_, ?_, ?_, ?_⟩
  · obtain ⟨k, hk, hp, hb⟩ := acc.kind
    refine ⟨k, kept _ _ ?_ hk, hp, hb⟩
    rintro rfl
    rw [found] at hk
    cases hk
    rw [one] at hp
    exact absurd hp (by decide)
  · intro t o' ho'
    exact acc.ordered t o' (back t o' ho').2
  · intro t ht
    have hne : t ≠ r := fun hr => gone (hr ▸ ht)
    obtain ⟨o', ho'⟩ := acc.live t (by rw [total]; exact Multiset.mem_cons_of_mem ht)
    exact ⟨o', kept t o' hne ho'⟩
  · intro t o' ho'
    exact acc.positive t o' (back t o' ho').2
  · intro t o' ho' mortal
    obtain ⟨hne, ho⟩ := back t o' ho'
    rw [acc.counted t o' ho mortal, total, Multiset.count_cons_of_ne hne]

/-- Giving back references, with all that falls. -/
theorem releaseAll {work : List Ref} (acc : h.Accounts (work + out)) :
    (h.releaseAll work).Accounts out := by
  fun_induction Heap.releaseAll h work with
  | case1 h => simpa using acc
  | case2 h r rest missing ih =>
    obtain ⟨o, ho⟩ := acc.live r (by simp)
    rw [missing] at ho
    simp at ho
  | case3 h r rest o present count released ih =>
    rw [← Multiset.cons_coe, Multiset.cons_add] at acc
    exact ih (acc.lower present released)
  | case4 h r rest o present last ih =>
    rw [← Multiset.cons_coe, Multiset.cons_add] at acc
    have freed := acc.free present last
    rw [← add_assoc, Multiset.coe_add] at freed
    exact ih freed

theorem of_cons (acc : h.Accounts (r ::ₘ out)) : h.Accounts (([r] : List Ref) + out) := by
  rwa [Multiset.coe_singleton, Multiset.singleton_add]

theorem release (acc : h.Accounts (r ::ₘ out)) : (h.release r).Accounts out :=
  acc.of_cons.releaseAll

/-- Giving references back makes no object immortal, and no immortal one mortal. -/
theorem pinned_releaseAll {work : List Ref} (acc : h.Accounts (work + out)) :
    (h.releaseAll work).Pinned t ↔ h.Pinned t := by
  fun_induction Heap.releaseAll h work with
  | case1 h => exact .rfl
  | case2 h r rest missing ih =>
    obtain ⟨o, ho⟩ := acc.live r (by simp)
    rw [missing] at ho
    simp at ho
  | case3 h r rest o present count released ih =>
    rw [← Multiset.cons_coe, Multiset.cons_add] at acc
    rw [ih (acc.lower present released)]
    simp only [Pinned, get?_update]
    split
    · rename_i hr
      subst hr
      have mark : count = .pinned ↔ o.count = .pinned :=
        ⟨(RefCount.release_eq_some (acc.positive r o present) released).2.1, fun hp => by
          rw [hp] at released
          exact (Option.some.inj released).symm⟩
      simp [present, mark]
    · exact .rfl
  | case4 h r rest o present last ih =>
    rw [← Multiset.cons_coe, Multiset.cons_add] at acc
    have freed := acc.free present last
    rw [← add_assoc, Multiset.coe_add] at freed
    rw [ih freed]
    simp only [Pinned, get?_free]
    split
    · rename_i hr
      subst hr
      have mortal : o.count ≠ .pinned := by
        rw [RefCount.release_eq_none_iff.mp last]
        decide
      simp [present, mortal]
    · exact .rfl

/-- Giving references back raises no count. -/
theorem count_releaseAll_le {work : List Ref} (acc : h.Accounts (work + out))
    (found : (h.releaseAll work).get? t = some o) :
    ∃ o', h.get? t = some o' ∧ o.count.toNat ≤ o'.count.toNat := by
  fun_induction Heap.releaseAll h work with
  | case1 h => exact ⟨o, found, Nat.le_refl _⟩
  | case2 h r rest missing ih =>
    obtain ⟨o', ho'⟩ := acc.live r (by simp)
    rw [missing] at ho'
    simp at ho'
  | case3 h r rest p present count released ih =>
    rw [← Multiset.cons_coe, Multiset.cons_add] at acc
    obtain ⟨o', ho', fewer⟩ := ih (acc.lower present released) found
    have drop := RefCount.release_eq_some (acc.positive r p present) released
    rw [get?_update] at ho'
    split at ho'
    · rename_i hr
      subst hr
      rw [present] at ho'
      cases ho'
      refine ⟨p, present, fewer.trans ?_⟩
      by_cases mark : count = .pinned
      · rw [mark, drop.2.1 mark]
      · have := (drop.2.2 mark).2
        show count.toNat ≤ _
        omega
    · exact ⟨o', ho', fewer⟩
  | case4 h r rest p present last ih =>
    rw [← Multiset.cons_coe, Multiset.cons_add] at acc
    have freed := acc.free present last
    rw [← add_assoc, Multiset.coe_add] at freed
    obtain ⟨o', ho', fewer⟩ := ih freed found
    rw [get?_free] at ho'
    split at ho'
    · cases ho'
    · exact ⟨o', ho', fewer⟩

/-- A new object takes over the references in its body. -/
theorem alloc {body : Body} (acc : h.Accounts (body.refs + out)) :
    (h.alloc body).1.Accounts ((h.alloc body).2 ::ₘ out) := by
  set n := h.slots.length with hn
  have total : n ::ₘ out + (h.alloc body).1.fields = n ::ₘ (body.refs + out + h.fields) := by
    rw [fields_alloc, ← Multiset.coe_add, Multiset.cons_add]
    congr 1
    abel
  have old : ∀ t ∈ (body.refs : Multiset Ref) + out + h.fields, t < n := by
    intro t ht
    obtain ⟨o, ho⟩ := acc.live t ht
    exact lt_length_of_get? ho
  have fresh : (h.alloc body).1.get? n = some ⟨.fresh, 0, body⟩ := by
    rw [get?_alloc, if_pos rfl]
  have kept : ∀ t ≠ n, (h.alloc body).1.get? t = h.get? t := by
    intro t ht
    rw [get?_alloc, if_neg ht]
  rw [alloc_snd, ← hn]
  refine ⟨?_, ?_, ?_, ?_, ?_⟩
  · obtain ⟨k, hk, hp, hb⟩ := acc.kind
    exact ⟨k, by rw [kept _ (Nat.ne_of_lt (lt_length_of_get? hk)), hk], hp, hb⟩
  · intro t o ho u hu
    by_cases ht : t = n
    · subst ht
      rw [fresh] at ho
      cases ho
      exact old u (by simp [hu])
    · rw [kept t ht] at ho
      exact acc.ordered t o ho u hu
  · intro t ht
    rw [total] at ht
    rcases Multiset.mem_cons.mp ht with rfl | ht
    · exact ⟨_, fresh⟩
    · rw [kept t (Nat.ne_of_lt (old t ht))]
      exact acc.live t ht
  · intro t o ho
    by_cases ht : t = n
    · subst ht
      rw [fresh] at ho
      cases ho
      exact (by decide : RefCount.fresh ≠ 0)
    · rw [kept t ht] at ho
      exact acc.positive t o ho
  · intro t o ho mortal
    rw [total]
    by_cases ht : t = n
    · subst ht
      rw [fresh] at ho
      cases ho
      have none : Multiset.count n ((body.refs : Multiset Ref) + out + h.fields) = 0 :=
        Multiset.count_eq_zero.mpr fun hm => Nat.lt_irrefl n (old n hm)
      rw [Multiset.count_cons_self, none]
      rfl
    · rw [kept t ht] at ho
      rw [Multiset.count_cons_of_ne ht, acc.counted t o ho mortal]

/-- Neither memory outside, nor the counters of live objects, nor exports bear on the accounts. -/
theorem of_slots_eq {h' : Heap} (acc : h.Accounts out) (same : h'.slots = h.slots) :
    h'.Accounts out := by
  have get : ∀ t, h'.get? t = h.get? t := fun t => by rw [get?, get?, same]
  have fields : h'.fields = h.fields := by rw [Heap.fields, Heap.fields, same]
  exact ⟨by simpa only [get] using acc.kind, by simpa only [get] using acc.ordered,
    by simpa only [get, fields] using acc.live, by simpa only [get] using acc.positive,
    by simpa only [get, fields] using acc.counted⟩

/-! ### Allocated is reached -/

theorem owned (acc : h.Accounts out) (ht : t ∈ out) : ∃ o, h.get? t = some o :=
  acc.live t (Multiset.mem_add.mpr (.inl ht))

/-- A mortal object without an owner is not there. -/
theorem get?_of_unowned (acc : h.Accounts out) (mortal : ¬h.Pinned r)
    (unowned : r ∉ out + h.fields) : h.get? r = none := by
  refine Option.eq_none_iff_forall_ne_some.mpr fun o found => ?_
  have counted := acc.counted r o found fun mark => mortal ⟨o, found, mark⟩
  rw [Multiset.count_eq_zero.mpr unowned] at counted
  exact acc.positive r o found (UInt32.toNat_inj.mp counted)

theorem stored (acc : h.Accounts out) (found : h.get? r = some o) (ht : t ∈ o.body.refs) :
    ∃ o, h.get? t = some o :=
  acc.live t (Multiset.mem_add.mpr (.inr (mem_fields.mpr ⟨r, o, found, ht⟩)))

/-- Whatever is reached from allocated roots is allocated. -/
theorem allocated {roots : Ref → Prop} (acc : h.Accounts out) (reached : h.Reaches roots r)
    (live : ∀ t, roots t → ∃ o, h.get? t = some o) : ∃ o, h.get? r = some o := by
  induction reached with
  | root ht => exact live _ ht
  | field _ found ht _ => exact acc.stored found ht

/-- Whatever is allocated is reached from outside or from an immortal object. -/
theorem reaches (acc : h.Accounts out) (found : h.get? r = some o) :
    h.Reaches (fun t => t ∈ out ∨ h.Pinned t) r := by
  -- an owner on the heap is younger, so the induction is on the number of younger identities
  induction hn : h.slots.length - r using Nat.strong_induction_on generalizing r o with
  | _ n ih =>
    by_cases mortal : o.count = .pinned
    · exact .root (.inr ⟨o, found, mortal⟩)
    have positive : 0 < (out + h.fields).count r := by
      rw [← acc.counted r o found mortal]
      exact Nat.pos_of_ne_zero fun h0 => acc.positive r o found (UInt32.toNat_inj.mp h0)
    rcases Multiset.mem_add.mp (Multiset.count_pos.mp positive) with hr | hr
    · exact .root (.inl hr)
    · obtain ⟨p, o', ho', hr⟩ := mem_fields.mp hr
      have fewer : h.slots.length - p < n :=
        hn ▸ Nat.sub_lt_sub_left (lt_length_of_get? found) (acc.ordered p o' ho' r hr)
      exact .field (ih _ fewer ho' rfl) ho' hr

/-- While only the record kind is immortal, whatever else is allocated is reached from outside. -/
theorem reaches_of_mortal (acc : h.Accounts out) (only : ∀ t, h.Pinned t → t = recordKind)
    (found : h.get? r = some o) (other : r ≠ recordKind) : h.Reaches (· ∈ out) r := by
  obtain ⟨k, hk, _, hb⟩ := acc.kind
  exact ((acc.reaches found).eq_kind_or hk hb only).resolve_left other

end Accounts

end Heap

end NativeBridge
