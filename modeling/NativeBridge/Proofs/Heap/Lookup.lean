import NativeBridge.Heap.Create
import NativeBridge.Heap.Slots

/-! What the operations of the heap do to the objects found in it.

    Every operation is described through `Heap.get?` once, so that no later proof looks into the
    list of slots. Identities are never used twice and contents never change: an object that is
    still there after any operation has the contents it had before (`Heap.Keeps`). -/

namespace NativeBridge.Heap

variable {h : Heap} {r t : Ref} {o : Object}

/-! ### One operation at a time -/

theorem lt_length_of_get? (found : h.get? r = some o) : r < h.slots.length := by
  rw [get?, Option.join_eq_some_iff] at found
  exact (List.getElem?_eq_some_iff.mp found).1

/-- An identity not given away yet is not found. -/
theorem get?_of_length_le (later : h.slots.length ≤ r) : h.get? r = none :=
  Option.eq_none_iff_forall_ne_some.mpr fun _ found =>
    absurd later (Nat.not_le.mpr (lt_length_of_get? found))

/-- To look at every object is to look at every slot. -/
theorem forall_object_iff {holds : Object → Prop} :
    (∀ r o, h.get? r = some o → holds o) ↔ ∀ slot ∈ h.slots, ∀ o ∈ slot, holds o := by
  constructor
  · rintro all slot mem o rfl
    obtain ⟨r, hr⟩ := List.mem_iff_getElem?.mp mem
    exact all r o (by rw [get?, hr]; rfl)
  · intro all r o found
    rw [get?, Option.join_eq_some_iff] at found
    exact all _ (List.mem_of_getElem? found) o rfl

theorem get?_update (h : Heap) (r t : Ref) (change : Object → Object) :
    (h.update r change).get? t = if r = t then (h.get? t).map change else h.get? t := by
  simp only [update, get?, List.getElem?_modify]
  rcases h.slots[t]? with _ | _ | _ <;> by_cases hr : r = t <;> simp [hr]

/-- Of an object that is not there nothing changes, so a change is known by what it does to the
    object that is. -/
theorem update_congr {change other : Object → Object}
    (same : ∀ o, h.get? r = some o → change o = other o) :
    h.update r change = h.update r other := by
  have slots : h.slots.modify r (·.map change) = h.slots.modify r (·.map other) := by
    refine List.ext_getElem? fun i => ?_
    rw [List.getElem?_modify, List.getElem?_modify]
    by_cases here : r = i
    · subst here
      cases slot : h.slots[r]? with
      | none => simp
      | some found =>
        cases found with
        | none => simp
        | some o => simp [same o (by rw [get?, slot]; rfl)]
    · simp [here]
  rw [update, update, slots]

theorem update_update (h : Heap) (r : Ref) (first second : Object → Object) :
    (h.update r first).update r second = h.update r (second ∘ first) := by
  simp only [update, List.modify_modify_eq, Function.comp_def, Option.map_map]

theorem update_eq_self {change : Object → Object}
    (same : ∀ o, h.get? r = some o → change o = o) : h.update r change = h := by
  have unchanged : h.slots.modify r (·.map id) = h.slots := by
    have nothing : (fun slot : Option Object => slot.map id) = id :=
      funext fun _ => Option.map_id_apply
    rw [nothing, List.modify_id]
  have none : h.update r change = h.update r id := update_congr same
  rw [none, update, unchanged]

theorem get?_free (h : Heap) (r t : Ref) (kind : Kind) :
    (h.free r kind).get? t = if r = t then none else h.get? t := by
  simp only [free, get?, List.getElem?_set]
  by_cases hr : r = t
  · by_cases ht : t < h.slots.length <;> simp [hr, ht]
  · simp [hr]

theorem get?_free_self (h : Heap) (r : Ref) (kind : Kind) : (h.free r kind).get? r = none := by
  rw [get?_free, if_pos rfl]

theorem get?_free_of_ne {t : Ref} (other : t ≠ r) (kind : Kind) :
    (h.free r kind).get? t = h.get? t := by rw [get?_free, if_neg other.symm]

theorem get?_alloc (h : Heap) (body : Body) (t : Ref) :
    (h.alloc body).1.get? t =
      if t = h.slots.length then some ⟨.fresh, 0, body⟩ else h.get? t := by
  simp only [alloc, get?]
  rcases Nat.lt_trichotomy t h.slots.length with ht | rfl | ht
  · rw [List.getElem?_append_left ht, if_neg (Nat.ne_of_lt ht)]
  · simp
  · rw [List.getElem?_eq_none (by simp; omega), List.getElem?_eq_none (by omega),
      if_neg (Nat.ne_of_gt ht)]

theorem get?_retain (h : Heap) (r t : Ref) :
    (h.retain r).get? t =
      if r = t then (h.get? t).map fun o => { o with count := o.count.retain } else h.get? t :=
  get?_update ..

@[simp] theorem length_update (h : Heap) (r : Ref) (change : Object → Object) :
    (h.update r change).slots.length = h.slots.length := by simp [update]

@[simp] theorem length_retain (h : Heap) (r : Ref) :
    (h.retain r).slots.length = h.slots.length := length_update ..

@[simp] theorem length_free (h : Heap) (r : Ref) (kind : Kind) :
    (h.free r kind).slots.length = h.slots.length := by simp [free]

@[simp] theorem length_alloc (h : Heap) (body : Body) :
    (h.alloc body).1.slots.length = h.slots.length + 1 := by simp [alloc]

@[simp] theorem alloc_snd (h : Heap) (body : Body) : (h.alloc body).2 = h.slots.length := rfl

/-- What a table answers stands in it. -/
theorem mem_of_lookup {α : Type} {table : List (String × α)} {name : String} {value : α}
    (found : table.lookup name = some value) : (name, value) ∈ table := by
  obtain ⟨before, after, rfl, _⟩ := List.lookup_eq_some_iff.mp found
  simp

theorem body?_eq_some_iff {body : Body} :
    h.body? r = some body ↔ ∃ o, h.get? r = some o ∧ o.body = body := by
  simp [body?]

theorem body?_update (h : Heap) (r t : Ref) (change : Object → Object)
    (kept : ∀ o, (change o).body = o.body) : (h.update r change).body? t = h.body? t := by
  rw [body?, body?, get?_update]
  split
  · cases h.get? t <;> simp [kept]
  · rfl

theorem body?_retain (h : Heap) (r t : Ref) : (h.retain r).body? t = h.body? t :=
  body?_update h r t _ fun _ => rfl

theorem body?_lock (h : Heap) (r t : Ref) : (h.lock r).body? t = h.body? t :=
  body?_update h r t _ fun _ => rfl

theorem body?_retainAll (h : Heap) (rs : List Ref) (t : Ref) :
    (h.retainAll rs).body? t = h.body? t := by
  induction rs generalizing h with
  | nil => rfl
  | cons r rest ih => exact (ih (h.retain r)).trans (body?_retain h r t)

theorem body?_place? (h : Heap) (bytes : Option (List UInt8)) (t : Ref) :
    (h.place? bytes).1.body? t = h.body? t := by
  cases bytes <;> rfl

theorem body?_alloc_self (h : Heap) (body : Body) :
    (h.alloc body).1.body? h.slots.length = some body := by
  rw [body?, get?_alloc, if_pos rfl]
  rfl

theorem body?_alloc_of_live (live : ∃ o, h.get? t = some o) (body : Body) :
    (h.alloc body).1.body? t = h.body? t := by
  obtain ⟨o, found⟩ := live
  rw [body?, body?, get?_alloc, if_neg (Nat.ne_of_lt (lt_length_of_get? found))]

/-! ### Bytes and layouts -/

theorem body?_of_data? {data : List UInt8} (bytes : h.data? r = some data) :
    h.body? r = some (.bytes data) := by
  unfold data? at bytes
  split at bytes
  · cases bytes
    assumption
  · cases bytes

theorem body?_of_layout? {layout : Layout} (found : h.layout? r = some layout) :
    ∃ body, h.body? r = some body := by
  obtain ⟨_, described, -⟩ := Option.map_eq_some_iff.mp found
  exact (Option.bind_eq_some_iff.mp described).imp fun _ p => p.1

theorem live_of_layout? {layout : Layout} (found : h.layout? r = some layout) :
    ∃ o, h.get? r = some o := by
  obtain ⟨_, body⟩ := body?_of_layout? found
  exact (body?_eq_some_iff.mp body).imp fun _ p => p.1

/-- What is given, if anything is, is there. -/
theorem live_some (live : ∃ o, h.get? r = some o) : ∀ t ∈ some r, ∃ o, h.get? t = some o := by
  rintro t mem
  cases mem
  exact live

theorem data?_congr {h' : Heap} (same : h'.body? r = h.body? r) : h'.data? r = h.data? r := by
  rw [data?, data?, same]

theorem layout?_congr {h' : Heap} (same : h'.body? r = h.body? r) :
    h'.layout? r = h.layout? r := by
  rw [layout?, layout?, descriptor?, descriptor?, same]

theorem layout?_alloc {layout : Layout} (found : h.layout? r = some layout) (body : Body) :
    (h.alloc body).1.layout? r = some layout := by
  rw [layout?_congr (body?_alloc_of_live (live_of_layout? found) body), found]

/-- What stands at an address depends on the contents of objects and on the memory outside. -/
theorem memory_congr {h' : Heap} (blocks : h'.blocks = h.blocks)
    (same : ∀ r, h'.data? r = h.data? r) (start : Address) : h'.memory start = h.memory start := by
  cases start with
  | null => rfl
  | object owner offset => rw [memory, memory, same]
  | block index offset => rw [memory, memory, blocks]

/-! ### Giving references back -/

@[simp] theorem length_releaseAll (h : Heap) (work : List Ref) :
    (h.releaseAll work).slots.length = h.slots.length := by
  fun_induction releaseAll h work <;> simp_all

@[simp] theorem blocks_releaseAll (h : Heap) (work : List Ref) :
    (h.releaseAll work).blocks = h.blocks := by
  fun_induction releaseAll h work <;> simp_all [update, free]

/-- Giving back the last reference frees the object, and what it held is given back next. -/
theorem releaseAll_of_last (found : h.get? r = some o) (last : o.count.release = none)
    (rest : List Ref) :
    h.releaseAll (r :: rest) = (h.free r o.body.kind).releaseAll (o.body.refs ++ rest) := by
  rw [releaseAll]
  split
  · simp_all
  · rename_i found'
    obtain rfl := Option.some.inj (found'.symm.trans found)
    simp [last]

/-- Giving back one of several references lowers the count. -/
theorem releaseAll_of_more {count : RefCount} (found : h.get? r = some o)
    (more : o.count.release = some count) (rest : List Ref) :
    h.releaseAll (r :: rest) = (h.update r fun o => { o with count }).releaseAll rest := by
  rw [releaseAll]
  split
  · simp_all
  · rename_i found'
    obtain rfl := Option.some.inj (found'.symm.trans found)
    simp [more]

@[simp] theorem releaseAll_nil (h : Heap) : h.releaseAll [] = h := by rw [releaseAll]

/-- References can be given back part by part. -/
theorem releaseAll_append (h : Heap) (first second : List Ref) :
    h.releaseAll (first ++ second) = (h.releaseAll first).releaseAll second := by
  fun_induction releaseAll h first with
  | case1 h => rfl
  | case2 h r rest missing ih =>
    rw [List.cons_append, releaseAll]
    split
    · exact ih
    · simp_all
  | case3 h r rest o found count more ih =>
    rw [List.cons_append, releaseAll_of_more found more, ih]
  | case4 h r rest o found last ih =>
    rw [List.cons_append, releaseAll_of_last found last, ← List.append_assoc, ih]

/-- An object that outlives a release keeps everything but its count. -/
theorem get?_releaseAll {work : List Ref} (found : (h.releaseAll work).get? t = some o) :
    ∃ o', h.get? t = some o' ∧ o'.body = o.body ∧ o'.exports = o.exports := by
  fun_induction releaseAll h work with
  | case1 => exact ⟨o, found, rfl, rfl⟩
  | case2 h r rest missing ih => exact ih found
  | case3 h r rest p present count counted ih =>
    obtain ⟨o', ho', hb, he⟩ := ih found
    rw [get?_update] at ho'
    split at ho'
    · obtain ⟨q, hq, rfl⟩ := Option.map_eq_some_iff.mp ho'
      exact ⟨q, hq, hb, he⟩
    · exact ⟨o', ho', hb, he⟩
  | case4 h r rest p present last ih =>
    obtain ⟨o', ho', hb, he⟩ := ih found
    rw [get?_free] at ho'
    split at ho'
    · simp at ho'
    · exact ⟨o', ho', hb, he⟩

/-- What is not there is not there afterwards. -/
theorem get?_releaseAll_of_missing {work : List Ref} (missing : h.get? t = none) :
    (h.releaseAll work).get? t = none := by
  refine Option.eq_none_iff_forall_ne_some.mpr fun o found => ?_
  obtain ⟨_, before, _⟩ := get?_releaseAll found
  cases missing.symm.trans before

/-! ### Contents never change -/

/-- Nothing but growth and loss: every object that an earlier heap could already name and that is
    still there has the contents it had. -/
structure Keeps (h h' : Heap) : Prop where
  grows : h.slots.length ≤ h'.slots.length
  same : ∀ r < h.slots.length, ∀ o', h'.get? r = some o' → ∃ o, h.get? r = some o ∧ o.body = o'.body

namespace Keeps

variable {h₁ h₂ h₃ : Heap}

theorem refl (h : Heap) : h.Keeps h := ⟨Nat.le_refl _, fun _ _ o' ho' => ⟨o', ho', rfl⟩⟩

theorem trans (first : h₁.Keeps h₂) (second : h₂.Keeps h₃) : h₁.Keeps h₃ := by
  refine ⟨Nat.le_trans first.grows second.grows, fun r hr o₃ ho₃ => ?_⟩
  obtain ⟨o₂, ho₂, hb₂⟩ := second.same r (Nat.lt_of_lt_of_le hr first.grows) o₃ ho₃
  obtain ⟨o₁, ho₁, hb₁⟩ := first.same r hr o₂ ho₂
  exact ⟨o₁, ho₁, hb₁.trans hb₂⟩

theorem update (h : Heap) (r : Ref) (change : Object → Object)
    (kept : ∀ o, (change o).body = o.body) : h.Keeps (h.update r change) := by
  refine ⟨by simp, fun t _ o' ho' => ?_⟩
  rw [get?_update] at ho'
  split at ho'
  · obtain ⟨o, ho, rfl⟩ := Option.map_eq_some_iff.mp ho'
    exact ⟨o, ho, (kept o).symm⟩
  · exact ⟨o', ho', rfl⟩

theorem alloc (h : Heap) (body : Body) : h.Keeps (h.alloc body).1 := by
  refine ⟨by simp, fun t ht o' ho' => ?_⟩
  rw [get?_alloc, if_neg (Nat.ne_of_lt ht)] at ho'
  exact ⟨o', ho', rfl⟩

theorem releaseAll (h : Heap) (work : List Ref) : h.Keeps (h.releaseAll work) := by
  refine ⟨by simp, fun t _ o' ho' => ?_⟩
  obtain ⟨o, ho, hb, _⟩ := get?_releaseAll ho'
  exact ⟨o, ho, hb⟩

/-- A change of the memory outside or of the counters changes no object. -/
theorem of_slots_eq (same : h₂.slots = h₁.slots) : h₁.Keeps h₂ := by
  refine ⟨Nat.le_of_eq (by rw [same]), fun t _ o' ho' => ⟨o', ?_, rfl⟩⟩
  rwa [get?, ← same]

/-- What is still there reads as it did. -/
theorem body?_eq (keeps : h₁.Keeps h₂) (before : (h₁.get? r).isSome) (after : (h₂.get? r).isSome) :
    h₂.body? r = h₁.body? r := by
  obtain ⟨o₂, ho₂⟩ := Option.isSome_iff_exists.mp after
  obtain ⟨_, ho⟩ := Option.isSome_iff_exists.mp before
  obtain ⟨o₁, ho₁, hb⟩ := keeps.same r (lt_length_of_get? ho) o₂ ho₂
  simp [body?, ho₁, ho₂, hb]

/-- Contents that are still there are those that were. -/
theorem body?_of_live {body : Body} (keeps : h₁.Keeps h₂) (before : h₁.body? r = some body)
    (live : ∃ o, h₂.get? r = some o) : h₂.body? r = some body := by
  obtain ⟨o₁, found, _⟩ := body?_eq_some_iff.mp before
  obtain ⟨o₂, after⟩ := live
  exact (keeps.body?_eq (by simp [found]) (by simp [after])).trans before

end Keeps

end NativeBridge.Heap
