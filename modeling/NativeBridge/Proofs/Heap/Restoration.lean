import NativeBridge.Proofs.Heap.Lending

/-! The owners determine the heap.

    Two heaps with the same contents, the same references held outside and the same immortal
    objects have the same objects with the same counts (`Heap.get?_eq_of_accounts`). So it does not
    matter on which way a heap got there: whoever has given back what was taken finds the heap as
    it would be without. What an operation without new objects must show for this is that it
    changes no contents and makes nothing immortal (`Heap.Traces`). -/

namespace NativeBridge

namespace Heap

variable {h h' h₁ h₂ h₃ : Heap} {out out' : Multiset Ref} {r t : Ref} {o : Object}

/-! ### The same owners -/

theorem fields_congr (same : ∀ r, slotFields (h'.get? r) = slotFields (h.get? r)) :
    h'.fields = h.fields := by
  have slots : ∀ l l' : List (Option Object),
      (∀ i : Nat, slotFields l'[i]?.join = slotFields l[i]?.join) →
        l'.flatMap slotFields = l.flatMap slotFields := by
    intro l
    induction l with
    | nil =>
      intro l' same
      refine List.flatMap_eq_nil_iff.mpr fun slot mem => ?_
      obtain ⟨i, hi⟩ := List.mem_iff_getElem?.mp mem
      have none := same i
      rwa [hi] at none
    | cons slot rest ih =>
      intro l' same
      cases l' with
      | nil =>
        have none : [] = slotFields slot := same 0
        rw [List.flatMap_cons, ← none, ← ih [] fun i => same (i + 1)]
        rfl
      | cons slot' rest' =>
        have first : slotFields slot' = slotFields slot := same 0
        rw [List.flatMap_cons, List.flatMap_cons, first, ih rest' fun i => same (i + 1)]
  exact slots h.slots h'.slots same

/-- Objects of these heaps agree where both have them. -/
def Agree (h h' : Heap) : Prop :=
  ∀ t o o', h.get? t = some o → h'.get? t = some o' → o.body = o'.body ∧ o.exports = o'.exports

theorem Agree.symm (agree : h.Agree h') : h'.Agree h := fun t o' o ho' ho =>
  (agree t o o' ho ho').imp Eq.symm Eq.symm

/-- Heaps that agree hold the same references if each has what the other has, but for objects that
    hold nothing. -/
theorem Agree.fields_eq (agree : h.Agree h')
    (onward : ∀ t o, h.get? t = some o → ∃ o', h'.get? t = some o')
    (backward : ∀ t o', h'.get? t = some o' →
      (∃ o, h.get? t = some o) ∨ slotFields (h'.get? t) = []) : h'.fields = h.fields := by
  refine fields_congr fun t => ?_
  cases before : h.get? t with
  | some o =>
    obtain ⟨o', after⟩ := onward t o before
    simp [slotFields, after, (agree t o o' before after).1]
  | none =>
    cases after : h'.get? t with
    | none => rfl
    | some o' =>
      rcases backward t o' after with ⟨o, found⟩ | none
      · cases before.symm.trans found
      · rw [← after, none]
        rfl

/-- What is allocated in the one heap is allocated in the other where the roots are. A root may be
    left out if it holds nothing. -/
theorem allocated_of_roots {left : Ref → Prop} (acc : h.Accounts out) (acc' : h'.Accounts out')
    (agree : h.Agree h')
    (roots : ∀ t, t ∈ out ∨ h.Pinned t → (∃ o', h'.get? t = some o') ∨ left t)
    (leaf : ∀ t, left t → slotFields (h.get? t) = []) (found : h.get? t = some o) :
    (∃ o', h'.get? t = some o') ∨ left t := by
  have reached := acc.reaches found
  clear found
  induction reached with
  | root ht => exact roots _ ht
  | field _ ho ht ih =>
    rcases ih with ⟨o', ho'⟩ | alone
    · exact .inl (acc'.stored ho' ((agree _ _ _ ho ho').1 ▸ ht))
    · have none := leaf _ alone
      rw [ho, slotFields, Option.map_some, Option.getD_some] at none
      simp [none] at ht

/-- The object became immortal on the way, and it holds nothing. -/
def Stuck (h h' : Heap) (t : Ref) : Prop :=
  ¬h.Pinned t ∧ h'.Pinned t ∧ slotFields (h'.get? t) = []

/-- Owners determine counts. An object that became immortal on the way is left out; it holds
    nothing, or it is there on both sides. -/
theorem get?_eq_of_accounts (acc : h.Accounts out) (acc' : h'.Accounts out) (agree : h.Agree h')
    (stays : ∀ t, h.Pinned t → h'.Pinned t)
    (mark : ∀ t, h'.Pinned t → (∃ o, h.get? t = some o) ∨ h.Stuck h' t)
    (mortal : h'.Pinned t → h.Pinned t) : h'.get? t = h.get? t := by
  have roots : ∀ t, t ∈ out ∨ h.Pinned t → (∃ o', h'.get? t = some o') ∨ False := fun t root =>
    .inl (root.elim acc'.owned fun p => (stays t p).imp fun _ p => p.1)
  have onward : ∀ r o, h.get? r = some o → ∃ o', h'.get? r = some o' := fun r o before =>
    (allocated_of_roots acc acc' agree roots (fun _ => False.elim) before).resolve_right id
  have backward : ∀ r o', h'.get? r = some o' → (∃ o, h.get? r = some o) ∨ h.Stuck h' r :=
    fun r o' => allocated_of_roots acc' acc agree.symm
      (fun t root => root.elim (.inl ∘ acc.owned) (mark t)) fun _ stuck => stuck.2.2
  have fields : h'.fields = h.fields :=
    agree.fields_eq onward fun r o' after => (backward r o' after).imp id fun stuck => stuck.2.2
  cases before : h.get? t with
  | none =>
    refine Option.eq_none_iff_forall_ne_some.mpr fun o' after => ?_
    rcases backward t o' after with ⟨o, ho⟩ | ⟨immortal, pinned, _⟩
    · rw [before] at ho
      cases ho
    · exact immortal (mortal pinned)
  | some o =>
    obtain ⟨o', after⟩ := onward t o before
    obtain ⟨body, exports⟩ := agree t o o' before after
    have count : o'.count = o.count := by
      by_cases pinned : o'.count = .pinned
      · obtain ⟨p, hp, same⟩ := mortal ⟨o', after, pinned⟩
        cases hp.symm.trans before
        rw [pinned, same]
      · have other : o.count ≠ .pinned := fun same => by
          obtain ⟨p, hp, same⟩ := stays t ⟨o, before, same⟩
          cases hp.symm.trans after
          exact pinned same
        refine UInt32.toNat_inj.mp ?_
        rw [acc.counted t o before other, acc'.counted t o' after pinned, fields]
    have same : o' = o := by
      cases o
      cases o'
      exact (Object.mk.injEq ..).mpr ⟨count, exports.symm, body.symm⟩
    rw [after, same]

/-! ### Traces -/

/-- Nothing is new, contents and exports are as they were, and what is immortal stays so; of the
    others only those marked may have become immortal. -/
structure Traces (h : Heap) (marked : Ref → Prop) (h' : Heap) : Prop where
  back : ∀ t o', h'.get? t = some o' →
    ∃ o, h.get? t = some o ∧ o.body = o'.body ∧ o.exports = o'.exports
  stays : ∀ t, h.Pinned t → h'.Pinned t
  mark : ∀ t, h'.Pinned t → h.Pinned t ∨ marked t

namespace Traces

variable {marked marked' : Ref → Prop}

theorem trans (first : h₁.Traces marked h₂) (second : h₂.Traces marked h₃) :
    h₁.Traces marked h₃ := by
  refine ⟨fun t o₃ ho₃ => ?_, fun t => second.stays t ∘ first.stays t, fun t pinned => ?_⟩
  · obtain ⟨o₂, ho₂, body₂, exports₂⟩ := second.back t o₃ ho₃
    obtain ⟨o₁, ho₁, body₁, exports₁⟩ := first.back t o₂ ho₂
    exact ⟨o₁, ho₁, body₁.trans body₂, exports₁.trans exports₂⟩
  · rcases second.mark t pinned with pinned | marked
    · exact first.mark t pinned
    · exact .inr marked

/-- A reference more makes nothing immortal where there is room. -/
theorem retain (h : Heap) (either : marked r ∨ h.Room 2) : h.Traces marked (h.retain r) := by
  refine ⟨fun t o' ho' => ?_, fun t ⟨o, ho, mark⟩ => ?_, fun t pinned => ?_⟩
  · rw [get?_retain] at ho'
    split at ho'
    · obtain ⟨o, ho, rfl⟩ := Option.map_eq_some_iff.mp ho'
      exact ⟨o, ho, rfl, rfl⟩
    · exact ⟨o', ho', rfl, rfl⟩
  · rw [Pinned, get?_retain, ho]
    split <;> simp [mark]
  · rcases either with named | room
    · by_cases same : r = t
      · exact .inr (same ▸ named)
      · rw [Pinned, get?_retain, if_neg same] at pinned
        exact .inl pinned
    · exact .inl (room.pinned_retain pinned)

theorem releaseAll {work : List Ref} (acc : h.Accounts (work + out)) :
    h.Traces marked (h.releaseAll work) :=
  ⟨fun _ _ => get?_releaseAll, fun _ => acc.pinned_releaseAll.mpr,
    fun _ pinned => .inl (acc.pinned_releaseAll.mp pinned)⟩

theorem release (acc : h.Accounts (r ::ₘ out)) : h.Traces marked (h.release r) :=
  releaseAll acc.of_cons

/-- Exports change on both sides. -/
theorem update_exports (traces : h.Traces marked h') (r : Ref) (change : Int → Int) :
    (h.update r fun o => { o with exports := change o.exports }).Traces marked
      (h'.update r fun o => { o with exports := change o.exports }) := by
  refine ⟨fun t o' ho' => ?_, fun t => ?_, fun t => ?_⟩
  · rw [get?_update] at ho' ⊢
    split at ho'
    · rename_i same
      obtain ⟨p', hp', rfl⟩ := Option.map_eq_some_iff.mp ho'
      obtain ⟨p, hp, body, exports⟩ := traces.back t p' hp'
      rw [if_pos same, hp]
      exact ⟨_, rfl, body, congrArg change exports⟩
    · rename_i other
      rw [if_neg other]
      exact traces.back t o' ho'
  · rw [pinned_exports, pinned_exports]
    exact traces.stays t
  · rw [pinned_exports, pinned_exports]
    exact traces.mark t

/-- An export is counted on both sides and, on the one, forgotten again. -/
theorem unlock (traces : (h.lock r).Traces marked h') : h.Traces marked (h'.unlock r) := by
  have changed := traces.update_exports r (· - 1)
  rwa [← unlock_lock h r]

/-- Both ways leave the contents as they found them. -/
theorem agree (first : h.Traces marked h₁) (second : h.Traces marked' h₂) : h₁.Agree h₂ := by
  intro t o₁ o₂ ho₁ ho₂
  obtain ⟨o, ho, body₁, exports₁⟩ := first.back t o₁ ho₁
  obtain ⟨p, hp, body₂, exports₂⟩ := second.back t o₂ ho₂
  cases ho.symm.trans hp
  exact ⟨body₁.symm.trans body₂, exports₁.symm.trans exports₂⟩

theorem slotFields_eq_nil (traces : h.Traces marked h') (none : slotFields (h.get? t) = []) :
    slotFields (h'.get? t) = [] := by
  cases after : h'.get? t with
  | none => rfl
  | some o' =>
    obtain ⟨o, before, body, _⟩ := traces.back t o' after
    rw [before] at none
    simpa [slotFields, body] using none

/-- Two ways with the same owners at their ends lead to the same objects. What became immortal on
    the one way is left out; it must hold nothing, or be there at the end of the other. -/
theorem get?_eq (plain : h.Traces (fun _ => False) h₁) (other : h.Traces marked h₂)
    (acc₁ : h₁.Accounts out) (acc₂ : h₂.Accounts out)
    (settled : ∀ t, marked t → (∃ o, h₁.get? t = some o) ∨ slotFields (h.get? t) = [])
    (mortal : h₂.Pinned t → h.Pinned t) : h₂.get? t = h₁.get? t := by
  have before : ∀ t, h₁.Pinned t → h.Pinned t := fun t pinned =>
    (plain.mark t pinned).resolve_right id
  refine get?_eq_of_accounts acc₁ acc₂ (plain.agree other)
    (fun t pinned => other.stays t (before t pinned)) ?_ fun pinned => plain.stays t (mortal pinned)
  intro t pinned
  by_cases immortal : h₁.Pinned t
  · exact .inl (immortal.imp fun _ p => p.1)
  · have named := (other.mark t pinned).resolve_left fun first => immortal (plain.stays t first)
    exact (settled t named).imp id fun none => ⟨immortal, pinned, other.slotFields_eq_nil none⟩

end Traces

end Heap

end NativeBridge
