import NativeBridge.Conversion
import NativeBridge.Heap.Create
import NativeBridge.Proofs.Custody.Basic

/-! The slots of objects, making objects and reading them as numbers, each as moves.

    A slot hands out a new reference or nothing; a new object takes over what it names; a
    conversion gives back whatever it was handed, so afterwards the same is held as before. -/

namespace NativeBridge.Custody

variable {h : Heap} {refs exports : Multiset Ref} {views : Multiset View} {r : Ref}

/-! ### Slots -/

theorem moves_handOut {target : Option Ref} (known : ∀ t ∈ target, h.Known refs t) :
    Moves ⟨h, refs, exports, views⟩
      ⟨(h.handOut target).1, (h.handOut target).2.toList + refs, exports, views⟩ := by
  cases target with
  | none => simpa [Heap.handOut] using Relation.ReflTransGen.refl
  | some t => simpa [Heap.handOut] using moves_retain (known t rfl)

theorem moves_getAttribute {object : Option Ref} (name : String) (held : ∀ r ∈ object, r ∈ refs) :
    Moves ⟨h, refs, exports, views⟩
      ⟨(h.getAttribute object name).1, (h.getAttribute object name).2.toList + refs,
        exports, views⟩ := by
  refine moves_handOut fun t ht => ?_
  obtain ⟨r, rfl, hr⟩ := Option.bind_eq_some_iff.mp ht
  obtain ⟨body, hbody, hr⟩ := Option.bind_eq_some_iff.mp hr
  obtain ⟨list, hlist, hr⟩ := Option.bind_eq_some_iff.mp hr
  -- an attribute is one of the objects that its object keeps alive
  refine (Heap.Known.of_mem (held r rfl)).field hbody ?_
  have mem := Heap.mem_of_lookup hr
  cases body with
  | holder data =>
    cases hlist
    simp_all [Body.refs]
  | recordArray descr storage =>
    cases hlist
    simp_all [Body.refs]
  | record descr storage =>
    cases hlist
    simp_all [Body.refs]
  | custom c =>
    have hc : c.attributes = some list := hlist
    simp only [Body.refs, Custom.refs, hc, Option.getD_some, List.mem_append, List.mem_map]
    exact .inr ⟨_, mem, rfl⟩
  | _ => simp [Body.attributes?] at hlist

theorem moves_elementDescriptor (mem : r ∈ refs) :
    Moves ⟨h, refs, exports, views⟩
      ⟨(h.elementDescriptor r).1, (h.elementDescriptor r).2.toList + refs, exports, views⟩ := by
  refine moves_handOut fun t ht => ?_
  obtain ⟨element, he, hdescr⟩ := Option.bind_eq_some_iff.mp ht
  obtain ⟨body, hbody, he⟩ := Option.bind_eq_some_iff.mp he
  refine (Heap.Known.of_mem mem).field hbody ?_
  cases body with
  | scalar e =>
    cases he
    simp [Body.refs, hdescr]
  | custom c =>
    have hc : c.element = some element := he
    simp [Body.refs, Custom.refs, hc, hdescr]
  | _ => simp [Body.element?] at he

/-- The float slot hands out the object itself, a new float, or what it was told to. -/
theorem moves_coerce {h' : Heap} {float : Option Ref} (mem : r ∈ refs)
    (coerced : h.coerce r = some (h', float)) :
    Moves ⟨h, refs, exports, views⟩ ⟨h', float.toList + refs, exports, views⟩ := by
  have fresh : ∀ value : Double, Moves ⟨h, refs, exports, views⟩
      ⟨(h.alloc (.float value)).1, (h.alloc (.float value)).2 ::ₘ refs, exports, views⟩ :=
    fun value => moves_alloc_leaf trivial rfl
  unfold Heap.coerce at coerced
  split at coerced
  · cases coerced
    exact moves_retain (.of_mem mem)
  · rename_i value _
    change some ((h.alloc (.float (.ofInt value))).1, some _) = _ at coerced
    cases coerced
    exact fresh _
  · split at coerced
    · rename_i type raw _ _
      change some ((h.alloc (.float (type.cast raw).real)).1, some _) = _ at coerced
      cases coerced
      exact fresh _
    · cases coerced
      simpa using Relation.ReflTransGen.refl
  · rename_i c hbody
    obtain ⟨target, hc, out⟩ := Option.map_eq_some_iff.mp coerced
    have known : ∀ t ∈ target, h.Known refs t := by
      intro t ht
      refine (Heap.Known.of_mem mem).field hbody ?_
      rw [Option.mem_def] at ht
      simp [Body.refs, Custom.refs, hc, ht]
    have moved : Moves ⟨h, refs, exports, views⟩ _ := moves_handOut known
    rwa [out] at moved
  · simp at coerced

/-! ### New objects -/

theorem moves_retainAll (rs : List Ref) (held : ∀ r ∈ rs, r ∈ refs) :
    Moves ⟨h, refs, exports, views⟩ ⟨h.retainAll rs, rs + refs, exports, views⟩ := by
  induction rs generalizing h refs with
  | nil => simpa [Heap.retainAll] using Relation.ReflTransGen.refl
  | cons r rs ih =>
    have first : Moves ⟨h, refs, exports, views⟩ ⟨h.retain r, r ::ₘ refs, exports, views⟩ :=
      moves_retain (.of_mem (held r (by simp)))
    have rest : Moves ⟨h.retain r, r ::ₘ refs, exports, views⟩ _ := ih fun t ht =>
      Multiset.mem_cons_of_mem (held t (by simp [ht]))
    rw [← Multiset.cons_coe, Multiset.cons_add, ← Multiset.add_cons]
    exact first.trans rest

theorem moves_create {body : Body} (outside : body.Outside) (held : ∀ r ∈ body.refs, r ∈ refs) :
    Moves ⟨h, refs, exports, views⟩
      ⟨(h.create body).1, (h.create body).2 ::ₘ refs, exports, views⟩ :=
  (moves_retainAll body.refs held).trans (moves_alloc outside)

theorem moves_newScalar (isComplex : Bool) (layout : Layout) (raw : List UInt8) :
    Moves ⟨h, refs, exports, views⟩
      ⟨(h.newScalar isComplex layout raw).1, (h.newScalar isComplex layout raw).2 ::ₘ refs,
        exports, views⟩ := by
  have descr : Moves ⟨h, refs, exports, views⟩ ⟨(h.newDescriptor layout).1,
      (h.newDescriptor layout).2 ::ₘ refs, exports, views⟩ := moves_alloc_leaf trivial rfl
  refine descr.trans ?_
  rw [← Multiset.singleton_add, ← Multiset.coe_singleton]
  have outside : (Body.scalar ⟨isComplex, (h.newDescriptor layout).2, Heap.storage raw⟩).Outside :=
    trivial
  exact moves_alloc outside

/-- Memory is made outside the heap. -/
theorem moves_place? {bytes : Option (List UInt8)} {h' : Heap} {start : Address}
    (placed : h.place? bytes = (h', start)) :
    Moves ⟨h, refs, exports, views⟩ ⟨h', refs, exports, views⟩ ∧ start.Outside := by
  cases bytes with
  | none =>
    cases placed
    exact ⟨.refl, fun _ _ => nofun⟩
  | some bytes =>
    cases placed
    exact ⟨.single (.blocks _), fun _ _ => nofun⟩

theorem moves_overwrite (index : Nat) (byte : UInt8) :
    Moves ⟨h, refs, exports, views⟩ ⟨h.overwrite index byte, refs, exports, views⟩ :=
  .single (.blocks _)

/-- A custom object as it stands on the heap names the same objects as its description. -/
theorem moves_newCustom (c : Custom Ref (Option (List UInt8))) (held : ∀ r ∈ c.refs, r ∈ refs) :
    Moves ⟨h, refs, exports, views⟩
      ⟨(h.newCustom c).1, (h.newCustom c).2 ::ₘ refs, exports, views⟩ := by
  unfold Heap.newCustom
  rcases hw : h.place? (c.shape.window?.bind (·.start)) with ⟨h₁, window⟩
  rcases he : h₁.place? (c.exporter.bind (·.start)) with ⟨h₂, exported⟩
  rcases hs : h₂.place? (c.segment.bind (·.start)) with ⟨h₃, segment⟩
  obtain ⟨first, outsideWindow⟩ := moves_place? hw
  obtain ⟨second, outsideExported⟩ := moves_place? he
  obtain ⟨third, outsideSegment⟩ := moves_place? hs
  dsimp only
  rw [he]
  dsimp only
  rw [hs]
  refine ((first.trans second).trans third).trans (moves_create ?_ ?_)
  · refine ⟨?_, ?_, ?_⟩
    · rintro w hw
      rw [Shape.window?_withStart] at hw
      obtain ⟨w', _, rfl⟩ := Option.map_eq_some_iff.mp hw
      exact outsideWindow
    · rintro e he
      obtain ⟨e', _, rfl⟩ := Option.map_eq_some_iff.mp he
      exact outsideExported
    · rintro s hs
      obtain ⟨s', _, rfl⟩ := Option.map_eq_some_iff.mp hs
      exact outsideSegment
  · intro r hr
    refine held r ?_
    rcases hc : c.shape.window? with _ | w <;> rcases hel : c.element with _ | e <;>
      simpa [Body.refs, Custom.refs, Shape.window?_withStart, hc, hel] using hr

/-! ### Conversion -/

theorem moves_adaptElement (mem : r ∈ refs) :
    Moves ⟨h, refs, exports, views⟩ ⟨(h.adaptElement r).1, refs, exports, views⟩ := by
  have taken : Moves ⟨h, refs, exports, views⟩ _ := moves_elementDescriptor mem
  unfold Heap.adaptElement
  rcases hd : h.elementDescriptor r with ⟨h', _ | descr⟩ <;> rw [hd] at taken
  · simpa using taken
  · exact taken.trans (moves_release h' descr)

theorem moves_adaptReal (mem : r ∈ refs) :
    Moves ⟨h, refs, exports, views⟩ ⟨(h.adaptReal r).1, refs, exports, views⟩ := by
  unfold Heap.adaptReal
  rcases hc : h.coerce r with _ | ⟨h', _ | float⟩
  · exact .refl
  · simpa using moves_coerce mem hc
  · exact (moves_coerce mem hc).trans (moves_release h' float)

/-- A conversion holds nothing afterwards, whether it succeeds or not. -/
theorem moves_adapt {value : Option Ref} (held : ∀ r ∈ value, r ∈ refs) :
    Moves ⟨h, refs, exports, views⟩ ⟨(h.adapt value).1, refs, exports, views⟩ := by
  unfold Heap.adapt
  split
  · exact .refl
  · rename_i r
    split
    · exact .refl
    · split
      · exact .refl
      · exact moves_adaptElement (held r rfl)
      · exact moves_adaptReal (held r rfl)
      · exact .refl

end NativeBridge.Custody
