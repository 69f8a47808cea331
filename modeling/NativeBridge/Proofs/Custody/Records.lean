import NativeBridge.Proofs.Custody.Objects
import NativeBridge.Record.Reconstruction

/-! The services of a runtime and the rebuilding of records, as moves.

    A service hands out a new reference or nothing; making an array uses up the reference to its
    descriptor even where no array is made. Of a rebuilt record only the record itself is held. -/

namespace NativeBridge.Custody

variable {h : Heap} {refs exports : Multiset Ref} {views : Multiset View} {r : Ref}

theorem moves_recordKind (s : Services) :
    Moves ⟨h, refs, exports, views⟩
      ⟨(s.recordKind h).1, (s.recordKind h).2.toList + refs, exports, views⟩ := by
  unfold Services.recordKind
  split
  · exact moves_retain (.root (.inr rfl))
  · simpa using Relation.ReflTransGen.refl
  · exact moves_alloc_leaf trivial rfl

theorem moves_combine (s : Services) (kind dtype : Ref) :
    Moves ⟨h, refs, exports, views⟩
      ⟨(s.combine h kind dtype).1, (s.combine h kind dtype).2.toList + refs, exports, views⟩ := by
  unfold Services.combine
  split
  · split
    · exact moves_alloc_leaf trivial rfl
    · simpa using Relation.ReflTransGen.refl
  · simpa using Relation.ReflTransGen.refl

theorem moves_array (s : Services) (bytes : List UInt8) (descr : Ref) :
    Moves ⟨h, descr ::ₘ refs, exports, views⟩
      ⟨(s.array h bytes descr).1, (s.array h bytes descr).2.toList + refs, exports, views⟩ := by
  unfold Services.array
  split
  · rename_i layout _ _
    split
    · simpa using moves_release h descr
    · set data : Body := .bytes (bytes.take layout.itemSize)
      have stored : Moves ⟨h, descr ::ₘ refs, exports, views⟩
          ⟨(h.alloc data).1, (h.alloc data).2 ::ₘ descr ::ₘ refs, exports, views⟩ :=
        moves_alloc_leaf trivial rfl
      refine stored.trans ?_
      rw [Multiset.cons_swap]
      exact moves_alloc_pair trivial rfl
  · simpa using moves_release h descr

theorem moves_item (s : Services) (index : Nat) (mem : r ∈ refs) :
    Moves ⟨h, refs, exports, views⟩
      ⟨(s.item h r index).1, (s.item h r index).2.toList + refs, exports, views⟩ := by
  unfold Services.item
  split
  · rename_i descr storage _ hbody
    split
    · split
      · simpa using Relation.ReflTransGen.refl
      · rename_i bytes _
        have kept : Moves ⟨h, refs, exports, views⟩
            ⟨h.retain descr, descr ::ₘ refs, exports, views⟩ :=
          moves_retain ((Heap.Known.of_mem mem).field hbody (by simp [Body.refs]))
        have stored : Moves ⟨h.retain descr, descr ::ₘ refs, exports, views⟩
            ⟨((h.retain descr).alloc (.bytes bytes)).1,
              ((h.retain descr).alloc (.bytes bytes)).2 ::ₘ descr ::ₘ refs, exports, views⟩ :=
          moves_alloc_leaf trivial rfl
        refine (kept.trans stored).trans ?_
        rw [Multiset.cons_swap]
        exact moves_alloc_pair trivial rfl
    · simpa using Relation.ReflTransGen.refl
  · simpa using Relation.ReflTransGen.refl

/-! ### Rebuilding -/

theorem moves_rebuildFromRegion (s : Services) (start : Address) (length : Nat) (descr : Ref) :
    Moves ⟨h, descr ::ₘ refs, exports, views⟩
      ⟨(h.rebuildFromRegion s start length descr).1,
        (h.rebuildFromRegion s start length descr).2.toOption.toList + refs, exports, views⟩ := by
  unfold Heap.rebuildFromRegion
  split
  · simpa [Except.toOption] using moves_release h descr
  · rename_i bytes _
    have made : Moves ⟨h, descr ::ₘ refs, exports, views⟩ _ := moves_array s bytes descr
    rcases ha : s.array h bytes descr with ⟨h₁, _ | array⟩ <;> rw [ha] at made
    · simpa [Except.toOption] using made
    · have taken : Moves ⟨h₁, array ::ₘ refs, exports, views⟩ _ :=
        moves_item s 0 (Multiset.mem_cons_self array refs)
      dsimp only
      rcases hi : s.item h₁ array 0 with ⟨h₂, _ | record⟩ <;> rw [hi] at taken
      · rw [Option.toList_none, Multiset.coe_nil, zero_add] at taken
        simpa [Except.toOption] using (made.trans taken).trans (moves_release h₂ array)
      · rw [Option.toList_some, Multiset.coe_singleton, Multiset.singleton_add,
          Multiset.cons_swap] at taken
        exact (made.trans taken).trans (moves_release h₂ array)

theorem moves_rebuildCombined (s : Services) (start : Address) (length : Nat) (kind dtype : Ref) :
    Moves ⟨h, refs, exports, views⟩
      ⟨(h.rebuildCombined s start length kind dtype).1,
        (h.rebuildCombined s start length kind dtype).2.toOption.toList + refs,
        exports, views⟩ := by
  have combined : Moves ⟨h, refs, exports, views⟩ _ := moves_combine s kind dtype
  unfold Heap.rebuildCombined
  rcases hc : s.combine h kind dtype with ⟨h', _ | descr⟩ <;> rw [hc] at combined
  · simpa [Except.toOption] using combined
  · exact combined.trans (moves_rebuildFromRegion s start length descr)

theorem moves_rebuildWithKind (s : Services) (start : Address) (length : Nat) (kind : Ref)
    {dtype : Option Ref} (held : ∀ r ∈ dtype, r ∈ refs) :
    Moves ⟨h, refs, exports, views⟩
      ⟨(h.rebuildWithKind s start length kind dtype).1,
        (h.rebuildWithKind s start length kind dtype).2.toOption.toList + refs,
        exports, views⟩ := by
  unfold Heap.rebuildWithKind
  split
  · simpa [Except.toOption] using Relation.ReflTransGen.refl
  · rename_i dtype
    have kept : Moves ⟨h, refs, exports, views⟩ ⟨h.retain dtype, dtype ::ₘ refs, exports, views⟩ :=
      moves_retain (.of_mem (held dtype rfl))
    have built : Moves ⟨h.retain dtype, dtype ::ₘ refs, exports, views⟩ _ :=
      moves_rebuildCombined s start length kind dtype
    rw [Multiset.add_cons] at built
    exact (kept.trans built).trans (moves_release _ dtype)

/-- A rebuilt record is held, and nothing else that was handed out on the way. -/
theorem moves_reconstruct (runtime : Option Services) (start : Address) (length : Nat)
    {dtype : Option Ref} (held : ∀ r ∈ dtype, r ∈ refs) :
    Moves ⟨h, refs, exports, views⟩
      ⟨(h.reconstruct runtime start length dtype).1,
        (h.reconstruct runtime start length dtype).2.toOption.toList + refs,
        exports, views⟩ := by
  unfold Heap.reconstruct
  split
  · simpa [Except.toOption] using Relation.ReflTransGen.refl
  · rename_i s
    have found : Moves ⟨h, refs, exports, views⟩ _ := moves_recordKind s
    rcases hk : s.recordKind h with ⟨h', _ | kind⟩ <;> rw [hk] at found
    · simpa [Except.toOption] using found
    · have built : Moves ⟨h', kind ::ₘ refs, exports, views⟩ _ :=
        moves_rebuildWithKind s start length kind fun r hr => Multiset.mem_cons_of_mem (held r hr)
      rw [Multiset.add_cons] at built
      exact (found.trans built).trans (moves_release _ kind)

end NativeBridge.Custody
