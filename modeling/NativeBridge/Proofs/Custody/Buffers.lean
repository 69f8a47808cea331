import NativeBridge.Proofs.Custody.Objects

/-! Taking and releasing views, as moves.

    A strategy that fails holds nothing, one that succeeds holds what its view holds, and the
    reference to the object behind the `data` attribute is given back either way. -/

namespace NativeBridge.Custody

variable {h : Heap} {refs exports : Multiset Ref} {views : Multiset View} {r : Ref}

theorem get?_of_exporter? {e : Exporter Address} (found : h.exporter? r = some e) :
    ∃ o, h.get? r = some o := by
  cases hg : h.get? r with
  | none => simp [Heap.exporter?, Heap.body?, hg] at found
  | some o => exact ⟨o, rfl⟩

/-- An export that makes no view is given back, or its exporter takes none back. -/
theorem moves_acquireCurrent (mem : r ∈ refs) :
    Moves ⟨h, refs, exports, views⟩
      ⟨(h.acquireCurrent r).1, refs, exports, (h.acquireCurrent r).2.toList + views⟩ := by
  unfold Heap.acquireCurrent
  split
  · simpa using Relation.ReflTransGen.refl
  · rename_i e he
    obtain ⟨o, ho⟩ := get?_of_exporter? he
    have he' : (h.lock r).exporter? r = some e :=
      (Heap.exporter?_congr (Heap.body?_lock h r r)).trans he
    split
    · simpa using Relation.ReflTransGen.refl
    have locked : Moves ⟨h, refs, exports, views⟩ ⟨h.lock r, refs, r ::ₘ exports, views⟩ :=
      .single (.lock ho)
    dsimp only
    split
    · split
      · simpa using locked.trans (.single .unlock)
      · rename_i stuck
        have stuck : ¬(h.lock r).Releases r := by simpa [Heap.Releases, he'] using stuck
        simpa using locked.trans (.single (.forget stuck))
    · rename_i usable
      obtain ⟨length, start⟩ := not_or.mp usable
      refine locked.trans ((moves_retain (.of_mem mem)).trans ?_)
      refine moves_bind (v := ⟨_, some r, _, _, _, _, false⟩) rfl ?_
      intro owner howner
      cases howner
      rw [if_neg (by simp)]
      exact ⟨e, (Heap.exporter?_congr (Heap.body?_retain _ r r)).trans he', rfl, rfl, start,
        Int.not_lt.mp length⟩

theorem moves_acquireLegacy (mem : r ∈ refs) :
    Moves ⟨h, refs, exports, views⟩
      ⟨(h.acquireLegacy r).1, refs, exports, (h.acquireLegacy r).2.toList + views⟩ := by
  unfold Heap.acquireLegacy
  split
  · simpa using Relation.ReflTransGen.refl
  · rename_i start length range
    refine (moves_retain (.of_mem mem)).trans ?_
    refine moves_bind (v := ⟨start, some r, length, 1, 1, 1, true⟩) rfl ?_
    intro owner howner
    cases howner
    rw [if_pos rfl, Heap.window?_congr (Heap.body?_retain h r r)]
    obtain ⟨w, hw, hr⟩ := Option.bind_eq_some_iff.mp range
    rw [hw, Option.bind_some, Heap.windowRange_congr w fun base _ => Heap.body?_retain h r base, hr]

theorem moves_acquire (mem : r ∈ refs) (strategy : Strategy) :
    Moves ⟨h, refs, exports, views⟩
      ⟨(h.acquire r strategy).1, refs, exports, (h.acquire r strategy).2.toList + views⟩ := by
  cases strategy with
  | current => exact moves_acquireCurrent mem
  | legacy => exact moves_acquireLegacy mem

theorem moves_acquireFirst (mem : r ∈ refs) (strategies : List Strategy) :
    Moves ⟨h, refs, exports, views⟩
      ⟨(h.acquireFirst r strategies).1, refs, exports,
        (h.acquireFirst r strategies).2.toList + views⟩ := by
  induction strategies generalizing h with
  | nil => simpa [Heap.acquireFirst] using Relation.ReflTransGen.refl
  | cons strategy rest ih =>
    have tried : Moves ⟨h, refs, exports, views⟩ _ := moves_acquire mem strategy
    unfold Heap.acquireFirst
    rcases ha : h.acquire r strategy with ⟨h', _ | view⟩ <;> rw [ha] at tried
    · simp only [Option.toList_none, Multiset.coe_nil, zero_add] at tried
      exact tried.trans ih
    · exact tried

/-- A failed extraction holds nothing; a successful one holds its view. -/
theorem moves_extract {object : Option Ref} (held : ∀ r ∈ object, r ∈ refs)
    (strategies : List Strategy) :
    Moves ⟨h, refs, exports, views⟩
      ⟨(h.extract object strategies).1, refs, exports,
        (h.extract object strategies).2.toOption.toList + views⟩ := by
  have looked : Moves ⟨h, refs, exports, views⟩ _ := moves_getAttribute dataAttribute held
  unfold Heap.extract
  rcases hd : h.getAttribute object dataAttribute with ⟨h₁, _ | data⟩ <;> rw [hd] at looked
  · simpa [Except.toOption] using looked
  · have taken : Moves ⟨h₁, data ::ₘ refs, exports, views⟩ _ :=
      moves_acquireFirst (Multiset.mem_cons_self data refs) strategies
    dsimp only
    rcases ha : h₁.acquireFirst data strategies with ⟨h₂, _ | view⟩ <;> rw [ha] at taken
    · exact (looked.trans taken).trans (moves_release h₂ data)
    · exact (looked.trans taken).trans (moves_release h₂ data)

/-! ### Null addresses -/

theorem advance_ne_null {a : Address} (n : Nat) (start : a ≠ .null) : a.advance n ≠ .null := by
  cases a with
  | null => exact absurd rfl start
  | object owner offset => nofun
  | block index offset => nofun

/-- A legacy buffer is refused unless it starts somewhere and reaches on from there. -/
theorem usable_of_windowRange {w : Window Ref Address} {start : Address} {length : Int}
    (range : h.windowRange w = some (start, length)) : start ≠ .null ∧ 0 ≤ length := by
  unfold Heap.windowRange at range
  split at range
  · split at range
    · cases range
    · rename_i usable
      cases range
      exact ⟨(not_or.mp usable).2, Int.not_lt.mp (not_or.mp usable).1⟩
  · split at range
    · cases range
    · split at range
      · cases range
      · split at range
        · cases range
        · rename_i usable
          cases range
          simp only [not_or] at usable
          refine ⟨advance_ne_null _ usable.2.1, ?_⟩
          split <;> omega

theorem usable_of_reads {v : View} (reads : v.Reads h) (owner : v.owner = some r) :
    v.start ≠ .null ∧ 0 ≤ v.length := by
  have answered := reads r owner
  split at answered
  · obtain ⟨w, _, range⟩ := Option.bind_eq_some_iff.mp answered
    exact usable_of_windowRange range
  · obtain ⟨e, _, start, length, usable⟩ := answered
    rwa [start, length] at usable

theorem start_ne_null_of_acquire {h' : Heap} {v : View} (strategy : Strategy)
    (taken : h.acquire r strategy = (h', some v)) : v.start ≠ .null := by
  cases strategy with
  | current =>
    rw [Heap.acquire, Heap.acquireCurrent] at taken
    split at taken
    · cases taken
    · split at taken
      · cases taken
      · dsimp only at taken
        split at taken
        · cases taken
        · rename_i usable
          cases taken
          exact (not_or.mp usable).2
  | legacy =>
    rw [Heap.acquire, Heap.acquireLegacy] at taken
    split at taken
    · cases taken
    · rename_i range
      cases taken
      obtain ⟨w, _, range⟩ := Option.bind_eq_some_iff.mp range
      exact (usable_of_windowRange range).1

theorem start_ne_null_of_acquireFirst {h' : Heap} {v : View} {strategies : List Strategy}
    (taken : h.acquireFirst r strategies = (h', some v)) : v.start ≠ .null := by
  induction strategies generalizing h with
  | nil => cases taken
  | cons strategy rest ih =>
    rw [Heap.acquireFirst] at taken
    rcases ha : h.acquire r strategy with ⟨h₁, _ | first⟩ <;> rw [ha] at taken
    · exact ih taken
    · cases taken
      exact start_ne_null_of_acquire strategy ha

/-- Whatever the strategies, a view that is taken starts somewhere, also an empty one. -/
theorem start_ne_null_of_extract {object : Option Ref} {strategies : List Strategy} {h' : Heap}
    {v : View} (taken : h.extract object strategies = (h', .ok v)) : v.start ≠ .null := by
  unfold Heap.extract at taken
  rcases hd : h.getAttribute object dataAttribute with ⟨h₁, _ | data⟩ <;> rw [hd] at taken
  · cases taken
  · dsimp only at taken
    rcases ha : h₁.acquireFirst data strategies with ⟨h₂, _ | view⟩ <;> rw [ha] at taken
    · cases taken
    · cases taken
      exact start_ne_null_of_acquireFirst ha

/-! ### Releasing -/

theorem releaseView_snd (h : Heap) (v : View) : (h.releaseView v).2 = v.released := by
  unfold Heap.releaseView
  split
  · rename_i none
    simp [View.released, ← none]
  · rfl

/-- What a view held goes back, and the released view is kept. -/
theorem moves_releaseView (v : View) :
    Moves ⟨h, refs, exports, v ::ₘ views⟩
      ⟨(h.releaseView v).1, refs, exports, v.released ::ₘ views⟩ := by
  unfold Heap.releaseView
  split
  · rename_i none
    have same : v.released = v := by simp [View.released, ← none]
    rw [same]
  · rename_i owner some
    have unbound : Moves ⟨h, refs, exports, v ::ₘ views⟩ _ := moves_unbind some
    refine unbound.trans (.trans ?_ ((moves_release _ owner).trans (moves_keep v)))
    cases legacy : v.isLegacy with
    | true => exact .refl
    | false =>
      rw [if_neg Bool.false_ne_true, Bool.not_false, Bool.true_and]
      split
      · exact .single .unlock
      · rename_i stuck
        exact .single (.forget stuck)

/-- What a view held goes back, and the view with it. -/
theorem moves_discardView (v : View) :
    Moves ⟨h, refs, exports, v ::ₘ views⟩ ⟨(h.releaseView v).1, refs, exports, views⟩ :=
  (moves_releaseView v).trans (moves_drop v)

end NativeBridge.Custody
