import NativeBridge.Proofs.Heap.Cascade
import NativeBridge.Proofs.Session.Ownership

/-! The order of creation along a session.

    A session names objects that were made already, so a new object refers to earlier ones only,
    whichever constructor makes it (`Custody.Placed`, `Custody.placed_move`). That is so along any
    run. Along a balanced one the counts are right besides, and any reference that the session
    holds can be given back to the end (`Session.release_frees_unreached`). -/

namespace NativeBridge

namespace Heap

variable {h h' : Heap} {r : Ref}

/-- Known to a caller who names objects that were made: made itself. -/
theorem Known.lt_length {refs : Multiset Ref} (known : h.Known refs r) (ordered : h.Ordered)
    (kind : recordKind < h.slots.length) (given : ∀ t ∈ refs, t < h.slots.length) :
    r < h.slots.length := by
  induction known with
  | root root =>
    rcases root with named | rfl
    · exact given _ named
    · exact kind
  | field _ found mem ih => exact (ordered _ _ found _ mem).trans ih

/-- Contents stay, so only new objects are to be looked at. -/
theorem Ordered.of_keeps (ordered : h.Ordered) (keeps : h.Keeps h')
    (new : ∀ r o, h.slots.length ≤ r → h'.get? r = some o → ∀ t ∈ o.body.refs, t < r) :
    h'.Ordered := by
  intro r o found
  rcases Nat.lt_or_ge r h.slots.length with old | fresh
  · obtain ⟨o', before, same⟩ := keeps.same r old o found
    exact same ▸ ordered r o' before
  · exact new r o fresh found

end Heap

namespace Custody

variable {c c' : Custody}

/-- Every reference, on the heap or held of it, is to an object made before. -/
structure Placed (c : Custody) : Prop where
  ordered : c.heap.Ordered
  kind : Heap.recordKind < c.heap.slots.length
  given : ∀ r ∈ c.allRefs, r < c.heap.slots.length

/-- A move makes one object at most, of references that are held. -/
theorem ordered_move (move : Move c c') (placed : c.Placed) : c'.heap.Ordered := by
  refine placed.ordered.of_keeps (keeps_move move) fun r o fresh found => ?_
  have made := Heap.lt_length_of_get? found
  cases move with
  | @alloc h refs exports views body _ =>
    rw [Heap.get?_alloc] at found
    split at found
    · rename_i here
      cases found
      intro t mem
      rw [here]
      exact placed.given t (by simp [allRefs, mem])
    · exact absurd (Heap.lt_length_of_get? found) (Nat.not_lt.mpr fresh)
  | _ => exact absurd made (by simpa [Heap.lock, Heap.unlock] using fresh)

theorem placed_move (move : Move c c') (placed : c.Placed) : c'.Placed := by
  refine ⟨ordered_move move placed, placed.kind.trans_le (keeps_move move).grows, ?_⟩
  have given := placed.given
  cases move with
  | @retain h refs exports views r known =>
    have held : r < h.slots.length := known.lt_length placed.ordered placed.kind fun t mem =>
      given t (Multiset.mem_add.mpr (.inl mem))
    simp only [allRefs, Multiset.cons_add, Heap.length_retain] at given ⊢
    intro t mem
    rcases Multiset.mem_cons.mp mem with rfl | mem
    · exact held
    · exact given t mem
  | release work =>
    simp only [allRefs, add_assoc, Heap.length_releaseAll] at given ⊢
    exact fun t mem => given t (Multiset.mem_add.mpr (.inr mem))
  | @alloc h refs exports views body outside =>
    simp only [allRefs, add_assoc, Multiset.cons_add, Heap.length_alloc, Heap.alloc_snd] at given ⊢
    intro t mem
    rcases Multiset.mem_cons.mp mem with rfl | mem
    · exact Nat.lt_succ_self _
    · exact Nat.lt_succ_of_lt (given t (Multiset.mem_add.mpr (.inr mem)))
  | lock found => simpa [allRefs, Heap.lock] using given
  | unlock => simpa [allRefs, Heap.unlock] using given
  | forget stuck => exact given
  | bind reads => simpa only [allRefs, add_bind_cons View.refs] using given
  | unbind v => simpa only [allRefs, add_bind_cons View.refs] using given
  | blocks blocks => exact given

theorem placed_moves (moves : Moves c c') (placed : c.Placed) : c'.Placed := by
  induction moves with
  | refl => exact placed
  | tail _ move ih => exact placed_move move ih

/-- A service makes its answer of what it is handed. -/
theorem ordered_services (placed : c.Placed) (s : Services) :
    (s.recordKind c.heap).1.Ordered ∧ (∀ kind dtype, (s.combine c.heap kind dtype).1.Ordered) ∧
      (∀ bytes, ∀ descr ∈ c.refs, (s.array c.heap bytes descr).1.Ordered) ∧
      ∀ index, ∀ array ∈ c.refs, (s.item c.heap array index).1.Ordered := by
  obtain ⟨h, refs, exports, views⟩ := c
  refine ⟨(placed_moves (moves_recordKind s) placed).ordered,
    fun kind dtype => (placed_moves (moves_combine s kind dtype) placed).ordered,
    fun bytes descr mem => ?_,
    fun index array mem => (placed_moves (moves_item s index mem) placed).ordered⟩
  obtain ⟨rest, rfl⟩ := Multiset.exists_cons_of_mem mem
  exact (placed_moves (moves_array s bytes descr) placed).ordered

end Custody

namespace Session

open Custody

variable {s : Session}

/-! ### Constructors and steps -/

/-- Whichever constructor makes the object, of names that are bound. -/
theorem ordered_create? {object : NewObject} {h : Heap} {r : Ref} (placed : s.custody.Placed)
    (made : s.create? object = some (h, r)) : h.Ordered :=
  (placed_moves (moves_create? made) placed).ordered

/-- Giving back by hand what was not taken loses objects but makes none. -/
theorem placed_releaseByHand (placed : s.custody.Placed) (r : Ref) :
    (s.releaseByHand (some r)).1.custody.Placed := by
  have keeps : s.heap.Keeps (s.heap.release r) := .releaseAll _ _
  have length : (s.heap.release r).slots.length = s.heap.slots.length :=
    Heap.length_releaseAll s.heap [r]
  refine ⟨placed.ordered.of_keeps keeps fun t o fresh found => ?_,
    placed.kind.trans_le keeps.grows, fun t mem => ?_⟩
  · have made := Heap.lt_length_of_get? found
    exact absurd fresh (Nat.not_le.mpr (length ▸ made))
  · refine (placed.given t ?_).trans_le keeps.grows
    rw [allRefs_custody, Multiset.mem_coe] at mem ⊢
    exact (List.mem_append.mp mem).elim (fun mem => List.mem_append_left _ mem)
      fun mem => List.mem_append_right _ (List.mem_of_mem_erase mem)

theorem placed_step (tidy : s.Tidy) (placed : s.custody.Placed) (step : Step) :
    (s.step step).1.custody.Placed := by
  rcases step_cases tidy step with follows | ⟨change, _, same⟩ | ⟨r, same⟩
  · exact placed_moves follows.moves placed
  · exact same ▸ ⟨placed.ordered, placed.kind, placed.given⟩
  · exact same ▸ placed_releaseByHand placed r

theorem placed_run (tidy : s.Tidy) (placed : s.custody.Placed) (steps : List Step) :
    (s.run steps).1.custody.Placed := by
  induction steps generalizing s with
  | nil => exact placed
  | cons step rest ih => exact ih (tidy_step tidy step) (placed_step tidy placed step)

theorem placed_opened (runtime : Option Services) (census : Census) :
    (opened runtime census).custody.Placed := by
  refine ⟨(sound_opened runtime census).accounts.ordered, Nat.zero_lt_one, fun r mem => ?_⟩
  rw [allRefs_custody] at mem
  cases mem

/-- Where every count is the number of owners, giving back a reference comes to an end, and what
    falls, each object once, is what the remaining owners no longer reach. No service, constructor
    or step makes an object that refers to a later one, so this can be done with any reference that
    a session holds after any balanced run. -/
theorem release_frees_unreached :
    (∀ {h : Heap} {r : Ref} {out : Multiset Ref}, h.Accounts (r ::ₘ out) →
      ∃ fallen, h.Collapses r out fallen (h.release r)) ∧
    (∀ c : Custody, c.Placed → ∀ s : Services,
      (s.recordKind c.heap).1.Ordered ∧ (∀ kind dtype, (s.combine c.heap kind dtype).1.Ordered) ∧
        (∀ bytes, ∀ descr ∈ c.refs, (s.array c.heap bytes descr).1.Ordered) ∧
        ∀ index, ∀ array ∈ c.refs, (s.item c.heap array index).1.Ordered) ∧
    (∀ s : Session, s.Tidy → s.custody.Placed →
      (∀ object h r, s.create? object = some (h, r) → h.Ordered) ∧
        ∀ step, (s.step step).1.custody.Placed) ∧
    ∀ runtime census steps,
      let s := ((opened runtime census).run steps).1
      s.heap.Ordered ∧ ((opened runtime census).Balanced steps → ∀ r ∈ s.roots,
        ∃ fallen, s.heap.Collapses r (s.roots.erase r : List Ref) fallen (s.heap.release r)) := by
  refine ⟨Heap.collapses_release, fun c placed => ordered_services placed, fun s tidy placed => ?_,
    fun runtime census steps => ?_⟩
  · exact ⟨fun object h r made => ordered_create? placed made, placed_step tidy placed⟩
  · intro s
    have tidy := tidy_opened runtime census
    have placed := placed_run tidy (placed_opened runtime census) steps
    refine ⟨placed.ordered, fun balanced r mem => ?_⟩
    have acc : s.heap.Accounts s.custody.allRefs :=
      (sound_run tidy (sound_opened runtime census) balanced).accounts
    rw [allRefs_custody, Multiset.coe_eq_coe.mpr (List.perm_cons_erase mem)] at acc
    exact Heap.collapses_release acc

/-- The bytes are shared: the window and the custom object that fall with the holder each owned
    them, and the name that is left still does. -/
theorem release_frees_unreached_of_shared :
    let steps : List Step :=
      [.make (.bytes [1, 2, 3]) (some "b"), .make (.window ⟨some "b", none, -1, 0⟩) (some "w"),
        .make (.custom ⟨.plain .other, none, none, some [("x", "b"), ("y", "w")], none, none⟩)
          (some "c"), .make (.holder "c") (some "h"), .drop "w", .drop "c"]
    let s := ((opened none .initial).run steps).1
    (opened none .initial).Balanced steps ∧ 4 ∈ s.roots ∧
      s.heap.get? 1 = some ⟨3, 0, .bytes [1, 2, 3]⟩ ∧
      (∃ fallen, s.heap.Collapses 4 [1] fallen (s.heap.release 4) ∧
        ∀ t, t ∈ fallen ↔ t = 2 ∨ t = 3 ∨ t = 4) ∧
      (s.heap.release 4).get? 1 = some ⟨1, 0, .bytes [1, 2, 3]⟩ := by
  intro steps s
  have balanced : (opened none .initial).Balanced steps := by decide +kernel
  have slots : s.heap.slots = [some ⟨.pinned, 0, .recordKind⟩, some ⟨3, 0, .bytes [1, 2, 3]⟩,
      some ⟨1, 0, .window ⟨some 1, .null, -1, 0⟩⟩,
      some ⟨1, 0, .custom ⟨.plain .other, none, none, some [("x", 1), ("y", 2)], none, none⟩⟩,
      some ⟨1, 0, .holder 3⟩] := by decide +kernel
  have slots' : (s.heap.release 4).slots = [some ⟨.pinned, 0, .recordKind⟩,
      some ⟨1, 0, .bytes [1, 2, 3]⟩, none, none, none] := by decide +kernel
  have roots : s.roots = [4, 1] := by decide +kernel
  have held : 4 ∈ s.roots := by simp [roots]
  obtain ⟨fallen, collapses⟩ :=
    (release_frees_unreached.2.2.2 none .initial steps).2 balanced 4 held
  have rest : s.roots.erase 4 = [1] := by rw [roots]; rfl
  rw [rest] at collapses
  refine ⟨balanced, held, by rw [Heap.get?, slots]; rfl, ⟨fallen, collapses, fun t => ?_⟩,
    by rw [Heap.get?, slots']; rfl⟩
  rw [collapses.mem_iff, Heap.get?, slots, Heap.get?, slots']
  rcases t with _ | _ | _ | _ | _ | t <;> simp

end Session

end NativeBridge
