import NativeBridge.Session.Run
import NativeBridge.Proofs.Custody.Buffers
import NativeBridge.Proofs.Custody.Records
import NativeBridge.Proofs.Host.Errors

/-! What a session holds, and how the tables of names and views pass it on.

    A session holds a reference for each bound name and for each one taken by hand, and the views
    that are stored, overwritten or forgotten (`Session.custody`). No name stands twice in a table,
    so binding a name sets free exactly what the name was bound to. -/

namespace NativeBridge

/-- The values of a table are the one under a name and those under the others. -/
theorem table_perm {α : Type} {table : List (String × α)} (nodup : (table.map (·.1)).Nodup)
    (name : String) :
    (table.map (·.2)).Perm
      ((table.lookup name).toList ++ (table.filter fun entry => entry.1 ≠ name).map (·.2)) := by
  induction table with
  | nil => simp
  | cons entry rest ih =>
    obtain ⟨key, value⟩ := entry
    simp only [List.map_cons, List.nodup_cons] at nodup
    by_cases hk : key = name
    · subst hk
      have others : rest.filter (fun entry => entry.1 ≠ key) = rest := by
        refine List.filter_eq_self.mpr fun entry he => ?_
        have : entry.1 ≠ key := fun same => nodup.1 (List.mem_map.mpr ⟨entry, he, same⟩)
        simpa using this
      rw [List.filter_cons_of_neg (by simp), others]
      simp
    · have absent : (name == key) = false := by simpa using Ne.symm hk
      simp only [List.lookup_cons, absent, List.map_cons, ne_eq, hk, not_false_eq_true,
        decide_true, List.filter_cons_of_pos]
      exact ((ih nodup.2).cons value).trans List.perm_middle.symm

/-- A table without a name, and with another entry for it, has no name twice. -/
theorem nodup_rebind {α : Type} {table : List (String × α)} (nodup : (table.map (·.1)).Nodup)
    (name : String) (value : α) :
    (((name, value) :: table.filter fun entry => entry.1 ≠ name).map (·.1)).Nodup := by
  refine List.nodup_cons.mpr ⟨?_, (List.filter_sublist.map _).nodup nodup⟩
  simp

theorem nodup_unbind {α : Type} {table : List (String × α)} (nodup : (table.map (·.1)).Nodup)
    (name : String) : ((table.filter fun entry => entry.1 ≠ name).map (·.1)).Nodup :=
  (List.filter_sublist.map _).nodup nodup

namespace Session

/-- The views of a session: stored ones, and raw ones that were overwritten or forgotten. -/
def held (s : Session) : List View := s.views.map (·.2.view) ++ s.stray

/-- The references of a session: one for each bound name and each one taken by hand. -/
def hands (s : Session) : List Ref := s.names.map (·.2) ++ s.byHand

/-- The heap of a session with what the session holds of it. -/
def custody (s : Session) : Custody := ⟨s.heap, s.hands, 0, s.held⟩

/-- No name stands twice in a table. -/
structure Tidy (s : Session) : Prop where
  names : (s.names.map (·.1)).Nodup
  views : (s.views.map (·.1)).Nodup

/-- The session came about by moves, and its tables are in order. -/
structure Follows (c : Custody) (s : Session) : Prop where
  tidy : s.Tidy
  moves : Custody.Moves c s.custody

namespace Follows

variable {c c' : Custody} {s : Session}

theorem refl (tidy : s.Tidy) : Follows s.custody s := ⟨tidy, .refl⟩

theorem after (moves : Custody.Moves c c') (follows : Follows c' s) : Follows c s :=
  ⟨follows.tidy, moves.trans follows.moves⟩

end Follows

variable {s : Session} {r : Ref}

/-- A bound object is in the session's hands. -/
theorem mem_hands {name : String} (found : s.names.lookup name = some r) :
    r ∈ (s.hands : Multiset Ref) :=
  List.mem_append_left _ (List.mem_map.mpr ⟨_, Heap.mem_of_lookup found, rfl⟩)

/-! ### Names -/

/-- A new reference goes to the name; what the name was bound to goes back. -/
theorem follows_bindName (tidy : s.Tidy) (name : String) (r : Ref) :
    Follows ⟨s.heap, r ::ₘ s.hands, 0, s.held⟩ (s.bindName name r) := by
  refine ⟨⟨nodup_rebind tidy.names name r, tidy.views⟩, ?_⟩
  set others := (s.names.filter fun entry => entry.1 ≠ name).map (·.2) with ho
  have split : (r ::ₘ s.hands : Multiset Ref) =
      (s.names.lookup name).toList + ((r :: others) ++ s.byHand : List Ref) := by
    have perm := table_perm tidy.names name
    rw [← ho] at perm
    rw [Multiset.cons_coe, Multiset.coe_add, Multiset.coe_eq_coe]
    refine ((perm.append_right s.byHand).cons r).trans ?_
    rw [List.append_assoc, List.cons_append]
    exact List.perm_middle.symm
  rw [split]
  exact Custody.moves_releaseAll (s.names.lookup name).toList

theorem follows_dropName (tidy : s.Tidy) (name : String) :
    Follows s.custody (s.dropName name) := by
  refine ⟨⟨nodup_unbind tidy.names name, tidy.views⟩, ?_⟩
  set others := (s.names.filter fun entry => entry.1 ≠ name).map (·.2) with ho
  have split : (s.hands : Multiset Ref) =
      (s.names.lookup name).toList + (others ++ s.byHand : List Ref) := by
    have perm := table_perm tidy.names name
    rw [← ho] at perm
    rw [Multiset.coe_add, Multiset.coe_eq_coe, ← List.append_assoc]
    exact perm.append_right s.byHand
  rw [custody, split]
  exact Custody.moves_releaseAll (s.names.lookup name).toList

/-- A new reference is kept under a name or given back. -/
theorem follows_keep (tidy : s.Tidy) (r : Ref) (as : Option String) :
    Follows ⟨s.heap, r ::ₘ s.hands, 0, s.held⟩ (s.keep r as) := by
  cases as with
  | none => exact ⟨⟨tidy.names, tidy.views⟩, Custody.moves_release s.heap r⟩
  | some name => exact follows_bindName tidy name r

/-- What a step yields is kept under a name or given back. -/
theorem follows_answerObject (tidy : s.Tidy) (outcome : Heap × Option Ref) (as : Option String) :
    Follows ⟨outcome.1, outcome.2.toList + s.hands, 0, s.held⟩ (s.answerObject outcome as).1 := by
  obtain ⟨h, _ | r⟩ := outcome
  · exact .refl (s := s.withHeap h) ⟨tidy.names, tidy.views⟩
  · have tidy' : (s.withHeap h).Tidy := ⟨tidy.names, tidy.views⟩
    exact follows_keep tidy' r as

/-! ### Views -/

theorem held_removeView (tidy : s.Tidy) (name : String) :
    (s.held : Multiset View) =
      ((s.views.lookup name).map (·.view)).toList + (s.removeView name).held := by
  have perm := (table_perm tidy.views name).map Held.view
  rw [List.map_map, List.map_append, List.map_map] at perm
  rw [Multiset.coe_add, Multiset.coe_eq_coe, held, held, ← List.append_assoc]
  refine List.Perm.append_right s.stray (perm.trans (.of_eq ?_))
  cases s.views.lookup name <;> rfl

theorem held_setView (s : Session) (name : String) (new : Held) :
    ((s.setView name new).held : Multiset View) = new.view ::ₘ (s.removeView name).held := rfl

theorem tidy_removeView (tidy : s.Tidy) (name : String) : (s.removeView name).Tidy :=
  ⟨tidy.names, nodup_unbind tidy.views name⟩

theorem tidy_setView (tidy : s.Tidy) (name : String) (new : Held) : (s.setView name new).Tidy :=
  ⟨tidy.names, nodup_rebind tidy.views name new⟩

/-- A guard is released, a raw view forgotten with what it holds. -/
theorem follows_discard (tidy : s.Tidy) (old : Option Held) :
    Follows ⟨s.heap, s.hands, 0, (old.map (·.view)).toList + s.held⟩ (s.discard old) := by
  rcases old with _ | ⟨_ | _, v⟩
  · exact .refl tidy
  · refine ⟨⟨tidy.names, tidy.views⟩, ?_⟩
    have same : ((s.discard (some ⟨false, v⟩)).held : Multiset View) = v ::ₘ s.held := by
      rw [Multiset.cons_coe, Multiset.coe_eq_coe]
      exact List.perm_middle
    rw [custody, same]
    exact .refl
  · have gone : Custody.Moves ⟨s.heap, s.hands, 0, v ::ₘ (s.held : Multiset View)⟩
        ⟨(s.heap.releaseView v).1, s.hands, 0, s.held⟩ := Custody.moves_discardView v
    exact ⟨⟨tidy.names, tidy.views⟩, gone⟩

/-- A view is stored, and the one that had its name goes. -/
theorem follows_storeView (tidy : s.Tidy) (name : String) (new : Held) :
    Follows ⟨s.heap, s.hands, 0, new.view ::ₘ s.held⟩ (s.storeView name new) := by
  have follows := follows_discard (tidy_setView tidy name new) (s.views.lookup name)
  rwa [held_setView, Multiset.add_cons, ← held_removeView tidy] at follows

end Session

end NativeBridge
