import NativeBridge.Proofs.Custody.Basic
import NativeBridge.Proofs.Heap.Census

/-! What every move preserves.

    The accounts of the heap (`Custody.accounts_move`), the count of exports of every object that
    takes them back (`Custody.tallies_move`), contents once made (`Custody.keeps_move`), the
    agreement of the live-object counters with the objects (`Custody.counts_move`), addresses
    outside the heap (`Custody.outside_move`) and, where the accounts are right, what a view shows
    (`Custody.reads_mono`). An object that is immortal stays so, and only one that has as many
    owners as the mark says becomes it (`Custody.exists_owners_of_pinned_moves`). -/

namespace NativeBridge

namespace Heap

variable {h h' : Heap} {r : Ref}

/-- The base of a legacy buffer is one of the objects it keeps alive. -/
theorem base_mem_refs {w : Window Ref Address} {base : Ref} (found : h.window? r = some w)
    (hb : w.base = some base) : ∃ body, h.body? r = some body ∧ base ∈ body.refs := by
  obtain ⟨body, hbody, hw⟩ := Option.bind_eq_some_iff.mp found
  refine ⟨body, hbody, ?_⟩
  cases body with
  | window w' =>
    cases hw
    simp [Body.refs, hb]
  | custom c =>
    have hc : c.shape.window? = some w := hw
    simp [Body.refs, Custom.refs, hc, hb]
  | _ => simp [Body.window?] at hw

/-- Every object that takes exports back has as many as are held of it. -/
structure Tallies (h : Heap) (out : Multiset Ref) : Prop where
  bounded : ∀ r ∈ out, r < h.slots.length
  counted : ∀ r o, h.get? r = some o → h.Releases r → o.exports = out.count r

/-- Addresses in the contents of objects are outside the heap. -/
def Outside (h : Heap) : Prop := ∀ r o, h.get? r = some o → o.body.Outside

namespace Tallies

variable {out : Multiset Ref}

/-- Objects that come and go without their exports bear on no tally. -/
theorem of_same (tallies : h.Tallies out) (grows : h.slots.length ≤ h'.slots.length)
    (same : ∀ r o', h'.get? r = some o' →
      (∃ o, h.get? r = some o ∧ o.body = o'.body ∧ o.exports = o'.exports) ∨
        h.slots.length ≤ r ∧ o'.exports = 0) : h'.Tallies out := by
  refine ⟨fun r hr => Nat.lt_of_lt_of_le (tallies.bounded r hr) grows, fun r o' ho' releases => ?_⟩
  rcases same r o' ho' with ⟨o, ho, hb, he⟩ | ⟨new, he⟩
  · rw [← he]
    exact tallies.counted r o ho ((releases_congr (by simp [body?, ho, ho', hb])).mp releases)
  · rw [he, Multiset.count_eq_zero.mpr fun hr => absurd (tallies.bounded r hr) (Nat.not_lt.mpr new)]
    rfl

/-- A change of one object's exports keeps the tallies when the exports held change with it. -/
theorem update (change : Int → Int) {out' : Multiset Ref} (tallies : h.Tallies out)
    (bounded : ∀ t ∈ out', t < h.slots.length) (others : ∀ t ≠ r, out'.count t = out.count t)
    (moves : change (out.count r) = out'.count r) :
    (h.update r fun o => { o with exports := change o.exports }).Tallies out' := by
  refine ⟨fun t ht => by simpa using bounded t ht, fun t o' ho' releases => ?_⟩
  have held : h.Releases t → ∀ o, h.get? t = some o → o.exports = out.count t :=
    fun releases o ho => tallies.counted t o ho releases
  have same : (h.update r fun o => { o with exports := change o.exports }).body? t = h.body? t :=
    body?_update h r t _ fun _ => rfl
  have releases := (releases_congr same).mp releases
  rw [get?_update] at ho'
  split at ho'
  · rename_i hr
    subst hr
    obtain ⟨o, ho, rfl⟩ := Option.map_eq_some_iff.mp ho'
    rw [← moves, ← held releases o ho]
  · rename_i hr
    rw [others t (Ne.symm hr)]
    exact held releases o' ho'

end Tallies

end Heap

namespace Custody

variable {c c' : Custody}

/-- What a view holds may as well be in hand. -/
theorem add_bind_cons (part : View → List Ref) (v : View) (inHand : Multiset Ref)
    (views : Multiset View) :
    (part v : Multiset Ref) + inHand + views.bind (fun v => (part v : Multiset Ref)) =
      inHand + (v ::ₘ views).bind fun v => (part v : Multiset Ref) := by
  rw [Multiset.cons_bind]
  abel

theorem accounts_move (move : Move c c') (acc : c.heap.Accounts c.allRefs) :
    c'.heap.Accounts c'.allRefs := by
  cases move with
  | @retain h refs exports views r known =>
    have found : ∃ o, h.get? r = some o := by
      refine acc.allocated known fun t ht => ?_
      rcases ht with ht | rfl
      · exact acc.owned (Multiset.mem_add.mpr (.inl ht))
      · exact acc.kind.imp fun _ k => k.1
    obtain ⟨o, ho⟩ := found
    simpa only [allRefs, Multiset.cons_add] using acc.retain ho
  | release work =>
    simp only [allRefs, add_assoc] at acc ⊢
    exact acc.releaseAll
  | alloc outside =>
    simp only [allRefs, add_assoc, Multiset.cons_add] at acc ⊢
    exact acc.alloc
  | @lock h refs exports views r => exact acc.update_exports r (· + 1)
  | @unlock h refs exports views r => exact acc.update_exports r (· - 1)
  | forget stuck => exact acc
  | bind reads => simpa only [allRefs, add_bind_cons View.refs] using acc
  | unbind v => simpa only [allRefs, add_bind_cons View.refs] using acc
  | blocks blocks => exact acc.of_slots_eq rfl

/-- An immortal object stays immortal. -/
theorem pinned_move (move : Move c c') (acc : c.heap.Accounts c.allRefs) {r : Ref}
    (pinned : c.heap.Pinned r) : c'.heap.Pinned r := by
  cases move with
  | @retain h refs exports views t known =>
    obtain ⟨o, ho, hp⟩ := pinned
    refine ⟨if t = r then { o with count := o.count.retain } else o, ?_, ?_⟩
    · rw [Heap.get?_retain, ho]
      split <;> rfl
    · split
      · rw [hp]
        rfl
      · exact hp
  | release work =>
    simp only [allRefs, add_assoc] at acc
    exact (acc.pinned_releaseAll).mpr pinned
  | alloc outside =>
    obtain ⟨o, ho, hp⟩ := pinned
    exact ⟨o, by rw [Heap.get?_alloc, if_neg (Nat.ne_of_lt (Heap.lt_length_of_get? ho)), ho], hp⟩
  | lock found => exact (Heap.pinned_exports (· + 1)).mpr pinned
  | unlock => exact (Heap.pinned_exports (· - 1)).mpr pinned
  | _ => exact pinned

/-- A move that makes an object immortal leaves it with as many owners as the mark says. -/
theorem owners_of_pinned_move (move : Move c c') (acc : c.heap.Accounts c.allRefs) {r : Ref}
    (mortal : ¬c.heap.Pinned r) (pinned : c'.heap.Pinned r) : c'.owners r = 2 ^ 32 - 1 := by
  cases move with
  | @retain h refs exports views t known =>
    obtain ⟨o', ho', hp⟩ := pinned
    rw [Heap.get?_retain] at ho'
    split at ho'
    · rename_i same
      subst same
      obtain ⟨o, ho, rfl⟩ := Option.map_eq_some_iff.mp ho'
      have before : o.count ≠ .pinned := fun hp => mortal ⟨o, ho, hp⟩
      have counted := acc.counted t o ho before
      have more : o.count.toNat + 1 = 2 ^ 32 - 1 := by
        rw [← RefCount.toNat_retain before]
        exact congrArg UInt32.toNat hp
      have fields : (h.retain t).fields = h.fields := Heap.fields_update _ _ _ fun _ => rfl
      simp only [owners, allRefs, fields, Multiset.cons_add, Multiset.count_cons_self] at counted ⊢
      rw [← counted, more]
    · exact absurd ⟨o', ho', hp⟩ mortal
  | release work =>
    simp only [allRefs, add_assoc] at acc
    exact absurd (acc.pinned_releaseAll.mp pinned) mortal
  | alloc outside =>
    obtain ⟨o, ho, hp⟩ := pinned
    rw [Heap.get?_alloc] at ho
    split at ho
    · cases ho
      exact absurd hp (by decide : RefCount.fresh ≠ .pinned)
    · exact absurd ⟨o, ho, hp⟩ mortal
  | lock found => exact absurd ((Heap.pinned_exports (· + 1)).mp pinned) mortal
  | unlock => exact absurd ((Heap.pinned_exports (· - 1)).mp pinned) mortal
  | _ => exact absurd pinned mortal

theorem tallies_move (move : Move c c') (tallies : c.heap.Tallies c.allExports) :
    c'.heap.Tallies c'.allExports := by
  cases move with
  | @retain h refs exports views r known =>
    refine tallies.of_same (by simp) fun t o' ho' => .inl ?_
    rw [Heap.get?_retain] at ho'
    split at ho'
    · obtain ⟨o, ho, rfl⟩ := Option.map_eq_some_iff.mp ho'
      exact ⟨o, ho, rfl, rfl⟩
    · exact ⟨o', ho', rfl, rfl⟩
  | release work =>
    exact tallies.of_same (by simp) fun t o' ho' => .inl (Heap.get?_releaseAll ho')
  | @alloc h refs exports views body outside =>
    refine tallies.of_same (by simp) fun t o' ho' => ?_
    rw [Heap.get?_alloc] at ho'
    split at ho'
    · rename_i ht
      cases ho'
      exact .inr ⟨Nat.le_of_eq ht.symm, rfl⟩
    · exact .inl ⟨o', ho', rfl, rfl⟩
  | @lock h refs exports views r o found =>
    simp only [allExports, Multiset.cons_add] at tallies ⊢
    refine tallies.update (· + 1) ?_ ?_ ?_
    · intro t ht
      rcases Multiset.mem_cons.mp ht with rfl | ht
      · exact Heap.lt_length_of_get? found
      · exact tallies.bounded t ht
    · intro t ht
      exact Multiset.count_cons_of_ne ht _
    · rw [Multiset.count_cons_self]
      push_cast
      rfl
  | @unlock h refs exports views r =>
    simp only [allExports, Multiset.cons_add] at tallies ⊢
    refine tallies.update (· - 1) ?_ ?_ ?_
    · intro t ht
      exact tallies.bounded t (Multiset.mem_cons_of_mem ht)
    · intro t ht
      exact (Multiset.count_cons_of_ne ht _).symm
    · rw [Multiset.count_cons_self]
      push_cast
      omega
  | @forget h refs exports views r stuck =>
    simp only [allExports, Multiset.cons_add] at tallies ⊢
    refine ⟨fun t ht => tallies.bounded t (Multiset.mem_cons_of_mem ht), fun t o ho releases => ?_⟩
    have ht : t ≠ r := fun hr => stuck (hr ▸ releases)
    rw [tallies.counted t o ho releases, Multiset.count_cons_of_ne ht]
  | bind reads => simpa only [allExports, add_bind_cons View.exports] using tallies
  | unbind v => simpa only [allExports, add_bind_cons View.exports] using tallies
  | blocks blocks => exact tallies.of_same (Nat.le_refl _) fun t o' ho' => .inl ⟨o', ho', rfl, rfl⟩

theorem keeps_move (move : Move c c') : c.heap.Keeps c'.heap := by
  cases move with
  | retain known => exact .update _ _ _ fun _ => rfl
  | release work => exact .releaseAll _ _
  | alloc outside => exact .alloc _ _
  | lock found => exact .update _ _ _ fun _ => rfl
  | unlock => exact .update _ _ _ fun _ => rfl
  | forget stuck => exact .refl _
  | bind reads => exact .refl _
  | unbind v => exact .refl _
  | blocks blocks => exact .of_slots_eq rfl

theorem counts_move (move : Move c c') : c.heap.Counts c'.heap := by
  cases move with
  | retain known => exact .update _ _ _ fun _ => rfl
  | release work => exact .releaseAll _ _
  | alloc outside => exact .alloc _ _
  | lock found => exact .update _ _ _ fun _ => rfl
  | unlock => exact .update _ _ _ fun _ => rfl
  | forget stuck => exact .refl _
  | bind reads => exact .refl _
  | unbind v => exact .refl _
  | blocks blocks => exact .of_same rfl fun _ => rfl

/-- Contents are either as old as the move or those of the new object. -/
theorem outside_move (move : Move c c') (outside : c.heap.Outside) : c'.heap.Outside := by
  intro r o' ho'
  by_cases hr : r < c.heap.slots.length
  · obtain ⟨o, ho, hb⟩ := (keeps_move move).same r hr o' ho'
    exact hb ▸ outside r o ho
  · have fresh := Heap.lt_length_of_get? ho'
    cases move with
    | @alloc h refs exports views body clean =>
      rw [Heap.get?_alloc] at ho'
      split at ho'
      · cases ho'
        exact clean
      · exact outside r o' ho'
    | _ => exact absurd fresh (by simpa [Heap.lock, Heap.unlock] using hr)

/-- A view goes on showing what it shows while the accounts are right and it holds its owner. -/
theorem reads_mono {h h' : Heap} {out out' : Multiset Ref} {v : View} (reads : v.Reads h)
    (keeps : h.Keeps h') (acc : h.Accounts out) (acc' : h'.Accounts out')
    (held : ∀ r ∈ v.refs, r ∈ out) (held' : ∀ r ∈ v.refs, r ∈ out') : v.Reads h' := by
  intro owner ho
  have mem : owner ∈ v.refs := by simp [View.refs, ho]
  obtain ⟨o, found⟩ := acc.owned (held owner mem)
  obtain ⟨o', found'⟩ := acc'.owned (held' owner mem)
  have same : h'.body? owner = h.body? owner :=
    keeps.body?_eq (by simp [found]) (by simp [found'])
  have before := reads owner ho
  split
  · rename_i legacy
    rw [if_pos legacy] at before
    obtain ⟨w, hw, range⟩ := Option.bind_eq_some_iff.mp before
    rw [Heap.window?_congr same, hw, Option.bind_some, Heap.windowRange_congr w ?_, range]
    -- the base is held by the owner, so it is still there too
    intro base hbase
    obtain ⟨body, hbody, field⟩ := Heap.base_mem_refs hw hbase
    obtain ⟨p, hp, rfl⟩ := Heap.body?_eq_some_iff.mp hbody
    obtain ⟨p', hp', hpb'⟩ := Heap.body?_eq_some_iff.mp (same ▸ hbody)
    obtain ⟨b, hb⟩ := acc.stored hp field
    obtain ⟨b', hb'⟩ := acc'.stored hp' (hpb' ▸ field)
    exact keeps.body?_eq (by simp [hb]) (by simp [hb'])
  · rename_i legacy
    rw [if_neg legacy] at before
    rwa [Heap.exporter?_congr same]

/-- Views come about only by reading their owner's slots. -/
theorem views_move (move : Move c c') {v : View} (hv : v ∈ c'.views) :
    v ∈ c.views ∨ v.Reads c'.heap := by
  cases move with
  | bind reads =>
    rcases Multiset.mem_cons.mp hv with rfl | hv
    · exact .inr reads
    · exact .inl hv
  | unbind v => exact .inl (Multiset.mem_cons_of_mem hv)
  | _ => exact .inl hv

/-! ### Any number of moves -/

/-- The accounts are right, addresses are outside the heap, and views show what their owners
    answer. -/
structure Sound (c : Custody) : Prop where
  accounts : c.heap.Accounts c.allRefs
  outside : c.heap.Outside
  reads : ∀ v ∈ c.views, v.Reads c.heap

theorem refs_subset_allRefs {v : View} (hv : v ∈ c.views) : ∀ r ∈ v.refs, r ∈ c.allRefs := by
  intro r hr
  exact Multiset.mem_add.mpr (.inr (Multiset.mem_bind.mpr ⟨v, hv, hr⟩))

theorem Sound.move (sound : c.Sound) (move : Move c c') : c'.Sound := by
  have acc' := accounts_move move sound.accounts
  refine ⟨acc', outside_move move sound.outside, fun v hv => ?_⟩
  rcases views_move move hv with old | reads
  · exact reads_mono (sound.reads v old) (keeps_move move) sound.accounts acc'
      (refs_subset_allRefs old) (refs_subset_allRefs hv)
  · exact reads

theorem Sound.moves (sound : c.Sound) (moves : Moves c c') : c'.Sound := by
  induction moves with
  | refl => exact sound
  | tail _ move ih => exact ih.move move

theorem accounts_moves (moves : Moves c c') (acc : c.heap.Accounts c.allRefs) :
    c'.heap.Accounts c'.allRefs := by
  induction moves with
  | refl => exact acc
  | tail _ move ih => exact accounts_move move ih

/-- With nothing held but references in hand. -/
theorem accounts_moves_in_hand {h h' : Heap} {refs refs' : Multiset Ref}
    (moves : Moves ⟨h, refs, 0, 0⟩ ⟨h', refs', 0, 0⟩) (acc : h.Accounts refs) :
    h'.Accounts refs' := by
  simpa [allRefs] using accounts_moves moves (by simpa [allRefs] using acc)

theorem pinned_moves (moves : Moves c c') (acc : c.heap.Accounts c.allRefs) {r : Ref}
    (pinned : c.heap.Pinned r) : c'.heap.Pinned r := by
  induction moves with
  | refl => exact pinned
  | tail first move ih => exact pinned_move move (accounts_moves first acc) ih

/-- An object that is immortal in the end had as many owners as the mark says somewhere on the
    way. -/
theorem exists_owners_of_pinned_moves (moves : Moves c c') (acc : c.heap.Accounts c.allRefs)
    {r : Ref} (mortal : ¬c.heap.Pinned r) (pinned : c'.heap.Pinned r) :
    ∃ c₁, Moves c c₁ ∧ Moves c₁ c' ∧ c₁.owners r = 2 ^ 32 - 1 := by
  induction moves with
  | refl => exact absurd pinned mortal
  | @tail c₂ c₃ first move ih =>
    by_cases before : c₂.heap.Pinned r
    · obtain ⟨c₁, earlier, later, owners⟩ := ih before
      exact ⟨c₁, earlier, later.tail move, owners⟩
    · exact ⟨c₃, first.tail move, .refl,
        owners_of_pinned_move move (accounts_moves first acc) before pinned⟩

/-- What has as many owners as the mark says is immortal: a mortal object has its count below. -/
theorem pinned_of_owners (acc : c.heap.Accounts c.allRefs) {r : Ref}
    (owners : c.owners r = 2 ^ 32 - 1) : c.heap.Pinned r := by
  have owned : 0 < c.owners r := by
    rw [owners]
    decide
  obtain ⟨o, ho⟩ := acc.live r (Multiset.count_pos.mp owned)
  by_contra mortal
  have count := acc.counted r o ho fun mark => mortal ⟨o, ho, mark⟩
  exact mortal ⟨o, ho, UInt32.toNat_inj.mp (count.trans owners)⟩

theorem tallies_moves (moves : Moves c c') (tallies : c.heap.Tallies c.allExports) :
    c'.heap.Tallies c'.allExports := by
  induction moves with
  | refl => exact tallies
  | tail _ move ih => exact tallies_move move ih

theorem keeps_moves (moves : Moves c c') : c.heap.Keeps c'.heap := by
  induction moves with
  | refl => exact .refl _
  | tail _ move ih => exact ih.trans (keeps_move move)

theorem counts_moves (moves : Moves c c') : c.heap.Counts c'.heap := by
  induction moves with
  | refl => exact .refl _
  | tail _ move ih => exact ih.trans (counts_move move)

end Custody

end NativeBridge
