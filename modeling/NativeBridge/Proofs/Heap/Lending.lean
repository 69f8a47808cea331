import NativeBridge.Proofs.Heap.Growth

/-! What is taken and given back leaves no trace.

    A reference that is taken and given back leaves the very heap there was, provided that the
    object has an owner and its count has room (`Heap.release_retain`); an export that is counted
    and counted back does so anywhere (`Heap.unlock_lock`). References and exports do not get in
    each other's way, so each can be followed without the other. -/

namespace NativeBridge.Heap

variable {h : Heap} {r : Ref} {m n : Nat}

/-! ### Objects with owners -/

/-- Whatever is allocated has an owner. -/
def Owned (h : Heap) : Prop := ∀ r o, h.get? r = some o → o.count ≠ 0

instance (h : Heap) : Decidable h.Owned := decidable_of_iff _ forall_object_iff.symm

theorem Accounts.isOwned {out : Multiset Ref} (acc : h.Accounts out) : h.Owned := acc.positive

theorem Same.owned {h' : Heap} (same : h.Same h') (owned : h.Owned) : h'.Owned := by
  intro r o found
  exact owned r o ((same.objects r).symm.trans found)

theorem Owned.update {change : Object → Object} (owned : h.Owned)
    (kept : ∀ o, o.count ≠ 0 → (change o).count ≠ 0) : (h.update r change).Owned := by
  intro t o' ho'
  rw [get?_update] at ho'
  split at ho'
  · obtain ⟨o, ho, rfl⟩ := Option.map_eq_some_iff.mp ho'
    exact kept o (owned t o ho)
  · exact owned t o' ho'

theorem Owned.retain (owned : h.Owned) (r : Ref) : (h.retain r).Owned :=
  owned.update fun _ _ => RefCount.retain_ne_zero _

/-! ### References -/

theorem release_of_missing (missing : h.get? r = none) : h.release r = h := by
  rw [release, releaseAll]
  split
  · exact releaseAll_nil h
  · simp_all

/-- The object has an owner, and its count has room for what is borrowed. -/
def Lends (h : Heap) (r : Ref) : Prop :=
  ∃ o, h.get? r = some o ∧ o.count ≠ 0 ∧ (o.count = .pinned ∨ o.count.toNat < pow2 32 - 2)

/-- A new object can be borrowed as long as its count is small. -/
theorem Grown.lends {g : Heap} {o : Object} {news : List (Ref × Object)} (grown : g.Grown news h)
    (mem : (r, o) ∈ news) (positive : o.count ≠ 0) (room : o.count.toNat < pow2 32 - 2) :
    h.Lends r :=
  ⟨o, grown.new _ mem, positive, .inr room⟩

/-- A reference to such an object that is taken and given back leaves no trace. -/
theorem Lends.release_retain (lends : h.Lends r) : (h.retain r).release r = h := by
  obtain ⟨o, found, positive, room⟩ := lends
  obtain ⟨rest, released⟩ := RefCount.release_retain positive
  obtain rfl := RefCount.eq_of_release_retain room released
  have both : h.lent (some r) = _ := lent_some found released
  rw [lent, Heap.retain, update_update] at both
  rw [Heap.retain, both]
  refine update_eq_self fun p hp => ?_
  cases hp.symm.trans found
  rfl

/-- A reference that is taken and given back leaves no trace. -/
theorem release_retain (owned : h.Owned) (room : h.Room 2) (r : Ref) :
    (h.retain r).release r = h := by
  cases found : h.get? r with
  | none =>
    have same : h.retain r = h := update_eq_self fun o ho => by
      rw [found] at ho
      cases ho
    rw [same, release_of_missing found]
  | some o => exact Lends.release_retain ⟨o, found, owned r o found, room r o found⟩

/-! ### Exports -/

/-- The heap with more exports of one object counted. -/
def locked (h : Heap) (r : Ref) (n : Nat) : Heap :=
  h.update r fun o => { o with exports := o.exports + n }

theorem lock_eq (h : Heap) (r : Ref) : h.lock r = h.locked r 1 := rfl

@[simp] theorem locked_zero (h : Heap) (r : Ref) : h.locked r 0 = h :=
  update_eq_self fun o _ => by simp

theorem locked_locked (h : Heap) (r : Ref) (m n : Nat) :
    (h.locked r m).locked r n = h.locked r (m + n) := by
  rw [locked, locked, update_update]
  refine update_congr fun o _ => ?_
  simp [add_assoc]

/-- An export that is counted and counted back leaves no trace. -/
theorem unlock_lock (h : Heap) (r : Ref) : (h.lock r).unlock r = h := by
  rw [lock, unlock, update_update]
  exact update_eq_self fun o _ => by simp

theorem body?_locked (h : Heap) (r t : Ref) (n : Nat) : (h.locked r n).body? t = h.body? t :=
  body?_update h r t _ fun _ => rfl

theorem Owned.locked (owned : h.Owned) (r : Ref) (n : Nat) : (h.locked r n).Owned :=
  owned.update fun _ => id

theorem Room.locked {room : Nat} (roomy : h.Room room) (r : Ref) (n : Nat) :
    (h.locked r n).Room room :=
  roomy.update fun _ => rfl

/-! ### References and exports -/

theorem retain_locked (h : Heap) (r : Ref) (n : Nat) :
    (h.locked r n).retain r = (h.retain r).locked r n := by
  rw [locked, locked, retain, retain, update_update, update_update]
  rfl

theorem unlock_retain_lock (h : Heap) (r : Ref) : ((h.lock r).retain r).unlock r = h.retain r := by
  rw [lock_eq, retain_locked, ← lock_eq, unlock_lock]

end NativeBridge.Heap
