import NativeBridge.Host

/-! The errors that wait on the threads.

    Parking and taking act on the slot of the calling thread alone (`Host.Parks`, `Host.Apart`). A
    thread that is started finds its slot empty (`Host.takeErrorElsewhere_eq`). -/

namespace NativeBridge

/-- A table without a name answers as before under the others. -/
theorem lookup_unbind {κ α : Type} [BEq κ] [LawfulBEq κ] [DecidableEq κ] (table : List (κ × α))
    (name other : κ) :
    (table.filter fun entry => entry.1 ≠ name).lookup other =
      if other = name then none else table.lookup other := by
  induction table with
  | nil => exact (ite_self none).symm
  | cons entry rest ih =>
    obtain ⟨key, value⟩ := entry
    by_cases asked : other = name
    · by_cases gone : key = name
      · rw [List.filter_cons_of_neg (by simpa using gone), ih, if_pos asked, if_pos asked]
      · have absent : (other == key) = false := by simpa [asked] using Ne.symm gone
        rw [List.filter_cons_of_pos (by simpa using gone), List.lookup_cons, absent, ih]
        simp [asked]
    · by_cases gone : key = name
      · have absent : (other == key) = false := by simpa [gone] using asked
        rw [List.filter_cons_of_neg (by simpa using gone), ih, List.lookup_cons, absent]
      · rw [List.filter_cons_of_pos (by simpa using gone), List.lookup_cons, List.lookup_cons, ih,
          if_neg asked, if_neg asked]

namespace Host

variable {host host' host'' : Host} {thread : Thread} {error : HelperError}

/-! ### One slot -/

theorem lookup_elsewhere (host : Host) (thread : Thread) :
    host.elsewhere.lookup thread = if thread = host.thread then none else host.pendingOn thread :=
  lookup_unbind host.parked host.thread thread

theorem pendingOn_setError (host : Host) (error : HelperError) (thread : Thread) :
    (host.setError error).pendingOn thread =
      if thread = host.thread then some error else host.pendingOn thread := by
  rw [pendingOn, setError, List.lookup_cons, lookup_elsewhere]
  by_cases own : thread = host.thread
  · simp [own]
  · rw [beq_false_of_ne own, if_neg own, if_neg own]

theorem pendingOn_takeError (host : Host) (thread : Thread) :
    host.takeError.1.pendingOn thread =
      if thread = host.thread then none else host.pendingOn thread :=
  host.lookup_elsewhere thread

@[simp] theorem pending_setError (host : Host) (error : HelperError) :
    (host.setError error).pending = some error :=
  (host.pendingOn_setError error host.thread).trans (if_pos rfl)

@[simp] theorem pending_takeError (host : Host) : host.takeError.1.pending = none :=
  (host.pendingOn_takeError host.thread).trans (if_pos rfl)

/-- What is parked and taken leaves the slot empty, whatever was in it. -/
@[simp] theorem takeError_setError (host : Host) (error : HelperError) :
    (host.setError error).takeError = (host.takeError.1, some error) := by
  refine Prod.ext ?_ (host.pending_setError error)
  simp [takeError, setError, elsewhere]

/-- There is nothing to take from an empty slot. -/
theorem takeError_of_settled (settled : host.pending = none) : host.takeError = (host, none) := by
  have others : host.elsewhere = host.parked := by
    refine List.filter_eq_self.mpr fun entry mem => ?_
    have absent := bne_iff_ne.mp (List.lookup_eq_none_iff.mp settled entry mem)
    exact decide_eq_true absent.symm
  rw [takeError, others, settled]

/-! ### All slots -/

/-- The same thread calls, and every slot is as it was. -/
structure SameErrors (host host' : Host) : Prop where
  thread : host'.thread = host.thread
  parked : host'.parked = host.parked

/-- The same thread calls, and the slots of the others are as they were. -/
structure Apart (host host' : Host) : Prop where
  thread : host'.thread = host.thread
  others : ∀ thread, thread ≠ host.thread → host'.pendingOn thread = host.pendingOn thread

/-- The failure, if there is one, is parked on the thread that calls. -/
structure Parks (host : Host) (failure : Option HelperError) (host' : Host) : Prop extends
    Apart host host' where
  pending : host'.pending = failure.or host.pending

theorem apart_takeError (host : Host) : host.Apart host.takeError.1 :=
  ⟨rfl, fun thread other => (host.pendingOn_takeError thread).trans (if_neg other)⟩

theorem parks_setError (host : Host) (error : HelperError) :
    host.Parks (some error) (host.setError error) :=
  ⟨⟨rfl, fun thread other => (host.pendingOn_setError error thread).trans (if_neg other)⟩,
    host.pending_setError error⟩

namespace SameErrors

theorem pendingOn (same : host.SameErrors host') (thread : Thread) :
    host'.pendingOn thread = host.pendingOn thread := by
  rw [Host.pendingOn, Host.pendingOn, same.parked]

theorem pending (same : host.SameErrors host') : host'.pending = host.pending := by
  rw [Host.pending, Host.pending, same.thread, same.pendingOn]

theorem parks (same : host.SameErrors host') : host.Parks none host' :=
  ⟨⟨same.thread, fun thread _ => same.pendingOn thread⟩, same.pending⟩

end SameErrors

namespace Parks

variable {failure : Option HelperError}

theorem of_same (same : host.SameErrors host') (parks : host'.Parks failure host'') :
    host.Parks failure host'' :=
  ⟨⟨parks.thread.trans same.thread, fun thread other =>
    (parks.others thread (same.thread ▸ other)).trans (same.pendingOn thread)⟩,
    by rw [parks.pending, same.pending]⟩

theorem trans_same (parks : host.Parks failure host') (same : host'.SameErrors host'') :
    host.Parks failure host'' :=
  ⟨⟨same.thread.trans parks.thread, fun thread other =>
    (same.pendingOn thread).trans (parks.others thread other)⟩,
    same.pending.trans parks.pending⟩

end Parks

/-! ### Another thread -/

theorem le_foldr_max {parked : List (Thread × HelperError)} {entry : Thread × HelperError}
    (mem : entry ∈ parked) (thread : Thread) :
    entry.1 ≤ parked.foldr (fun entry top => max entry.1 top) thread := by
  induction parked with
  | nil => cases mem
  | cons first rest ih =>
    rcases List.mem_cons.mp mem with rfl | later
    · exact Nat.le_max_left ..
    · exact Nat.le_trans (ih later) (Nat.le_max_right ..)

/-- Nothing waits on a thread that is started now. -/
theorem pendingOn_newThread (host : Host) : host.pendingOn host.newThread = none := by
  refine List.lookup_eq_none_iff.mpr fun entry mem => bne_iff_ne.mpr ?_
  exact Nat.ne_of_gt (Nat.lt_succ_of_le (le_foldr_max mem host.thread))

/-- The other thread has nothing to take, and leaves everything as it was. -/
theorem takeErrorElsewhere_eq (host : Host) : host.takeErrorElsewhere = (host, none) := by
  have settled : (host.on host.newThread).pending = none := host.pendingOn_newThread
  rw [takeErrorElsewhere, takeError_of_settled settled]
  rfl

end Host

end NativeBridge
