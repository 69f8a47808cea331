import NativeBridge.Proofs.Buffer.Strategies
import NativeBridge.Proofs.Session.Runs

/-! Views taken and given back, over and over.

    A view that was taken holds one reference to its owner and, unless it is a legacy one, one of
    its exports. Its first release gives both back, which leaves the very heap there was
    (`Heap.releaseView_of_extract`), and forgets the owner, so that any further release finds
    nothing to give back. So whichever way a view goes through a session, the host is afterwards as
    it was, and the next view is the same again (`Session.rounds_restore`). -/

namespace NativeBridge

namespace Heap

variable {h h₁ : Heap} {object : Option Ref} {strategies : List Strategy} {v : View}

/-- An extraction that succeeds leaves one reference to the owner of its view, and the export of
    the strategy that took it. -/
theorem extract_of_ok (owned : h.Owned) (room : h.Room 3)
    (taken : h.extract object strategies = (h₁, .ok v)) (back : ∀ d ∈ v.owner, h.TakesBack d) :
    ∃ data s, (h.acquire data s).2 = some v ∧ h₁ = (h.exported data s).retain data := by
  cases named : (h.getAttribute object dataAttribute).2 with
  | none => cases (extract_of_unnamed named strategies).symm.trans taken
  | some data =>
    cases first : strategies.find? fun s => (h.acquire data s).2.isSome with
    | none =>
      have failed : ∀ s ∈ strategies, (h.acquire data s).2 = none := by
        simpa using List.find?_eq_none.mp first
      obtain ⟨n, _, left⟩ := extract_of_none owned (room.mono (by decide)) named failed
      cases left.symm.trans taken
    | some s =>
      obtain ⟨n, u, lost, yields, left⟩ := extract_of_some owned room named first
      cases left.symm.trans taken
      obtain ⟨_, owner, _⟩ := acquire_of_some yields
      obtain rfl := lost (back data owner)
      exact ⟨data, s, yields, locked_zero _ _⟩

/-- The first release of a view gives back exactly what the extraction took. -/
theorem releaseView_of_extract (owned : h.Owned) (room : h.Room 3)
    (taken : h.extract object strategies = (h₁, .ok v)) (back : ∀ d ∈ v.owner, h.TakesBack d) :
    h₁.releaseView v = (h, v.released) := by
  suffices left : (h₁.releaseView v).1 = h from Prod.ext left (Custody.releaseView_snd h₁ v)
  obtain ⟨data, s, yields, rfl⟩ := extract_of_ok owned room taken back
  obtain ⟨_, owner, mark⟩ := acquire_of_some yields
  have given : (h.retain data).release data = h := release_retain owned (room.mono (by decide)) data
  rw [releaseView, owner]
  cases s with
  | current =>
    obtain ⟨e, exporter⟩ : ∃ e, h.exporter? data = some e := by
      rw [acquire, acquireCurrent] at yields
      split at yields
      · cases yields
      · exact ⟨_, ‹_›⟩
    have same : ((h.lock data).retain data).exporter? data = some e := by
      rw [exporter?_congr (body?_retain _ data data), lock_eq,
        exporter?_congr (body?_locked h data data 1), exporter]
    have current : v.isLegacy = false := by simpa using mark
    have releases : e.releases = true := back data owner e exporter
    simp only [exported, current, same, releases, Option.any_some, Bool.not_false, Bool.and_self,
      if_true, unlock_retain_lock, given]
  | legacy =>
    have legacy : v.isLegacy = true := mark.mpr rfl
    simp only [exported, legacy, Bool.not_true, Bool.false_and, Bool.false_eq_true, if_false, given]

/-- A view that is released already holds nothing more. -/
theorem releaseView_of_unowned (h : Heap) (unowned : v.owner = none) :
    h.releaseView v = (h, v) := by
  rw [releaseView, unowned]

theorem iterate_releaseView (owned : h.Owned) (room : h.Room 3)
    (taken : h.extract object strategies = (h₁, .ok v)) (back : ∀ d ∈ v.owner, h.TakesBack d)
    (again : Nat) :
    (fun p : Heap × View => p.1.releaseView p.2)^[again + 1] (h₁, v) = (h, v.released) := by
  induction again with
  | zero => exact releaseView_of_extract owned room taken back
  | succ again ih =>
    rw [Function.iterate_succ_apply', ih]
    exact releaseView_of_unowned h rfl

end Heap

namespace Host

variable {host host₁ : Host} {object : Option Ref} {out v : View} {start : Address}

theorem iterate_releaseRecordBuffer (owned : host.heap.Owned) (room : host.heap.Room 3)
    (taken : host.extractRecordData object out = (host₁, start, v)) (given : start ≠ .null)
    (back : ∀ d ∈ v.owner, host.heap.TakesBack d) (again : Nat) :
    (fun p : Host × Option View => p.1.releaseRecordBuffer p.2)^[again + 1] (host₁, some v) =
      (host, some v.released) := by
  rcases extracted : host.heap.extract object Strategy.standard with ⟨h, e | u⟩
  · rw [extractRecordData, extracted] at taken
    cases taken
    exact absurd rfl given
  · rw [extractRecordData, extracted] at taken
    cases taken
    have first := Heap.releaseView_of_extract owned room extracted back
    induction again with
    | zero => exact congrArg (fun p : Heap × View => (host.withHeap p.1, some p.2)) first
    | succ again ih =>
      rw [Function.iterate_succ_apply', ih]
      rfl

end Host

namespace Session

/-- Cycles leave no trace, and every one of them shows the same length. -/
theorem cycle_of_extract {h h₁ : Heap} {object : Option Ref} {v : View} (owned : h.Owned)
    (room : h.Room 3) (taken : h.extract object Strategy.standard = (h₁, .ok v))
    (back : ∀ d ∈ v.owner, h.TakesBack d) (times : Nat) (sum : Int) :
    cycle h object times sum = (h, .ok (sum + times * v.length)) := by
  induction times generalizing sum with
  | zero => simp [cycle]
  | succ times ih =>
    rw [cycle, taken]
    dsimp only
    rw [Heap.releaseView_of_extract owned room taken back, ih]
    rw [Nat.cast_succ, add_mul, one_mul, add_comm (_ * _), add_assoc]

/-! ### What is stored under one name -/

theorem lookup_removeView (s : Session) (name other : String) :
    (s.removeView name).views.lookup other =
      if other = name then none else s.views.lookup other := lookup_unbind s.views name other

theorem lookup_setView (s : Session) (name other : String) (held : Held) :
    (s.setView name held).views.lookup other =
      if other = name then some held else s.views.lookup other := by
  show ((name, held) :: (s.removeView name).views).lookup other = _
  rw [List.lookup_cons, lookup_removeView]
  by_cases same : other = name
  · simp [same]
  · have absent : (other == name) = false := by simpa using same
    simp [same, absent]

/-- The session `s` with another host and with `stored` under one name. Views that are released
    may have been forgotten. -/
structure Leaves (s : Session) (name : String) (host : Host) (stored : Option Held)
    (s' : Session) : Prop where
  host : s'.host = host
  names : s'.names = s.names
  byHand : s'.byHand = s.byHand
  stored : s'.views.lookup name = stored
  others : ∀ other, other ≠ name → s'.views.lookup other = s.views.lookup other
  stray : ∃ gone, s'.stray = gone ++ s.stray ∧ ∀ v ∈ gone, v.owner = none

/-- What is stored, if anything, holds nothing. -/
def Vacant (stored : Option Held) : Prop := ∀ held ∈ stored, held.view.owner = none

instance (stored : Option Held) : Decidable (Vacant stored) :=
  inferInstanceAs (Decidable (∀ held ∈ stored, held.view.owner = none))

namespace Leaves

variable {s s' : Session} {name : String} {host : Host} {stored : Option Held}

theorem refl (s : Session) (name : String) : s.Leaves name s.host (s.views.lookup name) s :=
  ⟨rfl, rfl, rfl, rfl, fun _ _ => rfl, [], rfl, nofun⟩

theorem withHost (leaves : s.Leaves name host stored s') (new : Host) :
    s.Leaves name new stored (s'.withHost new) := { leaves with host := rfl }

theorem setView (leaves : s.Leaves name host stored s') (held : Held) :
    s.Leaves name host (some held) (s'.setView name held) :=
  { leaves with
    stored := by rw [lookup_setView, if_pos rfl]
    others := fun other differs => by
      rw [lookup_setView, if_neg differs]
      exact leaves.others other differs }

theorem removeView (leaves : s.Leaves name host stored s') :
    s.Leaves name host none (s'.removeView name) :=
  { leaves with
    stored := by rw [lookup_removeView, if_pos rfl]
    others := fun other differs => by
      rw [lookup_removeView, if_neg differs]
      exact leaves.others other differs }

theorem forget (leaves : s.Leaves name host stored s') {v : View} (unowned : v.owner = none) :
    s.Leaves name host stored { s' with stray := v :: s'.stray } := by
  obtain ⟨gone, same, released⟩ := leaves.stray
  exact { leaves with
    stray := ⟨v :: gone, congrArg (v :: ·) same, List.forall_mem_cons.mpr ⟨unowned, released⟩⟩ }

theorem discardGuard (leaves : s.Leaves name host stored s') (v : View) :
    s.Leaves name (host.withHeap (host.heap.releaseView v).1) stored
      (s'.discard (some ⟨true, v⟩)) := by
  have same : s'.heap = host.heap := congrArg Host.heap leaves.host
  rw [discard, same]
  exact { leaves with host := congrArg (Host.withHeap · _) leaves.host }

/-- What holds nothing goes without a trace. -/
theorem discard (leaves : s.Leaves name host stored s') {old : Option Held}
    (vacant : Vacant old) : s.Leaves name host stored (s'.discard old) := by
  rcases old with _ | ⟨_ | _, v⟩
  · exact leaves
  · exact leaves.forget (vacant _ rfl)
  · have gone := leaves.discardGuard v
    rwa [Heap.releaseView_of_unowned _ (vacant _ rfl)] at gone

/-- What the entry point for buffers may write over holds nothing. -/
theorem vacate (leaves : s.Leaves name host stored s') (vacant : Vacant stored) :
    (∃ stored', s.Leaves name host stored' (s'.vacate name).1) ∧
      (s'.vacate name).2.owner = none := by
  rw [← leaves.stored] at vacant
  unfold Session.vacate
  split
  · rename_i found
    exact ⟨⟨_, leaves⟩, vacant _ found⟩
  · rename_i found
    exact ⟨⟨_, leaves.removeView.discard (found ▸ vacant)⟩, rfl⟩
  · exact ⟨⟨_, leaves⟩, rfl⟩

end Leaves

end Session

/-! ### One step -/

/-- The view that a step took, as its answer shows it. -/
def Answer.takenView? : Answer → Option View
  | .extracted shown .. => some shown.view
  | .entered false _ shown => some shown.view
  | _ => none

namespace Session

/-- The views that steps took, in order. -/
def takenViews (s : Session) (steps : List Step) : List View :=
  (s.run steps).2.filterMap (·.takenView?)

theorem takenViews_append (s : Session) (before after : List Step) :
    s.takenViews (before ++ after) = s.takenViews before ++ (s.run before).1.takenViews after := by
  rw [takenViews, answers_append, List.filterMap_append]
  rfl

theorem takenViews_cons (s : Session) (step : Step) (rest : List Step) :
    s.takenViews (step :: rest) =
      (s.step step).2.takenView?.toList ++ (s.step step).1.takenViews rest := by
  show ((s.step step).2 :: ((s.step step).1.run rest).2).filterMap (·.takenView?) = _
  rw [List.filterMap_cons]
  cases (s.step step).2.takenView? <;> rfl

section Rounds

variable {s s' : Session} {name object : String} {host : Host} {stored : Option Held} {r : Ref}
  {h : Heap} {v : View} {guarded : Bool}

theorem leaves_extract (leaves : s.Leaves name host stored s') (vacant : Vacant stored)
    (bound : s.names.lookup object = some r)
    (taken : host.heap.extract (some r) Strategy.standard = (h, .ok v)) :
    let call := s'.step (.extract (some object) Strategy.standard (some name))
    s.Leaves name (host.withHeap h) (some ⟨true, v⟩) call.1 ∧ call.2.takenView? = some v := by
  have found : s'.names.lookup object = some r := leaves.names ▸ bound
  have extracted : s'.heap.extract (some r) Strategy.standard = (h, .ok v) := by
    rw [heap, leaves.host, taken]
  intro call
  have carried : call = s'.extract (some r) Strategy.standard (some name) := by
    simp only [call, step, withObject?, withObject, found]
  rw [carried, Session.extract, extracted]
  have placed := (leaves.withHost (host.withHeap h)).setView ⟨true, v⟩
  refine ⟨?_, rfl⟩
  have same : s'.withHeap h = s'.withHost (host.withHeap h) := by rw [← leaves.host]; rfl
  dsimp only
  rw [same]
  exact placed.discard (leaves.stored ▸ vacant)

theorem enterExtract_answer (s : Session) (object : Option Ref) (name : String) :
    (s.enterExtract object name).2 =
      let result := (s.vacate name).1.host.extractRecordData object (s.vacate name).2
      .entered (result.2.1 = .null) (result.2.1 = result.2.2.start)
        ((s.enterExtract object name).1.report result.2.2) := rfl

theorem leaves_enterExtract (leaves : s.Leaves name host stored s') (vacant : Vacant stored)
    (bound : s.names.lookup object = some r)
    (taken : host.heap.extract (some r) Strategy.standard = (h, .ok v)) :
    let call := s'.step (.enterExtract (some object) name)
    s.Leaves name (host.withHeap h) (some ⟨false, v⟩) call.1 ∧ call.2.takenView? = some v := by
  have found : s'.names.lookup object = some r := leaves.names ▸ bound
  obtain ⟨⟨left, vacated⟩, unowned⟩ := leaves.vacate vacant
  have entered := Host.extractRecordData_of_ok taken (s'.vacate name).2
  rw [← vacated.host] at entered
  have somewhere := Custody.start_ne_null_of_extract taken
  intro call
  have carried : call = s'.enterExtract (some r) name := by
    simp only [call, step, withObject?, withObject, found]
  constructor
  · rw [carried, enterExtract_eq]
    dsimp only
    rw [entered, if_neg somewhere, vacated.host]
    exact ((vacated.withHost _).forget unowned).setView ⟨false, v⟩
  · rw [carried, enterExtract_answer]
    dsimp only
    rw [entered]
    simp only [somewhere, decide_false]
    rfl

theorem leaves_unguard (leaves : s.Leaves name host (some ⟨guarded, v⟩) s') :
    let call := s'.step (.unguard name)
    s.Leaves name host (some ⟨false, v⟩) call.1 ∧ call.2.takenView? = none := by
  simp only [step, withView, leaves.stored]
  exact ⟨leaves.setView ⟨false, v⟩, rfl⟩

theorem leaves_dropGuard (leaves : s.Leaves name host (some ⟨true, v⟩) s') :
    let call := s'.step (.dropGuard name)
    s.Leaves name (host.withHeap (host.heap.releaseView v).1) none call.1 ∧
      call.2.takenView? = none := by
  simp only [step, withView, leaves.stored]
  exact ⟨leaves.removeView.discardGuard v, rfl⟩

/-- The step releases the view of this name, by a call or through the entry point. -/
inductive IsRelease (name : String) : Step → Prop where
  | call : IsRelease name (.releaseView (some name))
  | entry : IsRelease name (.enterRelease (some name))

/-- A view is released the same way by a call and through the entry point. -/
theorem leaves_release {release : Step} (releases : IsRelease name release)
    (leaves : s.Leaves name host (some ⟨guarded, v⟩) s') :
    let call := s'.step release
    s.Leaves name (host.withHeap (host.heap.releaseView v).1) (some ⟨guarded, v.released⟩) call.1 ∧
      call.2.takenView? = none := by
  have carried : s'.step release = s'.releaseStored name ⟨guarded, v⟩ := by
    cases releases <;> simp only [step, withView, leaves.stored, enterRelease_eq]
  rw [carried]
  refine ⟨?_, rfl⟩
  show s.Leaves name _ _ ((s'.withHeap (s'.heap.releaseView v).1).setView name
    ⟨guarded, (s'.heap.releaseView v).2⟩)
  rw [Custody.releaseView_snd]
  have same : s'.withHeap (s'.heap.releaseView v).1 =
      s'.withHost (host.withHeap (host.heap.releaseView v).1) := by rw [← leaves.host]; rfl
  rw [same]
  exact (leaves.withHost _).setView ⟨guarded, v.released⟩

/-! ### Rounds -/

/-- Releases of a view that is released already leave everything as it is. -/
theorem leaves_releases {release : Step} (releases : IsRelease name release)
    (leaves : s.Leaves name host (some ⟨guarded, v.released⟩) s') (again : Nat) :
    s.Leaves name host (some ⟨guarded, v.released⟩) (s'.run (List.replicate again release)).1 ∧
      s'.takenViews (List.replicate again release) = [] := by
  induction again generalizing s' with
  | zero => exact ⟨leaves, rfl⟩
  | succ again ih =>
    obtain ⟨left, nothing⟩ := leaves_release releases leaves
    obtain ⟨rest, none⟩ := ih left
    rw [List.replicate_succ, takenViews_cons, nothing, none]
    exact ⟨rest, rfl⟩

/-- The first release gives back what the view holds, and the others nothing. -/
theorem leaves_all_releases {release : Step} (releases : IsRelease name release)
    (leaves : s.Leaves name (s.host.withHeap h) (some ⟨guarded, v⟩) s')
    (given : h.releaseView v = (s.heap, v.released)) (again : Nat) :
    s.Leaves name s.host (some ⟨guarded, v.released⟩)
        (s'.run (List.replicate (again + 1) release)).1 ∧
      s'.takenViews (List.replicate (again + 1) release) = [] := by
  obtain ⟨left, nothing⟩ := leaves_release releases leaves
  have back : (s.host.withHeap h).withHeap (h.releaseView v).1 = s.host := by rw [given]; rfl
  have first : s.Leaves name s.host (some ⟨guarded, v.released⟩) (s'.step release).1 := back ▸ left
  obtain ⟨rest, none⟩ := leaves_releases releases first again
  rw [List.replicate_succ, takenViews_cons, nothing, none]
  exact ⟨rest, rfl⟩

/-- A guard that goes gives back what its view holds, unless that was released before. -/
theorem leaves_releases_dropGuard (leaves : s.Leaves name (s.host.withHeap h) (some ⟨true, v⟩) s')
    (given : h.releaseView v = (s.heap, v.released)) (again : Nat) :
    let steps := List.replicate again (.releaseView (some name)) ++ [.dropGuard name]
    s.Leaves name s.host none (s'.run steps).1 ∧ s'.takenViews steps = [] := by
  intro steps
  have dropped : ∀ {host : Host} {u : View} {t : Session}, s.Leaves name host (some ⟨true, u⟩) t →
      host.withHeap (host.heap.releaseView u).1 = s.host →
      s.Leaves name s.host none (t.run [.dropGuard name]).1 ∧
        t.takenViews [.dropGuard name] = [] := by
    intro host u t stands back
    obtain ⟨left, nothing⟩ := leaves_dropGuard stands
    rw [back] at left
    rw [takenViews_cons, nothing]
    exact ⟨left, rfl⟩
  cases again with
  | zero => exact dropped leaves (by show s.host.withHeap (h.releaseView v).1 = _; rw [given]; rfl)
  | succ again =>
    obtain ⟨released, nothing⟩ := leaves_all_releases .call leaves given again
    obtain ⟨gone, none⟩ := dropped released rfl
    rw [run_append, takenViews_append, nothing, none]
    exact ⟨gone, rfl⟩

/-- A way for a view to go: it is taken as a guard, which is dropped in the end; or as a guard that
    is made a raw view, which is released; or through the entry point, which also releases it. -/
inductive Route where
  | guard | raw | entry
  deriving DecidableEq

/-- Takes a view of `object` as `name` and releases it, `again` times more than need be. -/
def Route.steps (object name : String) (again : Nat) : Route → List Step
  | .guard => .extract (some object) Strategy.standard (some name) ::
      (List.replicate again (.releaseView (some name)) ++ [.dropGuard name])
  | .raw => .extract (some object) Strategy.standard (some name) :: .unguard name ::
      List.replicate (again + 1) (.releaseView (some name))
  | .entry => .enterExtract (some object) name ::
      List.replicate (again + 1) (.enterRelease (some name))

/-- What then stands under the name of the view. -/
def Route.left (v : View) : Route → Option Held
  | .guard => none
  | .raw | .entry => some ⟨false, v.released⟩

theorem Route.vacant_left (v : View) (route : Route) : Vacant (route.left v) := by
  cases route
  · exact nofun
  all_goals
    rintro _ ⟨⟩
    rfl

variable (bound : s.names.lookup object = some r)
  (taken : s.heap.extract (some r) Strategy.standard = (h, .ok v))
  (given : h.releaseView v = (s.heap, v.released))

include bound taken given

/-- Whatever way a view goes, the host is then as it was. -/
theorem leaves_round (route : Route) (again : Nat) (leaves : s.Leaves name s.host stored s')
    (vacant : Vacant stored) :
    s.Leaves name s.host (route.left v) (s'.run (route.steps object name again)).1 ∧
      s'.takenViews (route.steps object name again) = [v] := by
  obtain ⟨held, shown⟩ := leaves_extract leaves vacant bound taken
  obtain ⟨entered, answered⟩ := leaves_enterExtract leaves vacant bound taken
  cases route with
  | guard =>
    obtain ⟨gone, nothing⟩ := leaves_releases_dropGuard held given again
    rw [Route.steps, takenViews_cons, shown, nothing]
    exact ⟨gone, rfl⟩
  | raw =>
    obtain ⟨raw, silent⟩ := leaves_unguard held
    obtain ⟨released, nothing⟩ := leaves_all_releases .call raw given again
    rw [Route.steps, takenViews_cons, takenViews_cons, shown, silent, nothing]
    exact ⟨released, rfl⟩
  | entry =>
    obtain ⟨released, nothing⟩ := leaves_all_releases .entry entered given again
    rw [Route.steps, takenViews_cons, answered, nothing]
    exact ⟨released, rfl⟩

theorem leaves_rounds (rounds : List (Route × Nat)) (leaves : s.Leaves name s.host stored s')
    (vacant : Vacant stored) :
    let steps := rounds.flatMap fun round => round.1.steps object name round.2
    s.Leaves name s.host (rounds.getLast?.elim stored fun last => last.1.left v) (s'.run steps).1 ∧
      s'.takenViews steps = List.replicate rounds.length v := by
  induction rounds generalizing s' stored with
  | nil => exact ⟨leaves, rfl⟩
  | cons round rest ih =>
    obtain ⟨left, one⟩ := leaves_round bound taken given round.1 round.2 leaves vacant
    obtain ⟨all, others⟩ := ih left (round.1.vacant_left v)
    simp only [List.flatMap_cons, run_append, takenViews_append, one, others, List.getLast?_cons]
    refine ⟨?_, rfl⟩
    cases last : rest.getLast? with
    | none => rwa [last] at all
    | some _ => rwa [last] at all

end Rounds

/-- Along a balanced run, whatever is taken can be given back without a trace: the first release of
    a view restores the heap, or the host if it went through the entry points, and further releases
    change nothing; the view keeps all but its owner. So rounds of taking and releasing views under
    a name that holds nothing restore the host, and each shows the same view. -/
theorem rounds_restore (runtime : Option Services) (census : Census) {steps : List Step}
    (balanced : (opened runtime census).Balanced steps)
    (room : ((opened runtime census).run steps).1.heap.Room 16) :
    let s := ((opened runtime census).run steps).1
    (∀ object strategies h v, s.heap.extract object strategies = (h, .ok v) →
        (∀ d ∈ v.owner, s.heap.TakesBack d) → ∀ again : Nat,
          (fun p : Heap × View => p.1.releaseView p.2)^[again + 1] (h, v) =
            (s.heap, v.released)) ∧
      (∀ object out host start v, s.host.extractRecordData object out = (host, start, v) →
        start ≠ .null → (∀ d ∈ v.owner, s.heap.TakesBack d) → ∀ again : Nat,
          (fun p : Host × Option View => p.1.releaseRecordBuffer p.2)^[again + 1] (host, some v) =
            (s.host, some v.released)) ∧
      ∀ object r v, s.names.lookup object = some r →
        (s.heap.extract (some r) Strategy.standard).2 = .ok v →
        (∀ d ∈ v.owner, s.heap.TakesBack d) →
          (∀ name, Vacant (s.views.lookup name) → ∀ rounds : List (Route × Nat),
            let cycles := rounds.flatMap fun round => round.1.steps object name round.2
            let left := rounds.getLast?.elim (s.views.lookup name) fun last => last.1.left v
            s.Leaves name s.host left (s.run cycles).1 ∧
              s.takenViews cycles = List.replicate rounds.length v) ∧
          ∀ times : Nat,
            s.step (.cycle (some object) times) = (s, .number (times * v.length)) := by
  intro s
  have sound : s.custody.Sound :=
    sound_run (tidy_opened runtime census) (sound_opened runtime census) balanced
  have owned : s.heap.Owned := sound.accounts.isOwned
  have roomy : s.heap.Room 3 := room.mono (by decide)
  refine ⟨?_, ?_, ?_⟩
  · intro object strategies h v taken back again
    exact Heap.iterate_releaseView owned roomy taken back again
  · intro object out host start v taken somewhere back again
    exact Host.iterate_releaseRecordBuffer owned roomy taken somewhere back again
  · intro object r v bound yields back
    have taken : s.heap.extract (some r) Strategy.standard = (_, .ok v) := Prod.ext rfl yields
    have given := Heap.releaseView_of_extract owned roomy taken back
    constructor
    · intro name vacant rounds
      exact leaves_rounds bound taken given rounds (.refl s name) vacant
    · intro times
      have counted := cycle_of_extract owned roomy taken back times 0
      simp only [step, withObject?, withObject, bound, cycles, counted, zero_add]
      rfl

/-- An error waits while a window into bytes, which stays locked by an older view, is taken in each
    of the ways. -/
theorem rounds_restore_of_window :
    let steps : List Step :=
      [.make (.bytes [1, 2, 3, 4]) (some "b"), .make (.window ⟨some "b", none, -1, 1⟩) (some "w"),
        .make (.holder "b") (some "h"), .make (.holder "w") (some "l"),
        .extract (some "h") Strategy.standard (some "old"), .enterExtract none "v"]
    let s := ((opened none .initial).run steps).1
    let rounds : List (Route × Nat) := [(.raw, 2), (.guard, 1), (.entry, 0)]
    let v : View := ⟨.object 1 1, some 2, 3, 1, 1, 1, true⟩
    s.host.pending = some (.extract .noDataAttribute) ∧
      (s.run (rounds.flatMap fun round => round.1.steps "l" "v" round.2)).1.host = s.host ∧
      s.takenViews (rounds.flatMap fun round => round.1.steps "l" "v" round.2) = [v, v, v] ∧
      s.step (.cycle (some "l") 10000) = (s, .number 30000) ∧
      s.step (.cycle (some "h") 10000) = (s, .number 40000) := by
  intro steps s rounds v
  have balanced : (opened none .initial).Balanced steps := by decide +kernel
  have room : s.heap.Room 16 := by decide +kernel
  obtain ⟨_, _, named⟩ := rounds_restore none .initial balanced room
  have taken : (s.heap.extract (some 4) Strategy.standard).2 = .ok v := by decide +kernel
  have back : ∀ d ∈ v.owner, s.heap.TakesBack d := by decide +kernel
  have vacant : Vacant (s.views.lookup "v") := by decide +kernel
  obtain ⟨all, cycles⟩ := named "l" 4 v (by decide +kernel) taken back
  have reached : ((opened none .initial).run steps).1 = s := rfl
  obtain ⟨leaves, shown⟩ := all "v" vacant rounds
  rw [reached] at leaves
  have locked : (s.heap.extract (some 3) Strategy.standard).2 =
      .ok ⟨.object 1 0, some 1, 4, 1, 1, 1, false⟩ := by decide +kernel
  obtain ⟨_, again⟩ := named "h" 3 _ (by decide +kernel) locked (by decide +kernel)
  refine ⟨by decide +kernel, leaves.host, shown, ?_, ?_⟩
  · simpa [v] using cycles 10000
  · simpa using again 10000

end Session

end NativeBridge
