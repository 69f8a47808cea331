import NativeBridge.Proofs.Host.EntryPoints
import NativeBridge.Proofs.Session.Runs

/-! Which failure is pending in a session.

    A failed entry point parks its failure, as does the step that sets one by hand; nothing else but
    taking touches what is pending. The entry points park exactly the failures of the calls they
    stand for, and each on the thread that calls (`Session.parks_step`). So a step that takes what
    is pending gets the latest of them since it was last taken on that thread, whatever the other
    threads did in between (`Session.pendingOn_runOn`). -/

namespace NativeBridge.Session

variable {s : Session}

/-- The failure that a step parks: the one it is given, or that of the call behind an entry point
    whose arguments are bound. -/
def failure? (s : Session) : Step → Option HelperError
  | .setError error => some error
  | .enterAdaptor object =>
    (resolveOption? (List.lookup · s.names) object).bind fun r =>
      (errorOf (s.heap.adapt r).2).map .conversion
  | .enterExtract object view =>
    (resolveOption? (List.lookup · s.names) object).bind fun r =>
      (errorOf ((s.vacate view).1.heap.extract r Strategy.standard).2).map .extract
  | .enterRecreate data size dtype _ =>
    (resolveOption? (List.lookup · s.names) dtype).bind fun r =>
      let (h, start) := s.heap.place? data
      (errorOf ((s.host.withHeap h).rebuild start size r).2).map .reconstruct
  | _ => none

/-- The failures that a run parks, in order. -/
def failures (s : Session) : List Step → List HelperError
  | [] => []
  | step :: rest => (s.failure? step).toList ++ (s.step step).1.failures rest

/-- The failures that a run over several threads parks on one of them, in order. -/
def failuresOn (s : Session) (thread : Thread) : List (Thread × Step) → List HelperError
  | [] => []
  | (other, step) :: rest =>
    (if other = thread then ((s.on other).failure? step).toList else []) ++
      ((s.on other).step step).1.failuresOn thread rest

/-! ### One step -/

theorem sameErrors_discard (s : Session) (old : Option Held) :
    s.host.SameErrors (s.discard old).host := by rcases old with _ | ⟨_ | _, v⟩ <;> exact ⟨rfl, rfl⟩

theorem sameErrors_extract (s : Session) (object : Option Ref) (strategies : List Strategy)
    (name : Option String) : s.host.SameErrors (s.extract object strategies name).1.host := by
  unfold extract
  split
  · exact ⟨rfl, rfl⟩
  · rename_i h view _
    cases name with
    | none =>
      have same := sameErrors_discard (s.withHeap h) (some ⟨true, view⟩)
      exact ⟨same.thread, same.parked⟩
    | some name =>
      have same := sameErrors_discard ((s.withHeap h).setView name ⟨true, view⟩)
        (s.views.lookup name)
      exact ⟨same.thread, same.parked⟩

theorem sameErrors_vacate (s : Session) (name : String) :
    s.host.SameErrors (s.vacate name).1.host := by
  unfold vacate
  split <;> exact ⟨rfl, rfl⟩

theorem parks_enterExtract (s : Session) (object : Option Ref) (name : String) :
    s.host.Parks (((errorOf ((s.vacate name).1.heap.extract object Strategy.standard).2).map
      HelperError.extract)) (s.enterExtract object name).1.host := by
  have refines := (s.vacate name).1.host.refines_extractRecordData object (s.vacate name).2
  refine (refines.parks.of_same (sameErrors_vacate s name)).trans_same ?_
  rw [enterExtract_eq]
  dsimp only
  split <;> exact ⟨rfl, rfl⟩

theorem parks_enterRecreate (s : Session) (data : Contents) (size : Int) (dtype : Option Ref)
    (as : Option String) :
    s.host.Parks ((errorOf ((s.host.withHeap (s.heap.place? data).1).rebuild
      (s.heap.place? data).2 size dtype).2).map HelperError.reconstruct)
      (s.enterRecreate data size dtype as).1.host := by
  have refines := (s.host.withHeap (s.heap.place? data).1).refines_recreateRecord
    (s.heap.place? data).2 size dtype
  have placed : s.host.SameErrors (s.host.withHeap (s.heap.place? data).1) := ⟨rfl, rfl⟩
  exact (refines.parks.of_same placed).trans_same
    (frames_answerObject (s.withHost _) _ as).errors

/-- The failure of the step is parked on the thread that it is carried out on. -/
def Parks (s : Session) (step : Step) (s' : Session) : Prop :=
  s.host.Parks (s.failure? step) s'.host

/-- An entry point whose arguments are bound parks the failure of its call. -/
theorem parks_resolved {step : Step} {name : Option String}
    {failed : Option Ref → Option HelperError} {next : Option Ref → Session × Answer}
    (parked : s.failure? step = (resolveOption? (List.lookup · s.names) name).bind failed)
    (each : ∀ r, s.host.Parks (failed r) (next r).1.host) :
    s.Parks step (s.withObject? name next).1 := by
  refine of_resolved ?_ ?_
  · intro unbound
    rw [Parks, parked, unbound]
    exact (Host.SameErrors.mk rfl rfl).parks
  · intro r bound
    rw [Parks, parked, bound]
    exact each r

/-- A step that takes nothing parks its failure, or leaves everything that is pending. -/
theorem parks_step (s : Session) {step : Step} (other : step ≠ .takeError) :
    s.Parks step (s.step step).1 := by
  have same : s.host.Parks none s.host := (Host.SameErrors.mk rfl rfl).parks
  cases step with
  | extract object strategies name =>
    refine of_withObject? same fun r _ => ?_
    exact (sameErrors_extract s r strategies name).parks
  | unguard => exact of_withView same fun _ _ => same
  | dropGuard view =>
    refine of_withView same fun old _ => ?_
    exact (sameErrors_discard (s.removeView view) (some old)).parks
  | releaseView view | enterRelease view =>
    cases view with
    | none => exact same
    | some view => exact of_withView same fun _ _ => Host.Parks.mk ⟨rfl, fun _ _ => rfl⟩ rfl
  | enterAdaptor object =>
    exact parks_resolved rfl fun r => (s.host.refines_complexAdaptor r outputBefore).parks
  | enterExtract object view => exact parks_resolved rfl fun r => parks_enterExtract s r view
  | enterRecreate data size dtype as =>
    exact parks_resolved rfl fun r => parks_enterRecreate s data size r as
  | setError error => exact s.host.parks_setError error
  | takeError => exact absurd rfl other
  | _ => exact (s.frames_step rfl).errors.parks

/-- No step touches what is pending on another thread. -/
theorem apart_step (s : Session) (step : Step) : s.host.Apart (s.step step).1.host := by
  by_cases taken : step = .takeError
  · subst taken
    exact s.host.apart_takeError
  · have parks : s.host.Parks _ _ := parks_step s taken
    exact parks.toApart

/-! ### Runs -/

theorem runOn_append (s : Session) (before after : List (Thread × Step)) :
    s.runOn (before ++ after) = (s.runOn before).runOn after := by
  induction before generalizing s with
  | nil => rfl
  | cons first rest ih => exact ih _

/-- A run is one over a single thread. -/
theorem run_eq_runOn (s : Session) (steps : List Step) :
    (s.run steps).1 = s.runOn (steps.map (s.host.thread, ·)) ∧
      s.failures steps = s.failuresOn s.host.thread (steps.map (s.host.thread, ·)) := by
  induction steps generalizing s with
  | nil => exact ⟨rfl, rfl⟩
  | cons step rest ih =>
    obtain ⟨reached, parked⟩ := ih (s.step step).1
    rw [(apart_step s step).thread] at reached parked
    refine ⟨reached, ?_⟩
    rw [failures, parked, List.map_cons, failuresOn, if_pos rfl]
    rfl

/-- After steps that take nothing from a thread, the latest failure they parked on it is pending
    there, or what was before. -/
theorem pendingOn_runOn (s : Session) (thread : Thread) {steps : List (Thread × Step)}
    (none : (thread, .takeError) ∉ steps) :
    (s.runOn steps).host.pendingOn thread =
      (s.failuresOn thread steps).getLast?.or (s.host.pendingOn thread) := by
  induction steps generalizing s with
  | nil => rfl
  | cons first rest ih =>
    obtain ⟨other, step⟩ := first
    obtain ⟨here, later⟩ := not_or.mp fun mem => none (List.mem_cons.mpr mem)
    rw [runOn, ih _ later, failuresOn, List.getLast?_append, Option.or_assoc]
    congr 1
    by_cases own : other = thread
    · subst own
      have untaken : step ≠ .takeError := fun taken => here (by rw [taken])
      have parks : (s.on other).host.Parks _ _ := parks_step (s.on other) untaken
      have pending := parks.pending
      rw [Host.pending, parks.thread] at pending
      refine pending.trans ?_
      rw [if_pos rfl]
      cases (s.on other).failure? step <;> rfl
    · rw [if_neg own]
      exact (apart_step (s.on other) step).others thread (Ne.symm own)

/-- Nothing is pending on a thread where a run starts, or where it was just taken. -/
theorem pendingOn_of_taken (runtime : Option Services) (census : Census) {thread : Thread}
    {before : List (Thread × Step)}
    (taken : before = [] ∨ ∃ first, before = first ++ [(thread, .takeError)]) :
    ((opened runtime census).runOn before).host.pendingOn thread = none := by
  rcases taken with rfl | ⟨first, rfl⟩
  · rfl
  · rw [runOn_append]
    exact (((opened runtime census).runOn first).on thread).host.pending_takeError

theorem thread_run (s : Session) (steps : List Step) :
    (s.run steps).1.host.thread = s.host.thread := by
  induction steps generalizing s with
  | nil => rfl
  | cons step rest ih => exact (ih _).trans (apart_step s step).thread

theorem pending_run (s : Session) {steps : List Step} (none : .takeError ∉ steps) :
    (s.run steps).1.host.pending = (s.failures steps).getLast?.or s.host.pending := by
  obtain ⟨reached, parked⟩ := run_eq_runOn s steps
  rw [Host.pending, thread_run, reached, parked]
  exact pendingOn_runOn s s.host.thread (by simpa using none)

theorem pending_of_taken (runtime : Option Services) (census : Census) {before : List Step}
    (taken : before = [] ∨ ∃ first, before = first ++ [.takeError]) :
    ((opened runtime census).run before).1.host.pending = none := by
  rw [Host.pending, thread_run, (run_eq_runOn _ before).1]
  refine pendingOn_of_taken runtime census (taken.imp (congrArg _) ?_)
  rintro ⟨first, rfl⟩
  exact ⟨_, List.map_append⟩

/-- What is taken from a thread is the latest failure parked on it since the last taking. -/
theorem takeError_runOn (runtime : Option Services) (census : Census) {thread : Thread}
    {before steps : List (Thread × Step)}
    (taken : before = [] ∨ ∃ first, before = first ++ [(thread, .takeError)])
    (none : (thread, .takeError) ∉ steps) :
    let s := (opened runtime census).runOn before
    (((s.runOn steps).on thread).step .takeError).2 =
      .pending (s.failuresOn thread steps).getLast? := by
  intro s
  have pending := pendingOn_runOn s thread none
  rw [pendingOn_of_taken runtime census taken, Option.or_none] at pending
  exact congrArg Answer.pending pending

/-- Each entry point refines the call it stands for: its sentinel means failure and failure means
    its sentinel, then the output is as before and that failure is pending; otherwise the result is
    handed over with its reference and, if it is a view taken from an exporter, its export. So a
    step that takes the pending failure gets the latest one parked since the last such step, and a
    thread that is started gets none. Where steps are spread over threads, each thread takes what
    was parked on it. -/
theorem entry_points_refine :
    (∀ (host : Host) (value : Option Ref) (out : Complex),
      let call := host.heap.adapt value
      let answer := host.complexAdaptor value out
      host.Refines answer.1 call .conversion (answer.2.1 = 0) (answer.2.2 = out)
        (fun number => answer.2.1 = 1 ∧ answer.2.2 = number) ∧
      ∀ refs exports, host.heap.Books refs exports → (∀ r ∈ value, r ∈ refs) →
        answer.1.heap.Books refs exports) ∧
    (∀ (host : Host) (object : Option Ref) (out : View),
      let call := host.heap.extract object Strategy.standard
      let answer := host.extractRecordData object out
      host.Refines answer.1 call .extract (answer.2.1 = .null) (answer.2.2 = out)
        (fun view => answer.2.1 = view.start ∧ view.start ≠ .null ∧ answer.2.2 = view) ∧
      ∀ refs exports, host.heap.Books refs exports → (∀ r ∈ object, r ∈ refs) →
        answer.1.heap.Books (refs + call.2.toOption.toList.flatMap View.refs)
          (exports + call.2.toOption.toList.flatMap View.exports)) ∧
    (∀ (host : Host) (start : Address) (size : Int) (dtype : Option Ref),
      let call := host.rebuild start size dtype
      let answer := host.recreateRecord start size dtype
      host.Refines answer.1 call .reconstruct (answer.2 = none) (answer.2 = none)
        (fun record => answer.2 = some record) ∧
      ∀ refs exports, host.heap.Books refs exports → (∀ r ∈ dtype, r ∈ refs) →
        answer.1.heap.Books (refs + call.2.toOption.toList) exports) ∧
    (∀ (runtime : Option Services) (census : Census) (before steps : List Step),
      (before = [] ∨ ∃ first, before = first ++ [.takeError]) → .takeError ∉ steps →
        let s := ((opened runtime census).run before).1
        ((s.run steps).1.step .takeError).2 = .pending (s.failures steps).getLast? ∧
          ((s.run steps).1.step .takeErrorElsewhere).2 = .pending none) ∧
    ∀ (runtime : Option Services) (census : Census) (thread : Thread)
      (before steps : List (Thread × Step)),
      (before = [] ∨ ∃ first, before = first ++ [(thread, .takeError)]) →
      (thread, .takeError) ∉ steps →
        let s := (opened runtime census).runOn before
        (((s.runOn steps).on thread).step .takeError).2 =
          .pending (s.failuresOn thread steps).getLast? := by
  refine ⟨?_, ?_, ?_, ?_, fun runtime census _ _ _ => takeError_runOn runtime census⟩
  · intro host value out
    have refines := host.refines_complexAdaptor value out
    refine ⟨refines, fun refs exports books mem => ?_⟩
    rw [refines.heap]
    exact books.adapt mem
  · intro host object out
    have refines := host.refines_extractRecordData object out
    refine ⟨refines, fun refs exports books mem => ?_⟩
    rw [refines.heap]
    exact books.extract mem Strategy.standard
  · intro host start size dtype
    have refines := host.refines_recreateRecord start size dtype
    refine ⟨refines, fun refs exports books mem => ?_⟩
    rw [refines.heap]
    exact books.rebuild mem start size
  · intro runtime census before steps taken none
    have pending := pending_run ((opened runtime census).run before).1 none
    rw [pending_of_taken runtime census taken, Option.or_none] at pending
    exact ⟨congrArg Answer.pending pending, congrArg Prod.snd (step_takeErrorElsewhere _)⟩

/-- Of two failures the later one is taken, and a call that succeeds afterwards takes none away. -/
theorem entry_points_refine_of_two_failures :
    let steps : List Step :=
      [.make (.complex ⟨.ofInt 1, .ofInt 2⟩) (some "z"), .enterExtract none "v",
        .enterRecreate none (-1) none none, .enterAdaptor (some "z")]
    (((opened none .initial).run steps).1.step .takeError).2 =
      .pending (some (.reconstruct .copyFailed)) := by
  intro steps
  have none : .takeError ∉ steps := by decide
  have failures : ((opened Option.none .initial).failures steps).getLast? =
      some (.reconstruct .copyFailed) := by decide +kernel
  obtain ⟨_, _, _, runs, _⟩ := entry_points_refine
  obtain ⟨taken, _⟩ := runs Option.none .initial [] steps (.inl rfl) none
  exact taken.trans (congrArg Answer.pending failures)

end NativeBridge.Session
