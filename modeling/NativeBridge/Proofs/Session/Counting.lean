import NativeBridge.Proofs.Session.Runs

/-! What the live-object counters say in a session.

    Counting starts afresh where it is on from the start, where it is switched on, and where the
    counters are set back while it is on (`Session.CountsFrom`). From there on the counter of a kind
    is the change in the number of allocated objects of that kind and what was counted by hand,
    whatever is made, shared, taken, rebuilt, released or dropped. Before counting is on every
    counter is zero. -/

namespace NativeBridge

/-- What a step counts by hand. -/
def Step.byHand (kind : Kind) : Step → Int
  | .track counted delta => if counted = kind then delta else 0
  | _ => 0

namespace Session

open Custody

variable {s : Session}

/-- What steps count by hand. -/
def countedByHand (kind : Kind) (steps : List Step) : Int := (steps.map (·.byHand kind)).sum

/-! ### One step -/

/-- Unless a step is about the counters themselves, they follow the objects. -/
theorem counts_step (tidy : s.Tidy) {step : Step} (other : step.recount? = none) :
    s.heap.Counts (s.step step).1.heap := by
  rcases step_cases tidy step with follows | ⟨change, counts, _⟩ | ⟨r, same⟩
  · exact counts_moves follows.moves
  · rw [other] at counts
    cases counts
  · exact same ▸ .releaseAll _ _

theorem enabled_step (tidy : s.Tidy) (step : Step) :
    (s.step step).1.heap.census.enabled =
      (s.heap.census.enabled || decide (step = .enableTracking)) := by
  cases other : step.recount? with
  | none =>
    have still : step ≠ .enableTracking := by
      rintro rfl
      cases other
    simpa [still] using (counts_step tidy other).enabled
  | some change =>
    rw [step_of_recount other]
    cases step <;> cases other <;> simp [withCensus, heap, withHeap, Host.withHeap, Census.enable,
      Census.reset]

/-- The total goes along with the counts. -/
theorem total_step (tidy : s.Tidy) (even : s.heap.census.total = s.heap.census.sum) (step : Step) :
    (s.step step).1.heap.census.total = (s.step step).1.heap.census.sum := by
  cases other : step.recount? with
  | none =>
    have := (counts_step tidy other).total
    omega
  | some change =>
    rw [step_of_recount other]
    cases step with
    | enableTracking =>
      cases other
      exact even
    | track kind delta =>
      cases other
      show (s.heap.census.count kind delta).total = (s.heap.census.count kind delta).sum
      rw [Census.total_count, Census.sum_count, even]
    | resetTracking =>
      cases other
      rfl
    | _ => cases other

/-- While counting is off nothing is counted. -/
theorem initial_step (tidy : s.Tidy)
    (zero : s.heap.census.enabled = false → s.heap.census = .initial) (step : Step)
    (off : (s.step step).1.heap.census.enabled = false) :
    (s.step step).1.heap.census = .initial := by
  rw [enabled_step tidy, Bool.or_eq_false_iff] at off
  obtain ⟨before, still⟩ := off
  cases other : step.recount? with
  | none => rw [(counts_step tidy other).off before, zero before]
  | some change =>
    rw [step_of_recount other]
    show change s.heap.census = .initial
    rw [zero before]
    cases step <;> cases other
    · simp at still
    · rfl
    · rfl

/-- While counting is on and is not set back, a counter changes with the objects and by hand. -/
theorem live_step (tidy : s.Tidy) (on : s.heap.census.enabled = true) {step : Step}
    (further : step ≠ .resetTracking) (kind : Kind) :
    (s.step step).1.heap.census.live kind + s.heap.allocated kind =
      s.heap.census.live kind + (s.step step).1.heap.allocated kind + step.byHand kind := by
  cases other : step.recount? with
  | none =>
    have none : step.byHand kind = 0 := by cases step <;> first | rfl | cases other
    rw [(counts_step tidy other).live on kind, none, Int.add_zero]
  | some change =>
    rw [step_of_recount other]
    cases step with
    | enableTracking =>
      cases other
      show s.heap.census.live kind + s.heap.allocated kind = _
      exact (Int.add_zero _).symm
    | track counted delta =>
      cases other
      show (s.heap.census.count counted delta).live kind + s.heap.allocated kind =
        s.heap.census.live kind + s.heap.allocated kind + if counted = kind then delta else 0
      rw [Census.live_count]
      simp only [on, true_and]
      omega
    | resetTracking => exact absurd rfl further
    | _ => cases other

/-! ### Runs -/

theorem total_run (tidy : s.Tidy) (even : s.heap.census.total = s.heap.census.sum)
    (steps : List Step) : (s.run steps).1.heap.census.total = (s.run steps).1.heap.census.sum := by
  induction steps generalizing s with
  | nil => exact even
  | cons step rest ih => exact ih (tidy_step tidy step) (total_step tidy even step)

theorem initial_run (tidy : s.Tidy)
    (zero : s.heap.census.enabled = false → s.heap.census = .initial) (steps : List Step)
    (off : (s.run steps).1.heap.census.enabled = false) :
    (s.run steps).1.heap.census = .initial := by
  induction steps generalizing s with
  | nil => exact zero off
  | cons step rest ih => exact ih (tidy_step tidy step) (initial_step tidy zero step) off

theorem live_run (tidy : s.Tidy) (on : s.heap.census.enabled = true) {steps : List Step}
    (further : .resetTracking ∉ steps) (kind : Kind) :
    (s.run steps).1.heap.census.live kind + s.heap.allocated kind =
      s.heap.census.live kind + (s.run steps).1.heap.allocated kind + countedByHand kind steps := by
  induction steps generalizing s with
  | nil => exact (Int.add_zero _).symm
  | cons step rest ih =>
    obtain ⟨here, later⟩ := not_or.mp fun mem => further (List.mem_cons.mpr mem)
    have still : (s.step step).1.heap.census.enabled = true := by simp [enabled_step tidy, on]
    have first := live_step tidy on (Ne.symm here) kind
    have rest := ih (tidy_step tidy step) still later
    rw [run_cons, countedByHand, List.map_cons, List.sum_cons]
    rw [countedByHand] at rest
    omega

/-- Counting starts afresh after these steps: it is on from the start, or the last step switched it
    on or set the counters back. -/
def CountsFrom (s : Session) (steps : List Step) : Prop :=
  (s.run steps).1.heap.census.enabled = true ∧
    (steps = [] ∨ (∃ before, steps = before ++ [.resetTracking]) ∨
      ∃ before, steps = before ++ [.enableTracking] ∧
        (s.run before).1.heap.census.enabled = false)

/-- Wherever counting is on it started afresh somewhere before. -/
theorem exists_countsFrom (tidy : s.Tidy) (steps : List Step)
    (on : (s.run steps).1.heap.census.enabled = true) :
    ∃ before after, steps = before ++ after ∧ s.CountsFrom before ∧ .resetTracking ∉ after := by
  induction steps using List.reverseRecOn with
  | nil => exact ⟨[], [], rfl, ⟨on, .inl rfl⟩, by simp⟩
  | append_singleton steps step ih =>
    by_cases back : step = .resetTracking
    · subst back
      exact ⟨steps ++ [.resetTracking], [], by simp, ⟨on, .inr (.inl ⟨steps, rfl⟩)⟩, by simp⟩
    · cases already : (s.run steps).1.heap.census.enabled with
      | false =>
        have last : (s.run (steps ++ [step])).1 = ((s.run steps).1.step step).1 := run_append ..
        have switched : step = .enableTracking := by
          have on := on
          rw [last, enabled_step (tidy_run tidy steps), already] at on
          simpa using on
        subst switched
        exact ⟨steps ++ [.enableTracking], [], by simp,
          ⟨on, .inr (.inr ⟨steps, rfl, already⟩)⟩, by simp⟩
      | true =>
        obtain ⟨before, after, rfl, begun, none⟩ := ih already
        exact ⟨before, after ++ [step], by simp, begun, by simp [none, Ne.symm back]⟩

/-- Where counting starts afresh all counters are zero. -/
theorem live_of_countsFrom {steps : List Step} (tidy : s.Tidy)
    (start : ∀ kind, s.heap.census.live kind = 0)
    (zero : s.heap.census.enabled = false → s.heap.census = .initial)
    (begun : s.CountsFrom steps) (kind : Kind) : (s.run steps).1.heap.census.live kind = 0 := by
  rcases begun.2 with rfl | ⟨before, rfl⟩ | ⟨before, rfl, off⟩
  · exact start kind
  · rw [run_append]
    rfl
  · rw [run_append]
    show (s.run before).1.heap.census.enable.live kind = 0
    rw [initial_run tidy zero before off]
    rfl

/-! ### From the start -/

/-- In every state of every run: while counting is off all counters are zero; while it is on it
    started afresh somewhere, and since then the counter of each kind changed with the number of
    allocated objects of that kind and by hand. The total is the sum of the counts, a difference is
    that to an earlier total, and a report lists the kinds with a count other than zero, each once
    and in their order. -/
theorem live_eq_allocated_since (runtime : Option Services) (enabled : Bool) (steps : List Step) :
    let start := opened runtime ⟨enabled, 0, []⟩
    let s := (start.run steps).1
    let census := s.heap.census
    (census.enabled = false → census.total = 0 ∧ ∀ kind, census.live kind = 0) ∧
      (census.enabled = true → ∃ before after,
        steps = before ++ after ∧ start.CountsFrom before ∧ .resetTracking ∉ after) ∧
      (∀ before after, steps = before ++ after → start.CountsFrom before →
        .resetTracking ∉ after → ∀ kind, census.live kind =
          s.heap.allocated kind - (start.run before).1.heap.allocated kind +
            countedByHand kind after) ∧
      census.total = (Kind.all.map census.live).sum ∧
      (∀ before after, steps = before ++ after →
        let earlier := (start.run before).1.heap.census.total
        (-pow2 63 : Int) ≤ census.total - earlier → census.total - earlier < pow2 63 →
          census.since earlier = census.total - earlier) ∧
      (∀ kind n, (kind, n) ∈ census.report ↔ n = census.live kind ∧ n ≠ 0) ∧
      (census.report.map (·.1)).Sublist Kind.all ∧ (census.report.map (·.1)).Nodup := by
  intro start s census
  have tidy : start.Tidy := tidy_opened runtime _
  have zero : start.heap.census.enabled = false → start.heap.census = .initial := by
    intro off
    show Census.mk enabled 0 [] = .initial
    rw [show enabled = false from off]
    rfl
  refine ⟨?_, exists_countsFrom tidy steps, ?_, total_run tidy rfl steps, ?_, ?_, ?_, ?_⟩
  · intro off
    have none : census = .initial := initial_run tidy zero steps off
    rw [none]
    exact ⟨rfl, fun _ => rfl⟩
  · rintro before after rfl begun none kind
    have clear := live_of_countsFrom tidy (fun _ => rfl) zero begun kind
    have moved := live_run (tidy_run tidy before) begun.1 none kind
    rw [← run_append, clear] at moved
    show (start.run (before ++ after)).1.heap.census.live kind =
      (start.run (before ++ after)).1.heap.allocated kind - _ + _
    omega
  · intro before after _ earlier low high
    exact Census.since_eq low high
  · intro kind n
    exact Census.mem_report
  · exact census.kinds_report
  · exact census.kinds_report.nodup Kind.nodup_all

/-- A holder made before counting was switched on is missing once it is gone, and a count by hand
    stands for an object that is not there. -/
theorem live_eq_allocated_since_midway :
    let before : List Step :=
      [.make (.bytes [1, 2, 3]) (some "b"), .make (.holder "b") (some "h"), .enableTracking]
    let after : List Step := [.make (.int 7) (some "i"), .drop "h", .track .float 1, .track .int 1]
    let start := opened none ⟨false, 0, []⟩
    let s := (start.run (before ++ after)).1
    start.CountsFrom before ∧ .resetTracking ∉ after ∧ s.heap.census.live .recordHolder = -1 ∧
      s.heap.census.live .int = 2 ∧ s.heap.census.live .float = 1 ∧
      s.heap.census.since (start.run before).1.heap.census.total = 2 := by
  intro before after start s
  have begun : start.CountsFrom before :=
    ⟨by decide +kernel, .inr (.inr ⟨before.take 2, rfl, by decide +kernel⟩)⟩
  have further : .resetTracking ∉ after := by decide
  obtain ⟨_, _, counted, _, change, _⟩ := live_eq_allocated_since none false (before ++ after)
  have live : ∀ kind, s.heap.census.live kind = s.heap.allocated kind -
      (start.run before).1.heap.allocated kind + countedByHand kind after :=
    counted before after rfl begun further
  have holders : s.heap.allocated .recordHolder = 0 ∧
      (start.run before).1.heap.allocated .recordHolder = 1 := by decide +kernel
  have ints : s.heap.allocated .int = 1 ∧ (start.run before).1.heap.allocated .int = 0 := by
    decide +kernel
  have floats : s.heap.allocated .float = 0 ∧ (start.run before).1.heap.allocated .float = 0 := by
    decide +kernel
  have total : s.heap.census.total - (start.run before).1.heap.census.total = 2 := by
    decide +kernel
  refine ⟨begun, further, ?_, ?_, ?_, ?_⟩
  · rw [live, holders.1, holders.2]
    rfl
  · rw [live, ints.1, ints.2]
    rfl
  · rw [live, floats.1, floats.2]
    rfl
  · exact (change before after rfl (by decide +kernel) (by decide +kernel)).trans total

end Session

end NativeBridge
