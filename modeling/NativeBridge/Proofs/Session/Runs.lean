import NativeBridge.Proofs.Custody.Invariants
import NativeBridge.Proofs.Session.Steps

/-! What a whole run of a session preserves.

    The accounts stay right along every run that gives back by hand only what it took by hand
    (`Session.sound_run`). The tallies of exports, the order of the tables and the contents of
    objects do not even need that (`Session.tallies_run`, `Session.keeps_run`). -/

namespace NativeBridge.Session

open Custody

variable {s : Session}

/-- A session before its first step, with this runtime and these counters. -/
def opened (runtime : Option Services) (census : Census) : Session :=
  ⟨⟨{ Heap.initial with census }, runtime, 0, []⟩, [], [], [], []⟩

/-- Both sessions that can be started are such ones. -/
theorem started_eq_opened :
    fresh = opened none .initial ∧ tracked = opened (some .reference) Census.initial.enable :=
  ⟨rfl, rfl⟩

/-- No step of the run gives back by hand what was not taken by hand before. -/
def Balanced (s : Session) : List Step → Prop
  | [] => True
  | step :: rest => s.Owed step ∧ (s.step step).1.Balanced rest

instance decidableBalanced (s : Session) : (steps : List Step) → Decidable (s.Balanced steps)
  | [] => isTrue trivial
  | step :: rest =>
    have := decidableBalanced (s.step step).1 rest
    inferInstanceAs (Decidable (s.Owed step ∧ (s.step step).1.Balanced rest))

theorem run_cons (s : Session) (step : Step) (rest : List Step) :
    (s.run (step :: rest)).1 = ((s.step step).1.run rest).1 := rfl

theorem run_append (s : Session) (before after : List Step) :
    (s.run (before ++ after)).1 = ((s.run before).1.run after).1 := by
  induction before generalizing s with
  | nil => rfl
  | cons step rest ih => rw [List.cons_append, run_cons, run_cons, ih]

theorem answers_append (s : Session) (before after : List Step) :
    (s.run (before ++ after)).2 = (s.run before).2 ++ ((s.run before).1.run after).2 := by
  induction before generalizing s with
  | nil => rfl
  | cons step rest ih => exact congrArg ((s.step step).2 :: ·) (ih _)

theorem balanced_append {before after : List Step} (balanced : s.Balanced (before ++ after)) :
    s.Balanced before ∧ (s.run before).1.Balanced after := by
  induction before generalizing s with
  | nil => exact ⟨trivial, balanced⟩
  | cons step rest ih =>
    obtain ⟨owed, later⟩ := balanced
    exact ⟨⟨owed, (ih later).1⟩, (ih later).2⟩

/-! ### One step -/

theorem step_of_recount {step : Step} {change : Census → Census}
    (counts : step.recount? = some change) : (s.step step).1 = s.withCensus change := by
  cases step <;> cases counts <;> rfl

/-- Any step is a number of moves, or sets the counters, or gives back a reference by hand. -/
theorem step_cases (tidy : s.Tidy) (step : Step) :
    Follows s.custody (s.step step).1 ∨
      (∃ change, step.recount? = some change ∧ (s.step step).1 = s.withCensus change) ∨
      ∃ r, (s.step step).1 = (s.releaseByHand (some r)).1 := by
  cases counts : step.recount? with
  | some change => exact .inr (.inl ⟨change, rfl, step_of_recount counts⟩)
  | none =>
    by_cases owed : s.Owed step
    · exact .inl (follows_step tidy step owed counts)
    · cases step with
      | release object =>
        cases object with
        | none => exact absurd (by simp [Owed, Step.givenBack?]) owed
        | some name =>
          cases bound : s.names.lookup name with
          | none => exact absurd (by simp [Owed, Step.givenBack?, bound]) owed
          | some r => exact .inr (.inr ⟨r, by simp [step, withObject?, withObject, bound]⟩)
      | _ => exact absurd (by simp [Owed, Step.givenBack?]) owed

theorem tidy_step (tidy : s.Tidy) (step : Step) : (s.step step).1.Tidy := by
  rcases step_cases tidy step with follows | ⟨change, _, same⟩ | ⟨r, same⟩
  · exact follows.tidy
  · exact same ▸ ⟨tidy.names, tidy.views⟩
  · exact same ▸ ⟨tidy.names, tidy.views⟩

theorem tallies_step (tidy : s.Tidy) (tallies : s.heap.Tallies s.custody.allExports) (step : Step) :
    (s.step step).1.heap.Tallies (s.step step).1.custody.allExports := by
  rcases step_cases tidy step with follows | ⟨change, _, same⟩ | ⟨r, same⟩
  · exact tallies_moves follows.moves tallies
  · rw [same]
    exact ⟨tallies.bounded, tallies.counted⟩
  · rw [same]
    exact tallies.of_same (Nat.le_of_eq (Heap.length_releaseAll ..).symm) fun t o' ho' =>
      .inl (Heap.get?_releaseAll ho')

theorem keeps_step (tidy : s.Tidy) (step : Step) : s.heap.Keeps (s.step step).1.heap := by
  rcases step_cases tidy step with follows | ⟨change, _, same⟩ | ⟨r, same⟩
  · exact keeps_moves follows.moves
  · exact same ▸ .of_slots_eq rfl
  · exact same ▸ .releaseAll _ _

theorem sound_step (tidy : s.Tidy) (sound : s.custody.Sound) {step : Step} (owed : s.Owed step) :
    (s.step step).1.custody.Sound := by
  cases counts : step.recount? with
  | some change =>
    rw [step_of_recount counts]
    exact ⟨sound.accounts.of_slots_eq rfl, sound.outside, sound.reads⟩
  | none => exact sound.moves (follows_step tidy step owed counts).moves

/-! ### Runs -/

theorem tidy_run (tidy : s.Tidy) (steps : List Step) : (s.run steps).1.Tidy := by
  induction steps generalizing s with
  | nil => exact tidy
  | cons step rest ih => exact ih (tidy_step tidy step)

theorem tallies_run (tidy : s.Tidy) (tallies : s.heap.Tallies s.custody.allExports)
    (steps : List Step) : (s.run steps).1.heap.Tallies (s.run steps).1.custody.allExports := by
  induction steps generalizing s with
  | nil => exact tallies
  | cons step rest ih => exact ih (tidy_step tidy step) (tallies_step tidy tallies step)

theorem keeps_run (tidy : s.Tidy) (steps : List Step) : s.heap.Keeps (s.run steps).1.heap := by
  induction steps generalizing s with
  | nil => exact .refl _
  | cons step rest ih => exact (keeps_step tidy step).trans (ih (tidy_step tidy step))

theorem sound_run (tidy : s.Tidy) (sound : s.custody.Sound) {steps : List Step}
    (balanced : s.Balanced steps) : (s.run steps).1.custody.Sound := by
  induction steps generalizing s with
  | nil => exact sound
  | cons step rest ih =>
    obtain ⟨owed, later⟩ := balanced
    exact ih (tidy_step tidy step) (sound_step tidy sound owed) later

/-! ### From the start -/

section Opened

variable (runtime : Option Services) (census : Census)

theorem tidy_opened : (opened runtime census).Tidy := ⟨List.nodup_nil, List.nodup_nil⟩

theorem sound_opened : (opened runtime census).custody.Sound := by
  refine ⟨.initial census, ?_, ?_⟩
  · intro r o ho
    cases r with
    | zero =>
      cases ho
      trivial
    | succ r => simp [custody, opened, heap, Heap.get?, Heap.initial] at ho
  · intro v hv
    simp [custody, opened, held] at hv

theorem tallies_opened :
    (opened runtime census).heap.Tallies (opened runtime census).custody.allExports := by
  have none : (opened runtime census).custody.allExports = 0 := rfl
  rw [none]
  refine ⟨by simp, fun r o ho releases => ?_⟩
  cases r with
  | zero =>
    cases ho
    rfl
  | succ r => simp [opened, heap, Heap.get?, Heap.initial] at ho

end Opened

end NativeBridge.Session
