import NativeBridge.Proofs.Session.Tables

/-! What a step leaves alone.

    Most steps neither handle views nor touch the pending failure (`Session.frames_step`), so what
    is said of either need only be shown for the few that do. -/

namespace NativeBridge

/-- The step neither handles views, nor enters through an entry point, nor sets or takes the pending
    failure. -/
def Step.isPlain : Step → Bool
  | .extract .. | .unguard _ | .dropGuard _ | .releaseView _ | .enterRelease _ => false
  | .enterExtract .. | .enterAdaptor _ | .enterRecreate .. => false
  | .setError _ | .takeError => false
  | _ => true

namespace Session

variable {s : Session}

/-! ### Names looked up

    A step that names something not bound changes nothing, so what holds of the session and of what
    the step does with the object or the view that is found holds after the step. -/

theorem of_withObject {P : Session → Prop} {name : String} {next : Ref → Session × Answer}
    (unbound : P s) (bound : ∀ r, s.names.lookup name = some r → P (next r).1) :
    P (s.withObject name next).1 := by
  unfold withObject
  split
  · exact unbound
  · exact bound _ ‹_›

theorem of_resolved {P : Session → Prop} {name : Option String}
    {next : Option Ref → Session × Answer}
    (unbound : resolveOption? (List.lookup · s.names) name = none → P s)
    (bound : ∀ object, resolveOption? (List.lookup · s.names) name = some object →
      P (next object).1) : P (s.withObject? name next).1 := by
  cases name with
  | none => exact bound none rfl
  | some name =>
    show P (s.withObject name fun r => next (some r)).1
    unfold withObject
    split
    · rename_i missing
      exact unbound (by rw [resolveOption?, missing, Option.map_none])
    · rename_i r found
      exact bound (some r) (by rw [resolveOption?, found, Option.map_some])

theorem of_withObject? {P : Session → Prop} {name : Option String}
    {next : Option Ref → Session × Answer} (unbound : P s)
    (bound : ∀ object, object = name.bind (List.lookup · s.names) → P (next object).1) :
    P (s.withObject? name next).1 := by
  refine of_resolved (fun _ => unbound) fun object resolved => bound object ?_
  cases name with
  | none => exact (Option.some.inj resolved).symm
  | some name =>
    obtain ⟨r, found, same⟩ := Option.map_eq_some_iff.mp resolved
    exact same.symm.trans found.symm

theorem of_withView {P : Session → Prop} {name : String} {next : Held → Session × Answer}
    (unbound : P s) (bound : ∀ old, s.views.lookup name = some old → P (next old).1) :
    P (s.withView name next).1 := by
  unfold withView
  split
  · exact unbound
  · exact bound _ ‹_›

/-! ### Views and the pending failures -/

/-- The views of the session are as they were, and what waits on the threads. -/
structure Frames (s s' : Session) : Prop where
  held : s'.held = s.held
  errors : s.host.SameErrors s'.host

theorem frames_refl (s : Session) : s.Frames s := ⟨rfl, rfl, rfl⟩

theorem frames_withHeap (s : Session) (h : Heap) : s.Frames (s.withHeap h) := ⟨rfl, rfl, rfl⟩

theorem frames_keep (s : Session) (r : Ref) (as : Option String) : s.Frames (s.keep r as) := by
  cases as <;> exact ⟨rfl, rfl, rfl⟩

theorem frames_answerObject (s : Session) (outcome : Heap × Option Ref) (as : Option String) :
    s.Frames (s.answerObject outcome as).1 := by
  obtain ⟨h, _ | r⟩ := outcome
  · exact ⟨rfl, rfl, rfl⟩
  · have kept := frames_keep (s.withHeap h) r as
    exact ⟨kept.held, kept.errors.thread, kept.errors.parked⟩

theorem step_takeErrorElsewhere (s : Session) :
    s.step .takeErrorElsewhere = (s, .pending none) := by
  rw [step, Host.takeErrorElsewhere_eq]
  rfl

/-- A plain step leaves views and the pending failures alone. -/
theorem frames_step (s : Session) {step : Step} (plain : step.isPlain) :
    s.Frames (s.step step).1 := by
  have same := frames_refl s
  have answered := frames_answerObject s
  cases step with
  | make object as =>
    show s.Frames (s.make object as).1
    unfold make
    split
    · exact same
    · exact answered _ as
  | clone | unwrap | item | elementDescriptor | array =>
    exact of_withObject same fun _ _ => answered _ _
  | borrow | «attribute» => exact of_withObject? same fun _ _ => answered _ _
  | combine => exact of_withObject same fun _ _ => of_withObject same fun _ _ => answered _ _
  | recordKind => exact answered _ _
  | retain | release =>
    refine of_withObject? same fun object _ => ?_
    cases object <;> exact ⟨rfl, rfl, rfl⟩
  | adapt =>
    refine of_withObject? same fun object _ => ?_
    unfold adapt
    split <;> exact frames_withHeap s _
  | coerce object as =>
    refine of_withObject same fun r _ => ?_
    unfold coerce
    split
    · exact same
    · exact frames_withHeap s _
    · rename_i h float _
      have kept := frames_keep (s.withHeap h) float as
      exact ⟨kept.held, kept.errors.thread, kept.errors.parked⟩
  | cycle =>
    refine of_withObject? same fun object _ => ?_
    unfold cycles
    split <;> exact frames_withHeap s _
  | recreate =>
    refine of_withObject? same fun dtype _ => ?_
    unfold recreate
    dsimp only
    split
    · exact frames_withHeap s _
    · exact answered _ _
  | install =>
    show s.Frames (s.withHost s.host.install.1)
    unfold Host.install
    split <;> exact ⟨rfl, rfl, rfl⟩
  | takeErrorElsewhere =>
    rw [step_takeErrorElsewhere]
    exact same
  | references | describe | numericKind | exports | readSegment | recordBytes | recordField
  | descriptor => exact of_withObject same fun _ _ => same
  | showView => exact of_withView same fun _ _ => same
  | extract | unguard | dropGuard | releaseView | enterRelease | enterExtract | enterAdaptor
  | enterRecreate | setError | takeError => cases plain
  | _ => exact ⟨rfl, rfl, rfl⟩

end Session

end NativeBridge
