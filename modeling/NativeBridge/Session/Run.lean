import NativeBridge.Heap.Create
import NativeBridge.Session.State

/-! Carrying out the steps of a session.

    `Session.step` carries out one step and answers it; `Session.run` carries out a list of them
    and collects the answers in order. -/

namespace NativeBridge

/-! ### Descriptions with names resolved -/

/-- The window with its base looked up; `none` if that name is not bound. -/
def Window.resolve? {ρ σ μ : Type} (find : ρ → Option σ) (w : Window ρ μ) : Option (Window σ μ) :=
  match w.base with
  | none => some ⟨none, w.start, w.size, w.offset⟩
  | some name => (find name).map fun base => ⟨some base, w.start, w.size, w.offset⟩

/-- A reference that may be missing, looked up. -/
def resolveOption? {ρ σ : Type} (find : ρ → Option σ) : Option ρ → Option (Option σ)
  | none => some none
  | some name => (find name).map some

/-- The contents of a custom object with the base of a window looked up. -/
def Shape.resolve? {ρ σ μ : Type} (find : ρ → Option σ) : Shape ρ μ → Option (Shape σ μ)
  | plain kind => some (.plain kind)
  | complex value => some (.complex value)
  | float value => some (.float value)
  | descriptor layout isRecord => some (.descriptor layout isRecord)
  | window w => (w.resolve? find).map .window

/-- The custom object with all names looked up; `none` if one is not bound. -/
def Custom.resolve? {ρ σ μ : Type} (find : ρ → Option σ) (c : Custom ρ μ) :
    Option (Custom σ μ) := do
  let shape ← c.shape.resolve? find
  let float ← match c.float with
    | none => some none
    | some target => (resolveOption? find target).map some
  let element ← match c.element with
    | none => some none
    | some e => (resolveOption? find e.descr).map fun descr => some ⟨e.isComplex, descr, e.storage⟩
  let attributes ← match c.attributes with
    | none => some none
    | some list => (list.mapM fun entry => (find entry.2).map (entry.1, ·)).map some
  some ⟨shape, float, element, attributes, c.exporter, c.segment⟩

namespace Session

/-! ### Looking names up -/

/-- Goes on with the object of a bound name. -/
def withObject (s : Session) (name : String) (next : Ref → Session × Answer) : Session × Answer :=
  match s.names.lookup name with
  | none => (s, .unusable name)
  | some r => next r

/-- Goes on with the object of a bound name, or without one. -/
def withObject? (s : Session) (name : Option String) (next : Option Ref → Session × Answer) :
    Session × Answer :=
  match name with
  | none => next none
  | some name => s.withObject name fun r => next (some r)

/-- Goes on with a stored view. -/
def withView (s : Session) (name : String) (next : Held → Session × Answer) : Session × Answer :=
  match s.views.lookup name with
  | none => (s, .unusable name)
  | some held => next held

/-! ### Objects -/

/-- Makes an object; `none` if it names one that is not bound. -/
def create? (s : Session) (object : NewObject) : Option (Heap × Ref) :=
  let h := s.heap
  let find (name : String) := s.names.lookup name
  match object with
  | .complex value => some (h.alloc (.complex value))
  | .complex128 value => some (h.newComplex128 value.real value.imag)
  | .complex64 real imag => some (h.newComplex64 real imag)
  | .float value => some (h.alloc (.float value))
  | .int value => some (h.alloc (.int value))
  | .realScalar type data => some (h.newRealScalar type data)
  | .scalarWithoutDescriptor => some h.newScalarWithoutDescriptor
  | .scalarWithRecordDescriptor => some h.newScalarWithRecordDescriptor
  | .bytes data => some (h.alloc (.bytes data))
  | .holder name => (find name).map h.newHolder
  | .descriptor layout => some (h.newDescriptor layout)
  | .window w => (w.resolve? find).map fun w =>
    let (h, start) := h.place? w.start
    h.newWindow ⟨w.base, start, w.size, w.offset⟩
  | .custom c => (c.resolve? find).map h.newCustom

/-- Makes an object and binds it. -/
def make (s : Session) (object : NewObject) (as : Option String) : Session × Answer :=
  match s.create? object with
  | none => (s, .unusable "new")
  | some (h, r) => s.answerObject (h, some r) as

/-- Takes a reference by hand. -/
def retainByHand (s : Session) (object : Option Ref) : Session × Answer :=
  match object with
  | none => (s, .nothing)
  | some r => ({ s.withHeap (s.heap.retain r) with byHand := r :: s.byHand }, .nothing)

/-- Gives back a reference taken by hand. -/
def releaseByHand (s : Session) (object : Option Ref) : Session × Answer :=
  match object with
  | none => (s, .nothing)
  | some r => ({ s.withHeap (s.heap.release r) with byHand := s.byHand.erase r }, .nothing)

/-- Describes the type of an object. -/
def describeType (s : Session) (r : Ref) : Answer :=
  match s.heap.body? r with
  | none => .nothing
  | some body => .type body.typeName body.kind body.describeType

/-- How an object would be read as a number. -/
def numericKind (s : Session) (r : Ref) : Answer :=
  match s.heap.body? r with
  | none => .nothing
  | some body => .text (NumericKind.of body).name

/-- Number of references to an object. -/
def references (s : Session) (r : Ref) : Answer :=
  .number (((s.heap.get? r).map (·.count.toNat)).getD 0)

/-- Outstanding exports of an object. -/
def exports (s : Session) (r : Ref) : Answer := .number (((s.heap.get? r).map (·.exports)).getD 0)

/-! ### Numbers -/

/-- Converts a value to a complex number. -/
def adapt (s : Session) (object : Option Ref) : Session × Answer :=
  match s.heap.adapt object with
  | (h, .ok value) => (s.withHeap h, .complex (some value))
  | (h, .error error) => (s.withHeap h, .failure (.conversion error))

/-- What the output of the adaptor's entry point holds before the call. -/
def outputBefore : Complex := ⟨.ofInt 9, .ofInt (-9)⟩

/-- Converts a value through the entry point. -/
def enterAdaptor (s : Session) (object : Option Ref) : Session × Answer :=
  let (host, status, out) := s.host.complexAdaptor object outputBefore
  (s.withHost host, .adapted status out)

/-- Calls the float coercion of an object. -/
def coerce (s : Session) (r : Ref) (as : Option String) : Session × Answer :=
  match s.heap.coerce r with
  | none => (s, .noSlot)
  | some (h, none) => (s.withHeap h, .coerced none none)
  | some (h, some float) =>
    let s := s.withHeap h
    (s.keep float as, .coerced ((h.body? float).bind (·.float?)) (s.describe float))

/-! ### Buffers -/

/-- Takes a view and stores it as a guard, or releases it again. -/
def extract (s : Session) (object : Option Ref) (strategies : List Strategy)
    (name : Option String) : Session × Answer :=
  match s.heap.extract object strategies with
  | (h, .error error) => (s.withHeap h, .failure (.extract error))
  | (h, .ok view) =>
    let s := s.withHeap h
    let answer :=
      Answer.extracted (s.report view) view.length (view.start = .null) (view.bytes h)
    match name with
    | none => (s.discard (some ⟨true, view⟩), answer)
    | some name => (s.storeView name ⟨true, view⟩, answer)

/-- Takes a view through the entry point, into the raw view of this name or an empty one. -/
def enterExtract (s : Session) (object : Option Ref) (name : String) : Session × Answer :=
  let (s, out) :=
    match s.views.lookup name with
    | some ⟨false, view⟩ => (s, view)
    | some ⟨true, view⟩ => ((s.removeView name).discard (some ⟨true, view⟩), View.empty)
    | none => (s, View.empty)
  let (host, start, view) := s.host.extractRecordData object out
  let s := s.withHost host
  let s := if start = .null then s else { s with stray := out :: s.stray }
  let s := s.setView name ⟨false, view⟩
  (s, .entered (start = .null) (start = view.start) (s.report view))

/-- Releases a stored view, which stays stored. -/
def releaseStored (s : Session) (name : String) (held : Held) : Session × Answer :=
  let (h, view) := s.heap.releaseView held.view
  let s := (s.withHeap h).setView name { held with view }
  (s, .view (some (s.report view)))

/-- Releases a stored view through the entry point. -/
def enterRelease (s : Session) (name : String) (held : Held) : Session × Answer :=
  let (host, view) := s.host.releaseRecordBuffer (some held.view)
  let view := view.getD held.view
  let s := (s.withHost host).setView name { held with view }
  (s, .view (some (s.report view)))

/-- Takes a view and releases it, `times` times; the sum of the lengths, or the first failure. -/
def cycle (h : Heap) (object : Option Ref) : Nat → Int → Heap × Except ExtractError Int
  | 0, sum => (h, .ok sum)
  | times + 1, sum =>
    match h.extract object Strategy.standard with
    | (h, .error error) => (h, .error error)
    | (h, .ok view) => cycle (h.releaseView view).1 object times (sum + view.length)

/-- Answers a run of cycles. -/
def cycles (s : Session) (object : Option Ref) (times : Nat) : Session × Answer :=
  match cycle s.heap object times 0 with
  | (h, .error error) => (s.withHeap h, .failure (.extract error))
  | (h, .ok sum) => (s.withHeap h, .number sum)

/-- Reads a segment of an object the legacy way. -/
def readSegment (s : Session) (r : Ref) (segment : Int) : Answer :=
  match s.heap.readSegment r segment with
  | none => .noSlot
  | some (size, start) =>
    let isNull := start = .null
    .segment size isNull
      (if size < 0 ∨ isNull then none else some (s.heap.read start size.toNat))

/-! ### Records -/

/-- The byte written over the source of a record once it is rebuilt. -/
def overwriting : UInt8 := 0xa5

/-- Rebuilds a record from contents placed in memory, which are overwritten afterwards. -/
def recreate (s : Session) (data : Contents) (length : Nat) (dtype : Option Ref)
    (runtime : RuntimeChoice) (as : Option String) : Session × Answer :=
  let index := s.heap.blocks.length
  let (h, start) := s.heap.place? data
  let services :=
    match runtime with
    | .installed => s.host.runtime
    | .passed services => services
  match h.reconstruct services start length dtype with
  | (h, .error error) => (s.withHeap (h.overwrite index overwriting), .failure (.reconstruct error))
  | (h, .ok record) => s.answerObject (h.overwrite index overwriting, some record) as

/-- Rebuilds a record through the entry point. -/
def enterRecreate (s : Session) (data : Contents) (size : Int) (dtype : Option Ref)
    (as : Option String) : Session × Answer :=
  let index := s.heap.blocks.length
  let (h, start) := s.heap.place? data
  let (host, record) := (s.host.withHeap h).recreateRecord start size dtype
  (s.withHost host).answerObject (host.heap.overwrite index overwriting, record) as

/-! ### Steps -/

/-- Changes the live-object counters. -/
def withCensus (s : Session) (change : Census → Census) : Session :=
  s.withHeap { s.heap with census := change s.heap.census }

/-- Carries out one step. -/
def step (s : Session) (step : Step) : Session × Answer :=
  let services := Services.reference
  match step with
  | .make object as => s.make object as
  | .clone object as => s.withObject object fun r => s.answerObject (s.heap.handOut (some r)) as
  | .borrow object as => s.withObject? object fun r => s.answerObject (s.heap.handOut r) as
  | .unwrap object as => s.withObject object fun r => s.answerObject (s.heap.handOut (some r)) as
  | .drop name => (s.dropName name, .flag (s.names.lookup name).isSome)
  | .references object => s.withObject object fun r => (s, s.references r)
  | .retain object => s.withObject? object s.retainByHand
  | .release object => s.withObject? object s.releaseByHand
  | .describe object => s.withObject object fun r => (s, s.describeType r)
  | .attribute object name as =>
    s.withObject? object fun r => s.answerObject (s.heap.getAttribute r name) as
  | .numericKind object => s.withObject object fun r => (s, s.numericKind r)
  | .adapt object => s.withObject? object s.adapt
  | .enterAdaptor object => s.withObject? object s.enterAdaptor
  | .coerce object as => s.withObject object fun r => s.coerce r as
  | .setError error => (s.withHost (s.host.setError error), .nothing)
  | .takeError =>
    let (host, error) := s.host.takeError
    (s.withHost host, .pending error)
  | .takeErrorElsewhere =>
    let (host, error) := s.host.takeErrorElsewhere
    (s.withHost host, .pending error)
  | .extract object strategies view =>
    s.withObject? object fun r => s.extract r strategies view
  | .enterExtract object view => s.withObject? object fun r => s.enterExtract r view
  | .showView view => s.withView view fun held => (s, .view (some (s.report held.view)))
  | .unguard view =>
    s.withView view fun held =>
      (s.setView view { held with guarded := false }, .view (some (s.report held.view)))
  | .dropGuard view =>
    s.withView view fun held => ((s.removeView view).discard (some held), .nothing)
  | .releaseView none => (s, .view none)
  | .releaseView (some view) => s.withView view (s.releaseStored view)
  | .enterRelease none => (s.withHost (s.host.releaseRecordBuffer none).1, .view none)
  | .enterRelease (some view) => s.withView view (s.enterRelease view)
  | .exports object => s.withObject object fun r => (s, s.exports r)
  | .cycle object times => s.withObject? object fun r => s.cycles r times
  | .readSegment object segment => s.withObject object fun r => (s, s.readSegment r segment)
  | .recreate data length dtype runtime as =>
    s.withObject? dtype fun dtype => s.recreate data length dtype runtime as
  | .enterRecreate data size dtype as =>
    s.withObject? dtype fun dtype => s.enterRecreate data size dtype as
  | .recordBytes object => s.withObject object fun r => (s, .bytes (s.heap.recordBytes? r))
  | .recordField object name =>
    s.withObject object fun r => (s, .complex (s.heap.recordField? r name))
  | .elementDescriptor object as =>
    s.withObject object fun r => s.answerObject (s.heap.elementDescriptor r) as
  | .descriptor object => s.withObject object fun r => (s, .descriptor (s.heap.descriptor? r))
  | .recordKind as => s.answerObject (services.recordKind s.heap) as
  | .combine kind dtype as =>
    s.withObject kind fun kind => s.withObject dtype fun dtype =>
      s.answerObject (services.combine s.heap kind dtype) as
  | .array data descr as =>
    s.withObject descr fun descr =>
      s.answerObject (services.array (s.heap.retain descr) data descr) as
  | .item object index as =>
    s.withObject object fun r => s.answerObject (services.item s.heap r index) as
  | .install =>
    let (host, installed) := s.host.install
    (s.withHost host, .flag installed)
  | .hasRuntime => (s, .flag s.host.runtime.isSome)
  | .enableTracking => (s.withCensus Census.enable, .nothing)
  | .isTracking => (s, .flag s.heap.census.enabled)
  | .live => (s, .live s.heap.census.report)
  | .track kind delta => (s.withCensus (·.count kind delta), .nothing)
  | .report since =>
    let census := s.heap.census
    (s, .report census.report census.total (census.since since) census.isQuiet)
  | .resetTracking => (s.withCensus Census.reset, .nothing)

/-- The session as it goes on on this thread. -/
def on (s : Session) (thread : Thread) : Session := s.withHost (s.host.on thread)

/-- Carries out steps one after the other, each on the thread that it is given with. -/
def runOn (s : Session) : List (Thread × Step) → Session
  | [] => s
  | (thread, step) :: rest => ((s.on thread).step step).1.runOn rest

/-- Carries out steps one after the other, with the answers in order. -/
def run (s : Session) : List Step → Session × List Answer
  | [] => (s, [])
  | step :: rest =>
    let (s, answer) := s.step step
    let (s, answers) := run s rest
    (s, answer :: answers)

end Session

end NativeBridge
