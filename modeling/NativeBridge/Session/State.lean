import NativeBridge.Host
import NativeBridge.Session.Step

/-! The state of a session: the host, the names bound to objects and views, and what was taken
    without a name.

    Each bound name owns one reference. So does each view that is not released, also one that
    was overwritten or forgotten, and each reference taken by hand. -/

namespace NativeBridge

/-- A named view: guarded ones are released when they go, raw ones are not. -/
structure Held where
  guarded : Bool
  view : View
  deriving DecidableEq, Repr

/-- A session between two steps. -/
structure Session where
  host : Host
  names : List (String × Ref)
  views : List (String × Held)
  /-- Raw views that were overwritten or forgotten. -/
  stray : List View
  /-- References taken by hand and not given back. -/
  byHand : List Ref
  deriving DecidableEq, Repr

namespace Session

/-- A session in a new process: no runtime, nothing counted. -/
def fresh : Session := ⟨.initial, [], [], [], []⟩

/-- A session with the reference runtime and counting. -/
def tracked : Session := ⟨.tracked, [], [], [], []⟩

/-- The heap of the session. -/
def heap (s : Session) : Heap := s.host.heap

/-- The session with another heap. -/
def withHeap (s : Session) (heap : Heap) : Session := { s with host := s.host.withHeap heap }

/-- The session with another host. -/
def withHost (s : Session) (host : Host) : Session := { s with host }

/-! ### Names -/

/-- The least of some names, in the order of code points. -/
def leastName (names : List String) : Option String :=
  names.foldl (fun best name => some (match best with
    | none => name
    | some best => if name < best then name else best)) none

/-- The first name bound to an object. -/
def nameOf (s : Session) (r : Ref) : Option String :=
  leastName ((s.names.filter fun entry => entry.2 = r).map (·.1))

/-- Binds a name to an object, whose reference goes to the name; what the name was bound to
    loses one. -/
def bindName (s : Session) (name : String) (r : Ref) : Session :=
  let old := s.names.lookup name
  let s := { s with names := (name, r) :: s.names.filter fun entry => entry.1 ≠ name }
  s.withHeap (s.heap.release? old)

/-- Unbinds a name. -/
def dropName (s : Session) (name : String) : Session :=
  let old := s.names.lookup name
  let s := { s with names := s.names.filter fun entry => entry.1 ≠ name }
  s.withHeap (s.heap.release? old)

/-- An object as an answer shows it. -/
def describe (s : Session) (r : Ref) : Option Binding :=
  (s.heap.body? r).map fun body => ⟨body.typeName, body.kind, s.nameOf r⟩

/-- Keeps a new reference under a name, or gives it back if there is none. -/
def keep (s : Session) (r : Ref) (as : Option String) : Session :=
  match as with
  | none => s.withHeap (s.heap.release r)
  | some name => s.bindName name r

/-- Answers a step that yields a new reference or nothing. -/
def answerObject (s : Session) (outcome : Heap × Option Ref) (as : Option String) :
    Session × Answer :=
  let s := s.withHeap outcome.1
  match outcome.2 with
  | none => (s, .object none)
  | some r => (s.keep r as, .object (s.describe r))

/-! ### Views -/

/-- A view as an answer shows it. -/
def report (s : Session) (v : View) : ViewReport where
  view := v
  owner := v.owner.map fun owner => shownName (s.nameOf owner)
  bytes :=
    if v.isReleased ∨ v.length < 0 ∨ v.start = .null then none else some (v.bytes s.heap)

/-- What becomes of a view whose name goes: a guard is released, a raw view forgotten. -/
def discard (s : Session) (held : Option Held) : Session :=
  match held with
  | none => s
  | some ⟨true, v⟩ => s.withHeap (s.heap.releaseView v).1
  | some ⟨false, v⟩ => { s with stray := v :: s.stray }

/-- The session without a view of this name. -/
def removeView (s : Session) (name : String) : Session :=
  { s with views := s.views.filter fun entry => entry.1 ≠ name }

/-- Puts a view under a name whose view has been dealt with. -/
def setView (s : Session) (name : String) (held : Held) : Session :=
  let s := s.removeView name
  { s with views := (name, held) :: s.views }

/-- Stores a view; the one that had the name goes. -/
def storeView (s : Session) (name : String) (held : Held) : Session :=
  let old := s.views.lookup name
  (s.setView name held).discard old

/-! ### The end -/

/-- Ends the session: guards are released, raw views forgotten, names dropped. -/
def close (s : Session) : Session :=
  let views := s.views.map (·.2)
  let s := { s with views := [] }
  let s := views.foldl (fun s held => s.discard (some held)) s
  let refs := s.names.map (·.2)
  let s := { s with names := [] }
  s.withHeap (s.heap.releaseAll refs)

end Session

end NativeBridge
