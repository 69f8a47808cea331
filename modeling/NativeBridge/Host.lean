import NativeBridge.Buffer.Extraction
import NativeBridge.Conversion
import NativeBridge.Record.Reconstruction

/-! The host as compiled code meets it: its heap, the installed runtime and the pending errors.

    Compiled code cannot receive a typed failure. An entry point answers a sentinel instead,
    leaves its output alone and parks the failure for the host, which takes it once. Each thread
    has a slot of its own for the failure parked on it; the heap and the runtime are shared. -/

namespace NativeBridge

/-- A thread, by number. -/
abbrev Thread := Nat

/-- Heap, installed runtime, the thread that calls, and the errors that wait to be taken, each
    with the thread it waits on. -/
structure Host where
  heap : Heap
  runtime : Option Services
  thread : Thread
  parked : List (Thread × HelperError)
  deriving DecidableEq, Repr

namespace Host

/-- A host before anything happened. -/
def initial : Host := ⟨.initial, none, 0, []⟩

/-- A host with the reference runtime that counts its objects. -/
def tracked : Host :=
  { initial with
    heap := { Heap.initial with census := Census.initial.enable }
    runtime := some .reference }

/-- The host with another heap. -/
def withHeap (host : Host) (heap : Heap) : Host := { host with heap }

/-- Installs the reference runtime unless there is one; says whether it did. -/
def install (host : Host) : Host × Bool :=
  match host.runtime with
  | none => ({ host with runtime := some .reference }, true)
  | some _ => (host, false)

/-! ### Pending errors -/

/-- The failure that waits on a thread. -/
def pendingOn (host : Host) (thread : Thread) : Option HelperError := host.parked.lookup thread

/-- The failure that waits on the calling thread. -/
def pending (host : Host) : Option HelperError := host.pendingOn host.thread

/-- What waits on the other threads. -/
def elsewhere (host : Host) : List (Thread × HelperError) :=
  host.parked.filter fun entry => entry.1 ≠ host.thread

/-- Parks a failure in place of whatever was pending. -/
def setError (host : Host) (error : HelperError) : Host :=
  { host with parked := (host.thread, error) :: host.elsewhere }

/-- Takes the pending failure. -/
def takeError (host : Host) : Host × Option HelperError :=
  ({ host with parked := host.elsewhere }, host.pending)

/-- The host as it is called on this thread. -/
def on (host : Host) (thread : Thread) : Host := { host with thread }

/-- The number of a thread that is started now: no thread known so far has it. -/
def newThread (host : Host) : Thread :=
  host.parked.foldr (fun entry top => max entry.1 top) host.thread + 1

/-- Takes the pending failure of a thread that is started for it. -/
def takeErrorElsewhere (host : Host) : Host × Option HelperError :=
  let (other, error) := (host.on host.newThread).takeError
  (other.on host.thread, error)

/-! ### Entry points -/

/-- Converts a value into `out`: status 1 and the number, or status 0 and `out` as it was. -/
def complexAdaptor (host : Host) (value : Option Ref) (out : Complex) : Host × Int × Complex :=
  match host.heap.adapt value with
  | (heap, .ok number) => (host.withHeap heap, 1, number)
  | (heap, .error error) => ((host.withHeap heap).setError (.conversion error), 0, out)

/-- Takes the buffer behind an object into `out`: its address, or null and `out` as it was. -/
def extractRecordData (host : Host) (object : Option Ref) (out : View) : Host × Address × View :=
  match host.heap.extract object Strategy.standard with
  | (heap, .ok view) => (host.withHeap heap, view.start, view)
  | (heap, .error error) => ((host.withHeap heap).setError (.extract error), .null, out)

/-- Releases a view; there may be none. -/
def releaseRecordBuffer (host : Host) (view : Option View) : Host × Option View :=
  match view with
  | none => (host, none)
  | some view =>
    let (heap, view) := host.heap.releaseView view
    (host.withHeap heap, some view)

/-- Rebuilds a record with the installed runtime: a new reference to it, or nothing. A negative
    size is refused before anything else is looked at. -/
def recreateRecord (host : Host) (start : Address) (size : Int) (dtype : Option Ref) :
    Host × Option Ref :=
  if size < 0 then (host.setError (.reconstruct .copyFailed), none)
  else
    match host.heap.reconstruct host.runtime start size.toNat dtype with
    | (heap, .ok record) => (host.withHeap heap, some record)
    | (heap, .error error) => ((host.withHeap heap).setError (.reconstruct error), none)

end Host

end NativeBridge
