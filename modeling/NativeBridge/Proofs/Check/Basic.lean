import NativeBridge.Check.Suite
import NativeBridge.Proofs.Heap.Lending
import NativeBridge.Proofs.Host.Errors

/-! What a check finds and what it leaves.

    A check can rely on little: the record kind stands, the runtime is installed or not, and no
    error is pending (`Check.Ready`). It touches no object but those it makes, and what it leaves
    behind of these is listed (`Check.Leaves`); the error slot is empty again on each of its exits.
    So the next check finds the host just as ready. What becomes of the objects does not depend on
    the error slot, so each check is followed to its end on any host (`Check.Ends`). -/

namespace NativeBridge

namespace Heap

variable {h h' : Heap} {news : List (Ref × Object)}

/-- The record kind is there for good. -/
def KindStands (h : Heap) : Prop :=
  ∃ o, h.get? recordKind = some o ∧ o.count = .pinned ∧ o.body = .recordKind

theorem KindStands.grown (stands : h.KindStands) (grown : h.Grown news h') : h'.KindStands :=
  stands.imp fun _ found => ⟨grown.get?_eq found.1, found.2⟩

end Heap

namespace Check

variable {host host' : Host} {installed : Bool} {news more : List (Ref × Object)}
  {table : ExportTable} {name helper : String} {code : Code} {error : HelperError}

/-! ### Before and after -/

/-- What a check can rely on. -/
structure Ready (host : Host) (installed : Bool) : Prop where
  kind : host.heap.KindStands
  runtime : host.runtime = if installed then some .reference else none
  settled : host.pending = none

/-- The host afterwards has these objects besides. Memory outside may have been written, and nothing
    is pending. -/
structure Leaves (host : Host) (news : List (Ref × Object)) (host' : Host) : Prop where
  heap : ∃ blocks, Heap.Grown { host.heap with blocks } news host'.heap
  runtime : host'.runtime = host.runtime
  settled : host'.pending = none

/-- The next check finds the host as ready as this one did. -/
theorem Ready.of_leaves (ready : Ready host installed) (leaves : Leaves host news host') :
    Ready host' installed := by
  obtain ⟨blocks, grown⟩ := leaves.heap
  have stands : Heap.KindStands { host.heap with blocks } := ready.kind
  exact ⟨stands.grown grown, leaves.runtime.trans ready.runtime, leaves.settled⟩

/-- The ways a check ends, with these objects besides: with this verdict, the error slot being left
    alone or emptied, or with whatever error was pending and, if none was, with that of the
    verdict. -/
inductive Ends (host : Host) (news : List (Ref × Object)) (verdict : CheckResult) :
    Host × CheckResult → Prop where
  | kept {g : Heap} {blocks : List (List UInt8)} : Heap.Grown { host.heap with blocks } news g →
    Ends host news verdict (host.withHeap g, verdict)
  | emptied {g : Heap} {blocks : List (List UInt8)} : Heap.Grown { host.heap with blocks } news g →
    Ends host news verdict ((host.withHeap g).takeError.1, verdict)
  | failed {g : Heap} {blocks : List (List UInt8)} {helper : String} {error : HelperError} :
    Heap.Grown { host.heap with blocks } news g → verdict = .error (.failed helper error) →
    Ends host news verdict (fail (host.withHeap g) helper error)

/-! ### The ways a check ends -/

theorem expect_of_same {α : Type} {c : Comparison α} {got want : α}
    (same : c.same got want = true) : expect c helper got want = .ok () := if_pos same

/-- The error that is expected is taken. -/
theorem expectError_of_pending (pending : host.pending = some error) :
    expectError host helper error = (host.takeError.1, .ok ()) := by
  have same : (ofOption ofError).same (some error) (some error) = true := beq_self_eq_true error
  have taken : host.takeError = (host.takeError.1, some error) := Prod.ext rfl pending
  rw [expectError, taken]
  dsimp only
  rw [expect_of_same same]

theorem fail_of_settled (host : Host) (settled : host.pending = none) (error : HelperError) :
    fail host helper error = (host, .error (.failed helper error)) := by
  rw [fail, Host.takeError_of_settled settled]
  rfl

theorem fail_of_pending (pending : host.pending = some error) (default : HelperError) :
    fail host helper default = (host.takeError.1, .error (.failed helper error)) := by
  have taken : host.takeError = (host.takeError.1, some error) := Prod.ext rfl pending
  rw [fail, taken]
  rfl

namespace Ends

variable {verdict : CheckResult} {outcome : Host × CheckResult}

theorem grown (ends : Ends host news verdict outcome) :
    ∃ blocks, Heap.Grown { host.heap with blocks } news outcome.1.heap := by
  cases ends with
  | kept grown | emptied grown | failed grown => exact ⟨_, grown⟩

theorem runtime (ends : Ends host news verdict outcome) : outcome.1.runtime = host.runtime := by
  cases ends <;> rfl

/-- Where no error is pending the check finds what the verdict says, and leaves none. -/
theorem leaves (ends : Ends host news verdict outcome) (settled : host.pending = none) :
    outcome.2 = verdict ∧ Leaves host news outcome.1 := by
  cases ends with
  | kept grown => exact ⟨rfl, ⟨_, grown⟩, rfl, settled⟩
  | @emptied g _ grown => exact ⟨rfl, ⟨_, grown⟩, rfl, (host.withHeap g).pending_takeError⟩
  | @failed g _ _ _ grown said =>
    rw [said, fail_of_settled (host.withHeap g) settled]
    exact ⟨rfl, ⟨_, grown⟩, rfl, settled⟩

/-- A verdict that is not about an error is found whatever was pending. -/
theorem result (ends : Ends host news verdict outcome)
    (other : ∀ helper error, verdict ≠ .error (.failed helper error)) : outcome.2 = verdict := by
  cases ends with
  | kept | emptied => rfl
  | failed _ said => exact absurd said (other _ _)

end Ends

/-! ### Codes -/

theorem lookup_of_none (none : table.get? name = none) :
    lookup table name = .error (.missing name) := by rw [lookup, none]

theorem lookup_of_some (found : table.get? name = some code) : lookup table name = .ok code := by
  rw [lookup, found]

theorem callAdaptor_of_other (other : code ≠ .helper .complexAdaptor) (host : Host)
    (value : Option Ref) (out : Complex) : code.callAdaptor host value out = (host, 0, out) := by
  unfold Code.callAdaptor
  split
  · exact absurd rfl other
  · rfl

theorem callExtract_of_other (other : code ≠ .helper .extractRecordData) (host : Host)
    (object : Option Ref) (out : View) : code.callExtract host object out = (host, .null, out) := by
  unfold Code.callExtract
  split
  · exact absurd rfl other
  · rfl

theorem callRelease_of_other (other : code ≠ .helper .releaseRecordBuffer) (host : Host)
    (view : View) : code.callRelease host view = host := by
  unfold Code.callRelease
  split
  · exact absurd rfl other
  · rfl

theorem callRecreate_of_other (other : code ≠ .helper .recreateRecord) (host : Host)
    (start : Address) (size : Int) (dtype : Option Ref) :
    code.callRecreate host start size dtype = (host, none) := by
  unfold Code.callRecreate
  split
  · exact absurd rfl other
  · rfl

end Check

end NativeBridge
