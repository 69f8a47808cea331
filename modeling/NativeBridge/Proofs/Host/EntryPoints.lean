import NativeBridge.Host
import NativeBridge.Proofs.Custody.Buffers
import NativeBridge.Proofs.Custody.Invariants
import NativeBridge.Proofs.Custody.Records
import NativeBridge.Proofs.Host.Errors

/-! What an entry point answers, compared with the call it stands for.

    An entry point answers its sentinel exactly where the call fails; it then leaves its output
    alone and parks that failure on the thread that calls. Otherwise it hands over the result, with
    all that the result holds, and parks nothing (`Host.Refines`). -/

namespace NativeBridge

/-- The failure of a call, if it fails. -/
def errorOf {ε α : Type} : Except ε α → Option ε
  | .error e => some e
  | .ok _ => none

namespace Host

/-- The call that the entry point for records stands for. -/
def rebuild (host : Host) (start : Address) (size : Int) (dtype : Option Ref) :
    Heap × Except ReconstructError Ref :=
  if size < 0 then (host.heap, .error .copyFailed)
  else host.heap.reconstruct host.runtime start size.toNat dtype

/-- An entry point that goes from `host` to `host'` refines a call: `sentinel` says that it answered
    its sentinel, `kept` that its output is as before, `given` that it handed over a result. -/
structure Refines {ε α : Type} (host host' : Host) (call : Heap × Except ε α)
    (parks : ε → HelperError) (sentinel kept : Prop) (given : α → Prop) : Prop where
  heap : host'.heap = call.1
  runtime : host'.runtime = host.runtime
  apart : host.Apart host'
  sentinel : sentinel ↔ ∃ e, call.2 = .error e
  failed : ∀ e, call.2 = .error e → kept ∧ host'.pending = some (parks e)
  succeeded : ∀ result, call.2 = .ok result → given result ∧ host'.pending = host.pending

namespace Refines

variable {ε α : Type} {host : Host} {named : ε → HelperError} {sentinel kept : Prop}
  {given : α → Prop}

theorem of_error {h : Heap} {e : ε} (answered : sentinel) (output : kept) :
    Refines host ((host.withHeap h).setError (named e)) (h, .error e) named sentinel kept
      given := by
  have parked := (host.withHeap h).parks_setError (named e)
  refine ⟨rfl, rfl, ⟨rfl, parked.others⟩, ⟨fun _ => ⟨e, rfl⟩, fun _ => answered⟩, ?_, ?_⟩
  · rintro e' he
    cases he
    exact ⟨output, parked.pending⟩
  · rintro result ok
    cases ok

theorem of_ok {h : Heap} {result : α} (answered : ¬sentinel) (output : given result) :
    Refines host (host.withHeap h) (h, .ok result) named sentinel kept given := by
  refine ⟨rfl, rfl, ⟨rfl, fun _ _ => rfl⟩, ⟨fun null => absurd null answered, ?_⟩, ?_, ?_⟩
  · rintro ⟨e, he⟩
    cases he
  · rintro e he
    cases he
  · rintro result' ok
    cases ok
    exact ⟨output, rfl⟩

/-- An entry point parks the failure of its call. -/
theorem parks {host' : Host} {call : Heap × Except ε α}
    (refines : Refines host host' call named sentinel kept given) :
    host.Parks ((errorOf call.2).map named) host' := by
  refine ⟨refines.apart, ?_⟩
  cases hc : call.2 with
  | error e => exact (refines.failed e hc).2
  | ok result => exact (refines.succeeded result hc).2

end Refines

variable (host : Host)

theorem refines_complexAdaptor (value : Option Ref) (out : Complex) :
    let answer := host.complexAdaptor value out
    host.Refines answer.1 (host.heap.adapt value) .conversion (answer.2.1 = 0) (answer.2.2 = out)
      fun number => answer.2.1 = 1 ∧ answer.2.2 = number := by
  unfold complexAdaptor
  rcases host.heap.adapt value with ⟨h, e | number⟩
  · exact .of_error rfl rfl
  · exact .of_ok (show ¬(1 : Int) = 0 by decide) ⟨rfl, rfl⟩

theorem refines_extractRecordData (object : Option Ref) (out : View) :
    let answer := host.extractRecordData object out
    host.Refines answer.1 (host.heap.extract object Strategy.standard) .extract
      (answer.2.1 = .null) (answer.2.2 = out)
      fun view => answer.2.1 = view.start ∧ view.start ≠ .null ∧ answer.2.2 = view := by
  unfold extractRecordData
  rcases taken : host.heap.extract object Strategy.standard with ⟨h, e | view⟩
  · exact .of_error rfl rfl
  -- null means failure only because no strategy takes a view at the null address
  · have somewhere := Custody.start_ne_null_of_extract taken
    exact .of_ok somewhere ⟨rfl, somewhere, rfl⟩

theorem refines_recreateRecord (start : Address) (size : Int) (dtype : Option Ref) :
    let answer := host.recreateRecord start size dtype
    host.Refines answer.1 (host.rebuild start size dtype) .reconstruct (answer.2 = none)
      (answer.2 = none) fun record => answer.2 = some record := by
  unfold recreateRecord rebuild
  split
  · exact .of_error rfl rfl
  · rcases host.heap.reconstruct host.runtime start size.toNat dtype with ⟨h, e | record⟩
    · exact .of_error rfl rfl
    · exact .of_ok nofun rfl

/-! ### Entry points as moves -/

section Moves

variable {host : Host} {refs exports : Multiset Ref} {views : Multiset View}

theorem moves_complexAdaptor {value : Option Ref} (out : Complex) (mem : ∀ r ∈ value, r ∈ refs) :
    Custody.Moves ⟨host.heap, refs, exports, views⟩
      ⟨(host.complexAdaptor value out).1.heap, refs, exports, views⟩ := by
  rw [(host.refines_complexAdaptor value out).heap]
  exact Custody.moves_adapt mem

theorem moves_rebuild (start : Address) (size : Int) {dtype : Option Ref}
    (mem : ∀ r ∈ dtype, r ∈ refs) :
    Custody.Moves ⟨host.heap, refs, exports, views⟩
      ⟨(host.rebuild start size dtype).1,
        (host.rebuild start size dtype).2.toOption.toList + refs, exports, views⟩ := by
  unfold rebuild
  split
  · simpa [Except.toOption] using Relation.ReflTransGen.refl
  · exact Custody.moves_reconstruct host.runtime start size.toNat mem

theorem moves_recreateRecord (start : Address) (size : Int) {dtype : Option Ref}
    (mem : ∀ r ∈ dtype, r ∈ refs) :
    Custody.Moves ⟨host.heap, refs, exports, views⟩
      ⟨(host.recreateRecord start size dtype).1.heap,
        (host.recreateRecord start size dtype).2.toList + refs, exports, views⟩ := by
  have refines := host.refines_recreateRecord start size dtype
  have same : (host.recreateRecord start size dtype).2 =
      (host.rebuild start size dtype).2.toOption := by
    cases hc : (host.rebuild start size dtype).2 with
    | error e => exact (refines.failed e hc).1
    | ok record => exact (refines.succeeded record hc).1
  rw [refines.heap, same]
  exact moves_rebuild start size mem

theorem extractRecordData_of_error {object : Option Ref} {h : Heap} {e : ExtractError}
    (failed : host.heap.extract object Strategy.standard = (h, .error e)) (out : View) :
    host.extractRecordData object out = ((host.withHeap h).setError (.extract e), .null, out) := by
  rw [extractRecordData, failed]

theorem extractRecordData_of_ok {object : Option Ref} {h : Heap} {view : View}
    (taken : host.heap.extract object Strategy.standard = (h, .ok view)) (out : View) :
    host.extractRecordData object out = (host.withHeap h, view.start, view) := by
  rw [extractRecordData, taken]

end Moves

end Host

/-! ### What is held afterwards -/

/-- Exactly these references and exports are held of the heap. -/
structure Heap.Books (h : Heap) (refs exports : Multiset Ref) : Prop where
  accounts : h.Accounts refs
  tallies : h.Tallies exports

namespace Heap.Books

variable {h : Heap} {refs exports : Multiset Ref}

theorem moves {c c' : Custody} (books : c.heap.Books c.allRefs c.allExports)
    (moves : Custody.Moves c c') : c'.heap.Books c'.allRefs c'.allExports := by
  refine ⟨?_, Custody.tallies_moves moves books.tallies⟩
  induction moves with
  | refl => exact books.accounts
  | tail _ move ih => exact Custody.accounts_move move ih

/-- Nothing is held in views yet. -/
theorem in_hand (books : h.Books refs exports) :
    (⟨h, refs, exports, 0⟩ : Custody).heap.Books (Custody.allRefs ⟨h, refs, exports, 0⟩)
      (Custody.allExports ⟨h, refs, exports, 0⟩) := by
  simpa [Custody.allRefs, Custody.allExports] using books

theorem adapt (books : h.Books refs exports) {value : Option Ref}
    (mem : ∀ r ∈ value, r ∈ refs) : (h.adapt value).1.Books refs exports := by
  have after := books.in_hand.moves (Custody.moves_adapt mem)
  simpa [Custody.allRefs, Custody.allExports] using after

/-- The view that is taken holds a reference and, unless it is a legacy one, an export. -/
theorem extract (books : h.Books refs exports) {object : Option Ref}
    (mem : ∀ r ∈ object, r ∈ refs) (strategies : List Strategy) :
    let call := h.extract object strategies
    call.1.Books (refs + call.2.toOption.toList.flatMap View.refs)
      (exports + call.2.toOption.toList.flatMap View.exports) := by
  have after := books.in_hand.moves (Custody.moves_extract mem strategies)
  simpa [Custody.allRefs, Custody.allExports, Multiset.coe_bind] using after

/-- The record that is rebuilt is held, and nothing else. -/
theorem rebuild {host : Host} (books : host.heap.Books refs exports) {dtype : Option Ref}
    (mem : ∀ r ∈ dtype, r ∈ refs) (start : Address) (size : Int) :
    let call := host.rebuild start size dtype
    call.1.Books (refs + call.2.toOption.toList) exports := by
  have after := books.in_hand.moves (Host.moves_rebuild start size mem)
  simpa [Custody.allRefs, Custody.allExports, add_comm] using after

end Heap.Books

end NativeBridge
