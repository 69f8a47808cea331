import NativeBridge.Proofs.Check.Basic
import NativeBridge.Proofs.Record.Reconstruction

/-! The check of rebuilding a record.

    The descriptor and the memory are the check's own, so the reference runtime rebuilds the record
    whatever else is on the heap (`Heap.grown_reconstruct_reference`), and what it shows afterwards
    does not depend on the memory, which has been overwritten. Without a runtime the helper parks an
    error, which the check takes; other code leaves none. -/

namespace NativeBridge

namespace Heap

variable {h h' g : Heap} {r : Ref} {start : Address} {length size : Nat} {fields : List Field}

/-- The reference runtime rebuilds a record where the descriptor can be borrowed. -/
theorem grown_reconstruct_reference (stands : h.KindStands) (lends : h.Lends r)
    (described : h.layout? r = some (.record fields size))
    (yields : h.Yields .reference start length size) :
    ∃ record storage descr,
      (h.reconstruct (some .reference) start length (some r)).2 = .ok record ∧
      h.Grown (recordObjects record storage descr (h.read start size) fields size)
        (h.reconstruct (some .reference) start length (some r)).1 := by
  obtain ⟨k, found, pinned, body⟩ := stands
  have ⟨o, lent, positive, _⟩ := lends
  obtain ⟨rest, released⟩ := RefCount.release_retain positive
  obtain ⟨news, rebuilds, grown⟩ :=
    rebuilds_rebuildCombined (h.retain r) .reference start length recordKind r
  have kind : h.kind? recordKind = some .recordKind := by
    rw [kind?, body?, found]
    exact congrArg (some ∘ Body.kind) body
  obtain ⟨record, storage, descr, answer, rfl⟩ :=
    (rebuilds.congr (fun t => (body?_retain h r t).symm) rfl).eq_record ⟨rfl, kind, described⟩
      yields
  have back := grown.release_old (get?_retain_self lent) released
  rw [lends.release_retain] at back
  have whole : h.reconstruct (some .reference) start length (some r) =
      (((h.retain r).rebuildCombined .reference start length recordKind r).1.release r,
        ((h.retain r).rebuildCombined .reference start length recordKind r).2) := by
    simp only [reconstruct, Services.recordKind, Services.reference, rebuildWithKind,
      retain_of_pinned found pinned]
    exact Prod.ext (release_of_pinned (back.get?_eq found) pinned) rfl
  rw [whole]
  exact ⟨record, storage, descr, answer, back⟩

/-- What a new record shows. -/
theorem Grown.recordBytes?_eq {record storage descr : Ref} {bytes : List UInt8}
    (grown : g.Grown (recordObjects record storage descr bytes fields size) h) :
    h.recordBytes? record = some bytes := by
  have body := grown.body?_new List.mem_cons_self
  have data := grown.body?_new (List.mem_cons_of_mem _ List.mem_cons_self)
  simp [recordBytes?, body, data?, data]

theorem Grown.recordField?_eq {record storage descr : Ref} {bytes : List UInt8} {name : String}
    {field : Field} (grown : g.Grown (recordObjects record storage descr bytes fields size) h)
    (first : (Layout.record fields size).field? name = some field)
    (inside : field.stop ≤ bytes.length) :
    h.recordField? record name = some (field.scalar.cast (bytes.drop field.offset)) := by
  have body := grown.body?_new List.mem_cons_self
  have data := grown.body?_new (List.mem_cons_of_mem _ List.mem_cons_self)
  have layout := layout?_ownDescriptor (grown.new _ (List.mem_cons_of_mem _
    (List.mem_cons_of_mem _ List.mem_cons_self)))
  simp [recordField?, body, data?, data, layout, first, Nat.not_lt.mpr inside]

end Heap

namespace Check

variable {host : Host} {installed : Bool} {table : ExportTable} {code : Code}

/-! ### The record -/

/-- The descriptor of the check. -/
def ownLayout (r : Ref) : List (Ref × Object) := [(r, ⟨.fresh, 0, .descriptor pairLayout false⟩)]

theorem pairLayout_eq :
    pairLayout = .record [⟨"x", 0, .float64⟩, ⟨"n", 8, .int .eight⟩] 16 := by decide

theorem length_pairBytes : pairBytes.length = 16 := by decide

/-- The memory that the check places holds the bytes of one record. -/
theorem yields_pair (h : Heap) :
    let g := ((h.alloc (.descriptor pairLayout false)).1.place pairBytes).1
    g.read (.block h.blocks.length 0) 16 = pairBytes ∧
      g.Yields .reference (.block h.blocks.length 0) pairBytes.length 16 := by
  intro g
  have memory : g.memory (.block h.blocks.length 0) = pairBytes := by
    simp [g, Heap.memory, Heap.place, Heap.alloc]
  have length := length_pairBytes
  refine ⟨?_, rfl, rfl, by decide, by decide, length.ge, ?_⟩
  · rw [Heap.read, memory, ← length, List.take_length]
  · rw [memory, length]

/-- The heap with the descriptor and the memory of the check. -/
def prepared (h : Heap) : Heap := ((h.alloc (.descriptor pairLayout false)).1.place pairBytes).1

theorem grown_prepared (h : Heap) :
    Heap.Grown (h.place pairBytes).1 (ownLayout h.slots.length) (prepared h) :=
  (Heap.Grown.refl (h.place pairBytes).1).alloc (.descriptor pairLayout false)

/-- What the check calls with what it has prepared. -/
def callPrepared (code : Code) (host : Host) : Host × Option Ref :=
  code.callRecreate (host.withHeap (prepared host.heap)) (.block host.heap.blocks.length 0)
    pairBytes.length (some host.heap.slots.length)

/-- The memory is overwritten, and the record is looked at. -/
def inspect (host : Host) (index : Nat) (record : Ref) : Host × CheckResult :=
  let heap := host.heap.overwrite index 0xee
  let host := host.withHeap heap
  andThen (host, expect (ofOption ofBytes) "recreate_record"
    (heap.recordBytes? record) (some pairBytes)) fun host =>
      (host, expect (ofOption ofParts) "recreate_record"
        (heap.recordField? record "n") (some (.ofReal (.ofInt 11))))

theorem recreateRecord_of_found (found : table.get? "recreate_record" = some code) (host : Host) :
    recreateRecord host table = releasing [host.heap.slots.length]
      (match callPrepared code host with
      | (host', none) => fail host' "recreate_record" (.reconstruct .copyFailed)
      | (host', some record) =>
        releasing [record] (inspect host' host.heap.blocks.length record)) := by
  have called : code.callRecreate
      (host.withHeap ((host.heap.newDescriptor pairLayout).1.place pairBytes).1)
      ((host.heap.newDescriptor pairLayout).1.place pairBytes).2 pairBytes.length
      (some (host.heap.newDescriptor pairLayout).2) = callPrepared code host := rfl
  rw [recreateRecord, lookup_of_some found]
  dsimp only
  rw [called]
  rcases callPrepared code host with ⟨host', _ | record⟩ <;> rfl

/-- A record shows what it was built from. -/
theorem inspect_of_record (host : Host) {g : Heap} {record storage descr : Ref}
    {fields : List Field}
    (grown : g.Grown (Heap.recordObjects record storage descr pairBytes fields 16) host.heap)
    (layout : pairLayout = .record fields 16) (index : Nat) :
    inspect host index record = (host.withHeap (host.heap.overwrite index 0xee), .ok ()) := by
  have later := grown.withBlocks (·.modify index fun bytes => bytes.map fun _ => 0xee)
  have first : (Layout.record fields 16).field? "n" = some ⟨"n", 8, .int .eight⟩ := by
    rw [← layout]
    decide +kernel
  have bytes : (host.heap.overwrite index 0xee).recordBytes? record = some pairBytes :=
    later.recordBytes?_eq
  have field : (host.heap.overwrite index 0xee).recordField? record "n" =
      some (.ofReal (.ofInt 11)) := by
    have number : (ScalarType.int .eight).cast (pairBytes.drop 8) = .ofReal (.ofInt 11) := by
      decide +kernel
    have inside : (Field.mk "n" 8 (.int .eight)).stop ≤ pairBytes.length := length_pairBytes.ge
    exact (later.recordField?_eq first inside).trans (congrArg some number)
  have same : (ofOption ofBytes).same (some pairBytes) (some pairBytes) = true :=
    beq_self_eq_true pairBytes
  have same' : (ofOption ofParts).same (some (.ofReal (.ofInt 11)))
    (some (.ofReal (.ofInt 11))) = true := by decide +kernel
  simp only [inspect, bytes, field, expect_of_same same, expect_of_same same', andThen]

/-! ### The whole check -/

/-- What the check finds, by the code it looks up and by whether there is a runtime. -/
def recreateVerdict (installed : Bool) (find : String → Option Code) : CheckResult :=
  match find "recreate_record" with
  | none => .error (.missing "recreate_record")
  | some code =>
    if code ≠ .helper .recreateRecord then
      .error (.failed "recreate_record" (.reconstruct .copyFailed))
    else if installed = false then
      .error (.failed "recreate_record" (.reconstruct .runtimeUnavailable))
    else .ok ()

/-- The reference runtime rebuilds the record, and nothing is left of it. -/
theorem recreateRecord_of_runtime
    (found : table.get? "recreate_record" = some (.helper .recreateRecord))
    (stands : host.heap.KindStands) (runtime : host.runtime = some .reference) :
    Ends host [] (.ok ()) (recreateRecord host table) := by
  have made := grown_prepared host.heap
  have placed : (host.heap.place pairBytes).1.KindStands := stands
  have lends : (prepared host.heap).Lends host.heap.slots.length :=
    made.lends List.mem_cons_self (by decide : RefCount.fresh ≠ 0)
      (by decide : RefCount.fresh.toNat < pow2 32 - 2)
  have described : (prepared host.heap).layout? host.heap.slots.length = some pairLayout := by
    simp [Heap.layout?, Heap.descriptor?, made.body?_new List.mem_cons_self]
  rw [pairLayout_eq] at described
  obtain ⟨bytes, yields⟩ := yields_pair host.heap
  obtain ⟨record, storage, descr, answer, grown⟩ :=
    Heap.grown_reconstruct_reference (placed.grown made) lends described yields
  rw [prepared, bytes, ← prepared] at grown
  rcases built : (prepared host.heap).reconstruct (some .reference)
    (.block host.heap.blocks.length 0) pairBytes.length (some host.heap.slots.length)
    with ⟨g, result⟩
  rw [built] at answer grown
  obtain rfl : result = .ok record := answer
  have called : callPrepared (.helper .recreateRecord) host = (host.withHeap g, some record) := by
    simp [callPrepared, Code.callRecreate, Host.recreateRecord, Host.withHeap, runtime, built]
  rw [recreateRecord_of_found found, called]
  dsimp only
  rw [inspect_of_record (host.withHeap g) grown pairLayout_eq]
  have overwritten := made.withBlocks
    (·.modify host.heap.blocks.length fun bytes => bytes.map fun _ => 0xee)
  have dropped := grown.withBlocks
    (·.modify host.heap.blocks.length fun bytes => bytes.map fun _ => 0xee)
  exact .kept ((overwritten.trans dropped.release_record).release_leaf rfl rfl)

theorem ends_recreateRecord (stands : host.heap.KindStands)
    (runtime : host.runtime = if installed then some .reference else none) (table : ExportTable) :
    Ends host [] (recreateVerdict installed table.get?) (recreateRecord host table) := by
  rw [recreateVerdict]
  cases found : table.get? "recreate_record" with
  | none =>
    rw [recreateRecord, lookup_of_none found]
    exact .kept (.refl host.heap)
  | some code =>
    have made := grown_prepared host.heap
    have gone := made.release_leaf rfl rfl
    by_cases own : code = .helper .recreateRecord
    · subst own
      cases installed with
      | true => simpa using recreateRecord_of_runtime found stands runtime
      | false =>
        have called : callPrepared (.helper .recreateRecord) host =
            ((host.withHeap (prepared host.heap)).setError (.reconstruct .runtimeUnavailable),
              none) := by
          have none : host.runtime = none := runtime
          simp [callPrepared, Code.callRecreate, Host.recreateRecord, Host.withHeap, none,
            Heap.reconstruct]
        rw [recreateRecord_of_found found, called]
        dsimp only
        rw [fail_of_pending (Host.pending_setError ..), Host.takeError_setError]
        exact .emptied gone
    · have called : callPrepared code host = (host.withHeap (prepared host.heap), none) :=
        callRecreate_of_other own ..
      rw [recreateRecord_of_found found, called]
      exact .failed gone (if_pos own)

end Check

end NativeBridge
