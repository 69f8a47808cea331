import NativeBridge.Proofs.Check.Suite
import NativeBridge.Proofs.Conversion.Restoration
import NativeBridge.Proofs.Host.EntryPoints
import NativeBridge.Proofs.Record.RoundTrip

/-! What a run of the checks leaves alive.

    What each check leaves is known from how it ends, and whatever it makes and drops on the way is
    counted, by any code. So a run adds to the heap what its checks add to it one after the other
    (`Check.adds_runAll`), and the counters of live objects go up by these objects alone
    (`Check.Adds.live`, `Check.Adds.total`). Among the checks of the suite only the cycles of taking
    and releasing a buffer can leave anything (`Check.Unreleased`). -/

namespace NativeBridge

namespace Check

variable {host host' host'' : Host} {installed : Bool} {table : ExportTable} {code : Code}
  {objects more : List Object} {outcome : Host × CheckResult}
  {next : Host → Host × CheckResult}

/-! ### Counting along a check -/

theorem counts_callAdaptor (code : Code) (host : Host) (value : Option Ref) (out : Complex) :
    host.heap.Counts (code.callAdaptor host value out).1.heap := by
  by_cases own : code = .helper .complexAdaptor
  · subst own
    rw [Code.callAdaptor, (host.refines_complexAdaptor value out).heap]
    exact Heap.counts_adapt host.heap value
  · rw [callAdaptor_of_other own]
    exact .refl host.heap

theorem counts_callExtract (code : Code) (host : Host) (object : Option Ref) (out : View) :
    host.heap.Counts (code.callExtract host object out).1.heap := by
  by_cases own : code = .helper .extractRecordData
  · subst own
    rw [Code.callExtract, (host.refines_extractRecordData object out).heap]
    exact Heap.counts_extract host.heap object Strategy.standard
  · rw [callExtract_of_other own]
    exact .refl host.heap

theorem counts_callRelease (code : Code) (host : Host) (view : View) :
    host.heap.Counts (code.callRelease host view).heap := by
  by_cases own : code = .helper .releaseRecordBuffer
  · subst own
    exact Heap.counts_releaseView host.heap view
  · rw [callRelease_of_other own]
    exact .refl host.heap

theorem counts_callRecreate (code : Code) (host : Host) (start : Address) (size : Int)
    (dtype : Option Ref) : host.heap.Counts (code.callRecreate host start size dtype).1.heap := by
  by_cases own : code = .helper .recreateRecord
  · subst own
    rw [Code.callRecreate, (host.refines_recreateRecord start size dtype).heap, Host.rebuild]
    split
    · exact .refl host.heap
    · exact Heap.counts_reconstruct host.heap host.runtime start size.toNat dtype
  · rw [callRecreate_of_other own]
    exact .refl host.heap

theorem counts_andThen {h : Heap} (first : h.Counts outcome.1.heap)
    (rest : ∀ host : Host, host.heap.Counts (next host).1.heap) :
    h.Counts (andThen outcome next).1.heap := by
  obtain ⟨host, failure | ⟨⟩⟩ := outcome
  · exact first
  · exact first.trans (rest host)

theorem counts_releasing {h : Heap} (held : List Ref) (first : h.Counts outcome.1.heap) :
    h.Counts (releasing held outcome).1.heap :=
  first.trans (.releaseAll _ held)

/-! ### Counting along the conversions -/

theorem counts_convertAll (code : Code) (host : Host) (pairs : List (Ref × Complex)) :
    host.heap.Counts (convertAll code host pairs).1.heap := by
  induction pairs generalizing host with
  | nil => exact .refl host.heap
  | cons pair rest ih =>
    obtain ⟨value, want⟩ := pair
    have called := counts_callAdaptor code host (some value) .zero
    rw [convertAll]
    refine counts_andThen ?_ ih
    rw [convertOne]
    dsimp only
    split <;> exact called

theorem counts_refuseJunk (code : Code) (host : Host) :
    host.heap.Counts (refuseJunk code host).1.heap := by
  rw [refuseJunk]
  refine counts_releasing _ (counts_andThen ?_ fun host => counts_andThen ?_ fun host => ?_)
  · exact (Heap.Counts.alloc host.heap _).trans (counts_callAdaptor code (host.withHeap _) _ _)
  · exact .refl host.heap
  · exact .refl host.heap

theorem counts_complexAdaptor (host : Host) (table : ExportTable) :
    host.heap.Counts (complexAdaptor host table).1.heap := by
  cases found : table.get? "complex_adaptor" with
  | none =>
    rw [complexAdaptor, lookup_of_none found]
    exact .refl host.heap
  | some code =>
    rw [complexAdaptor, lookup_of_some found]
    refine counts_releasing _ (counts_andThen
      (.trans ?_ (counts_convertAll code (host.withHeap _) _)) (counts_refuseJunk code))
    exact (((Heap.Counts.alloc host.heap _).trans (.alloc _ _)).trans (.alloc _ _)).trans
      ((Heap.Counts.alloc _ _).trans (.alloc _ _))

/-! ### Counting along the buffers -/

theorem counts_extractOften (extract release : Code) (holder bytes : Ref) (host : Host) (n : Nat) :
    host.heap.Counts (extractOften extract release holder bytes host n).1.heap := by
  induction n generalizing host with
  | zero => exact .refl host.heap
  | succ n ih =>
    have called := counts_callExtract extract host (some holder) .empty
    rw [extractOften]
    dsimp only
    split
    · exact called
    · refine counts_andThen called fun host => counts_andThen ?_ fun host => ?_
      · exact .refl host.heap
      · exact (counts_callRelease release host _).trans (ih _)

theorem counts_extractCurrent (extract release : Code) (host : Host) :
    host.heap.Counts (extractCurrent extract release host).1.heap := by
  rw [extractCurrent]
  refine counts_releasing _ (counts_andThen (.trans ?_ (counts_extractOften extract release _ _
    (host.withHeap _) cycles)) fun host => counts_andThen ?_ fun host => ?_)
  · exact (Heap.Counts.alloc host.heap _).trans (.create _ _)
  · exact .refl host.heap
  · exact .refl host.heap

theorem counts_extractWindow (extract release : Code) (host : Host) :
    host.heap.Counts (extractWindow extract release host).1.heap := by
  rw [extractWindow]
  refine counts_releasing _ (counts_andThen (.trans ?_ (counts_callExtract extract
    (host.withHeap _) _ _)) fun host => counts_andThen ?_ fun host => ?_)
  · exact ((Heap.Counts.alloc host.heap _).trans (.create _ _)).trans (.create _ _)
  · exact .refl host.heap
  · exact counts_callRelease release host _

theorem counts_extractNothing (extract : Code) (host : Host) :
    host.heap.Counts (extractNothing extract host).1.heap := by
  rw [extractNothing]
  refine counts_releasing _ (counts_andThen ?_ fun host => ?_)
  · exact (Heap.Counts.alloc host.heap (.int 1)).trans
      (counts_callExtract extract (host.withHeap _) _ _)
  · exact .refl host.heap

theorem counts_extractRecordData (host : Host) (table : ExportTable) :
    host.heap.Counts (extractRecordData host table).1.heap := by
  cases found : table.get? "extract_record_data" with
  | none =>
    rw [extractRecordData, lookup_of_none found]
    exact .refl host.heap
  | some extract =>
    cases found' : table.get? "release_record_buffer" with
    | none =>
      rw [extractRecordData, lookup_of_some found, lookup_of_none found']
      exact .refl host.heap
    | some release =>
      rw [extractRecordData, lookup_of_some found, lookup_of_some found']
      exact counts_andThen (counts_extractCurrent extract release host) fun host =>
        counts_andThen (counts_extractWindow extract release host) (counts_extractNothing extract)

/-! ### Counting along the record -/

theorem counts_recreateRecord (host : Host) (table : ExportTable) :
    host.heap.Counts (recreateRecord host table).1.heap := by
  cases found : table.get? "recreate_record" with
  | none =>
    rw [recreateRecord, lookup_of_none found]
    exact .refl host.heap
  | some code =>
    have made : host.heap.Counts (prepared host.heap) :=
      (Heap.Counts.alloc host.heap (.descriptor pairLayout false)).trans (.of_same rfl fun _ => rfl)
    have called : host.heap.Counts (callPrepared code host).1.heap :=
      made.trans (counts_callRecreate code (host.withHeap _) _ _ _)
    rw [recreateRecord_of_found found]
    refine counts_releasing _ ?_
    rcases answer : callPrepared code host with ⟨host', _ | record⟩
    all_goals rw [answer] at called
    · exact called
    · have overwritten : host'.heap.Counts (host'.heap.overwrite host.heap.blocks.length 0xee) :=
        .of_same rfl fun _ => rfl
      refine called.trans (counts_releasing _ (counts_andThen overwritten fun host => ?_))
      exact .refl host.heap

/-! ### What is added -/

/-- These objects joined the heap under new identities, memory outside may have been written, and
    nothing else changed but the counters, which follow the objects. -/
structure Adds (host : Host) (objects : List Object) (host' : Host) : Prop where
  heap : ∃ blocks news, news.map (·.2) = objects ∧
    Heap.Grown { host.heap with blocks } news host'.heap
  counts : host.heap.Counts host'.heap
  runtime : host'.runtime = host.runtime

/-- What the objects of a check depend on: as `Ready`, with any error pending. -/
structure Equipped (host : Host) (installed : Bool) : Prop where
  kind : host.heap.KindStands
  runtime : host.runtime = if installed then some .reference else none

namespace Adds

theorem refl (host : Host) : Adds host [] host :=
  ⟨⟨_, [], rfl, .refl host.heap⟩, .refl host.heap, rfl⟩

theorem of_ends {news : List (Ref × Object)} {verdict : CheckResult}
    (ends : Ends host news verdict outcome) (counts : host.heap.Counts outcome.1.heap) :
    Adds host (news.map (·.2)) outcome.1 := by
  obtain ⟨blocks, grown⟩ := ends.grown
  exact ⟨⟨blocks, news, rfl, grown⟩, counts, ends.runtime⟩

theorem trans (first : Adds host objects host') (second : Adds host' more host'') :
    Adds host (objects ++ more) host'' := by
  obtain ⟨_, news, rfl, grown⟩ := first.heap
  obtain ⟨blocks, news', rfl, grown'⟩ := second.heap
  have both := (grown.withBlocks fun _ => blocks).trans grown'
  exact ⟨⟨blocks, news ++ news', List.map_append, both.perm List.perm_append_comm⟩,
    first.counts.trans second.counts, second.runtime.trans first.runtime⟩

/-- The next check finds the host as well equipped as this one did. -/
theorem equipped (adds : Adds host objects host') (equipped : Equipped host installed) :
    Equipped host' installed := by
  obtain ⟨blocks, news, -, grown⟩ := adds.heap
  have stands : Heap.KindStands { host.heap with blocks } := equipped.kind
  exact ⟨stands.grown grown, adds.runtime.trans equipped.runtime⟩

/-- A counter goes up by the objects of its kind, when counting is on. -/
theorem live (adds : Adds host objects host') (kind : Kind) :
    host'.heap.census.live kind = host.heap.census.live kind +
      if host.heap.census.enabled then (objects.countP (·.body.kind = kind) : Int) else 0 := by
  obtain ⟨blocks, news, rfl, grown⟩ := adds.heap
  have allocated : host'.heap.allocated kind =
      host.heap.allocated kind + news.countP (·.2.body.kind = kind) := grown.allocated_eq kind
  have joined : (news.map (·.2)).countP (·.body.kind = kind) =
      news.countP (·.2.body.kind = kind) := List.countP_map
  cases on : host.heap.census.enabled with
  | false => simp [adds.counts.off on]
  | true =>
    have follows := adds.counts.live on kind
    rw [joined, if_pos rfl]
    omega

/-- The total goes up by all of them. -/
theorem total (adds : Adds host objects host') :
    host'.heap.census.total = host.heap.census.total +
      if host.heap.census.enabled then (objects.length : Int) else 0 := by
  have sum : host'.heap.census.sum = host.heap.census.sum +
      if host.heap.census.enabled then (objects.length : Int) else 0 := by
    rw [Census.sum, Census.sum, funext adds.live, List.sum_map_add]
    split
    · rw [Kind.sum_countP]
    · simp
  have := adds.counts.total
  omega

/-- With nothing added all is as before, the memory outside apart. -/
theorem restores (adds : Adds host [] host') :
    (∀ r, host'.heap.get? r = host.heap.get? r) ∧
      (∀ kind, host'.heap.census.live kind = host.heap.census.live kind) ∧
      host'.heap.census.total = host.heap.census.total := by
  obtain ⟨blocks, news, none, grown⟩ := adds.heap
  obtain rfl : news = [] := List.map_eq_nil_iff.mp none
  refine ⟨fun r => grown.old r (by simp), fun kind => ?_, ?_⟩
  · simp [adds.live kind]
  · simp [adds.total]

/-- With one object added there is that one besides, under a new identity. -/
theorem one {o : Object} (adds : Adds host [o] host') :
    ∃ r, host.heap.slots.length ≤ r ∧ host'.heap.get? r = some o ∧
      ∀ t, t ≠ r → host'.heap.get? t = host.heap.get? t := by
  obtain ⟨blocks, news, single, grown⟩ := adds.heap
  obtain ⟨⟨r, o⟩, rfl, rfl⟩ := List.map_eq_singleton_iff.mp single
  exact ⟨r, grown.fresh _ List.mem_cons_self, grown.new _ List.mem_cons_self,
    fun t other => grown.old t (by simpa using other)⟩

end Adds

/-! ### One check after the other -/

/-- The check leaves these objects on any host with this runtime. -/
def Adding (table : ExportTable) (installed : Bool) (entry : Entry) (objects : List Object) :
    Prop :=
  ∀ {host}, Equipped host installed → Adds host objects (entry.run host table).1

theorem adds_runAll {entries : List Entry} {leftovers : List (List Object)}
    (each : List.Forall₂ (Adding table installed) entries leftovers) (verbose : Bool)
    (equipped : Equipped host installed) :
    Adds host leftovers.flatten (runAll table verbose host entries).1 := by
  induction each generalizing host with
  | nil => exact .refl host
  | cons first _ ih => exact (first equipped).trans (ih ((first equipped).equipped equipped))

/-- What a run of the suite leaves alive. -/
def leftovers (table : ExportTable) : List Object :=
  if Unreleased table.get? then [⟨1000, 1000, .bytes source⟩] else []

theorem adding_suite (table : ExportTable) (installed : Bool) :
    List.Forall₂ (Adding table installed) suite [[], leftovers table, [], [], [], [], []] := by
  have arithmetic : ∀ (title : String) (check : ExportTable → CheckResult),
      Adding table installed (.pure title check) [] := fun _ _ {host} _ => .refl host
  refine .cons (fun {host} _ => ?_) <| .cons (fun {host} _ => ?_) <|
    .cons (fun {host} equipped => ?_) <| .cons (arithmetic _ _) <| .cons (arithmetic _ _) <|
      .cons (arithmetic _ _) <| .cons (arithmetic _ _) .nil
  · exact .of_ends (ends_complexAdaptor host table) (counts_complexAdaptor host table)
  · have leaves := Adds.of_ends (ends_extractRecordData host table)
      (counts_extractRecordData host table)
    have same : (extractLeftover table.get? host.heap.slots.length).map (·.2) =
        leftovers table := by
      rw [extractLeftover, leftovers]
      split <;> rfl
    exact same ▸ leaves
  · exact .of_ends (ends_recreateRecord equipped.kind equipped.runtime table)
      (counts_recreateRecord host table)

theorem adds_run (equipped : Equipped host installed) (table : ExportTable) (verbose : Bool) :
    Adds host (leftovers table) (run host table verbose).1 := by
  simpa [run] using adds_runAll (adding_suite table installed) verbose equipped

/-- Where buffers are not released the second check says so, whatever error was pending. -/
theorem fails_of_unreleased (unreleased : Unreleased table.get?) (host : Host) (verbose : Bool) :
    "FAIL  extract_record_data: `extract_record_data` gave 1000, expected 0" ∈
      (run host table verbose).2.lines := by
  have verdict : extractVerdict table.get? =
      .error (.mismatch "extract_record_data" "1000" "0") := by
    obtain ⟨takes, release, found, other⟩ := unreleased
    rw [Option.mem_def] at found
    rw [extractVerdict, takes, found]
    simp [other]
  have second := (ends_extractRecordData (complexAdaptor host table).1 table).result
    (by simp [verdict])
  obtain ⟨others, lines⟩ : ∃ others, (run host table verbose).2.lines =
      (line? verbose "complex_adaptor" (complexAdaptor host table).2).toList ++
        ((line? verbose "extract_record_data"
          (extractRecordData (complexAdaptor host table).1 table).2).toList ++ others) :=
    ⟨_, rfl⟩
  have line : line? verbose "extract_record_data" (extractVerdict table.get?) =
      some "FAIL  extract_record_data: `extract_record_data` gave 1000, expected 0" := by
    rw [verdict]
    rfl
  rw [lines, second, line]
  simp

/-! ### The exit report -/

/-- With counting on and nothing alive before, what was left is what the exit report is about. -/
theorem report_run (equipped : Equipped host installed) (table : ExportTable) (verbose : Bool)
    (on : host.heap.census.enabled = true) (idle : ∀ kind, host.heap.census.live kind = 0) :
    (run host table verbose).1.heap.census.report =
      if Unreleased table.get? then [(.bytes, 1)] else [] := by
  have live : (run host table verbose).1.heap.census.live =
      fun kind => ((leftovers table).countP (·.body.kind = kind) : Int) := by
    funext kind
    rw [(adds_run equipped table verbose).live kind, idle, on, if_pos rfl, Int.zero_add]
  rw [Census.report, live, leftovers]
  split <;> rfl

/-- A run of the checks leaves every earlier object and every counter of live objects as it was,
    whatever the table holds, whichever checks fail and whatever is on the heap, unless buffers are
    taken and not released. Then one more bytes object stays alive, the one of the thousand cycles,
    with a reference and an export for each of them, and the second check fails. So with counting on
    and nothing alive before, there is an exit report in that case alone, about these bytes. -/
theorem run_restores_unless_unreleased (equipped : Equipped host installed) (table : ExportTable)
    (verbose : Bool) :
    let before := host.heap
    let after := (run host table verbose).1.heap
    after.census.enabled = before.census.enabled ∧
      (¬Unreleased table.get? →
        (∀ r, after.get? r = before.get? r) ∧
          (∀ kind, after.census.live kind = before.census.live kind) ∧
          after.census.total = before.census.total) ∧
      (Unreleased table.get? →
        (∃ r, before.slots.length ≤ r ∧ after.get? r = some ⟨1000, 1000, .bytes source⟩ ∧
            ∀ t, t ≠ r → after.get? t = before.get? t) ∧
          (∀ kind, after.census.live kind = before.census.live kind +
            if before.census.enabled ∧ kind = .bytes then 1 else 0) ∧
          after.census.total = before.census.total + (if before.census.enabled then 1 else 0) ∧
          "FAIL  extract_record_data: `extract_record_data` gave 1000, expected 0" ∈
            (run host table verbose).2.lines) ∧
      (before.census.enabled = true → (∀ kind, before.census.live kind = 0) →
        after.census.report = (if Unreleased table.get? then [(.bytes, 1)] else []) ∧
          (after.census.isQuiet = false ↔ Unreleased table.get?)) := by
  intro before after
  have adds := adds_run equipped table verbose
  refine ⟨adds.counts.enabled, fun released => ?_, fun unreleased => ⟨?_, fun kind => ?_, ?_,
    fails_of_unreleased unreleased host verbose⟩, fun on idle => ?_⟩
  · rw [leftovers, if_neg released] at adds
    exact adds.restores
  · rw [leftovers, if_pos unreleased] at adds
    exact adds.one
  · rw [adds.live kind, leftovers, if_pos unreleased]
    cases before.census.enabled <;> cases kind <;> rfl
  · rw [adds.total, leftovers, if_pos unreleased]
    rfl
  · have report := report_run equipped table verbose on idle
    refine ⟨report, ?_⟩
    rw [Census.isQuiet, adds.counts.enabled, on, report]
    split <;> simp [*]

/-- Buffers are taken and never released, and every other name is missing. -/
def unreleasing : ExportTable :=
  ⟨[("extract_record_data", .helper .extractRecordData),
    ("release_record_buffer", .standIn .releaseRecordBuffer)]⟩

theorem run_leaves_bytes_of_unreleasing :
    Equipped Host.tracked true ∧ Unreleased unreleasing.get? ∧
      Host.tracked.heap.census.enabled = true ∧ (∀ kind, Host.tracked.heap.census.live kind = 0) ∧
      (run Host.tracked unreleasing false).1.heap.census.report = [(.bytes, 1)] ∧
      (run Host.tracked unreleasing false).1.heap.census.total = 1 := by
  have equipped : Equipped Host.tracked true := ⟨⟨_, rfl, rfl, rfl⟩, rfl⟩
  have unreleased : Unreleased unreleasing.get? := by decide
  obtain ⟨-, -, leaves, reports⟩ := run_restores_unless_unreleased equipped unreleasing false
  obtain ⟨-, -, total, -⟩ := leaves unreleased
  refine ⟨equipped, unreleased, rfl, fun _ => rfl, ?_, total⟩
  rw [(reports rfl fun _ => rfl).1, if_pos unreleased]

end Check

end NativeBridge
