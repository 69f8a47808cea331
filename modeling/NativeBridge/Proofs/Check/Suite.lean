import NativeBridge.Proofs.Check.Buffers
import NativeBridge.Proofs.Check.Conversion
import NativeBridge.Proofs.Check.Records

/-! The suite of checks.

    What a check finds depends on the codes it looks up and on whether there is a runtime, and it
    leaves the host ready for the next (`Check.Decided`). So, by induction over the checks that ran
    before, none of them bears on what another finds, whether they passed or failed
    (`Check.getElem?_outcomes`), and the report is read off what they found
    (`Check.runAll_report`). -/

namespace NativeBridge

namespace Check

variable {host host' : Host} {installed : Bool} {table table' : ExportTable} {name : String}
  {names : List String} {result : CheckResult} {next : Code → CheckResult}
  {find : String → Option Code}

/-! ### Names looked up in order -/

/-- The first of these names that has no code. -/
def firstMissing (find : String → Option Code) (names : List String) : Option String :=
  names.find? fun name => (find name).isNone

theorem firstMissing_cons_of_none {rest : List String} (none : find name = none) :
    firstMissing find (name :: rest) = some name := by simp [firstMissing, none]

theorem firstMissing_cons_of_some {code : Code} {rest : List String}
    (found : find name = some code) :
    firstMissing find (name :: rest) = firstMissing find rest := by simp [firstMissing, found]

/-- The check ends for want of the first of these names that has no code, or goes through. -/
def Wants (find : String → Option Code) (names : List String) (result : CheckResult) : Prop :=
  ∀ name, result = .error (.missing name) ↔ firstMissing find names = some name

theorem wants_missing {rest : List String} (none : find name = none) :
    Wants find (name :: rest) (.error (.missing name)) := by
  intro other
  rw [firstMissing_cons_of_none none]
  simp

theorem Wants.cons {code : Code} {rest : List String} (found : find name = some code)
    (wants : Wants find rest result) : Wants find (name :: rest) result := by
  intro other
  rw [firstMissing_cons_of_some found]
  exact wants other

theorem wants_nil (through : ∀ name, result ≠ .error (.missing name)) : Wants find [] result :=
  fun name => iff_of_false (through name) (by simp [firstMissing])

/-- A name that is looked up first. -/
theorem wants_lookup {rest : List String} (wants : ∀ code, Wants table.get? rest (next code)) :
    Wants table.get? (name :: rest) (lookup table name >>= next) := by
  cases found : table.get? name with
  | none =>
    rw [lookup_of_none found]
    exact wants_missing found
  | some code =>
    rw [lookup_of_some found]
    exact (wants code).cons found

theorem lookup_congr (same : table'.get? name = table.get? name) :
    lookup table' name = lookup table name := by rw [lookup, lookup, same]

/-! ### Comparisons -/

theorem expect_ne_missing {α : Type} (c : Comparison α) (helper : String) (got want : α) :
    expect c helper got want ≠ .error (.missing name) := by
  rw [expect]
  split <;> simp

theorem expectEach_ne_missing {α β : Type} (c : Comparison β) (helper : String) (function : α → β)
    (pairs : List (α × β)) : expectEach c helper function pairs ≠ .error (.missing name) := by
  induction pairs with
  | nil => simp [expectEach]
  | cons pair rest ih =>
    rw [expectEach]
    split
    · rename_i failure failed
      intro same
      obtain rfl : failure = .missing name := by simpa using same
      exact expect_ne_missing _ _ _ _ failed
    · exact ih

theorem bind_ne_missing {rest : CheckResult} (first : result ≠ .error (.missing name))
    (second : rest ≠ .error (.missing name)) :
    (result >>= fun _ => rest) ≠ .error (.missing name) := by
  cases result with
  | ok => exact second
  | error failure => exact first

/-! ### One check -/

/-- The check is decided by the codes under these names, and by whether there is a runtime. -/
structure Decided (entry : Entry) (names : List String) : Prop where
  ready : ∀ {host installed} (table), Ready host installed →
    Ready (entry.run host table).1 installed
  same : ∀ {host host' installed table table'}, Ready host installed → Ready host' installed →
    (∀ name ∈ names, table'.get? name = table.get? name) →
    (entry.run host' table').2 = (entry.run host table).2
  wants : ∀ {host installed} (table), Ready host installed →
    Wants table.get? names (entry.run host table).2

/-- A check that does not touch the host. -/
theorem decided_pure {run : ExportTable → CheckResult} (title : String)
    (same : ∀ {table table'}, (∀ name ∈ names, table'.get? name = table.get? name) →
      run table' = run table)
    (wants : ∀ table : ExportTable, Wants table.get? names (run table)) :
    Decided (.pure title run) names :=
  ⟨fun _ ready => ready, fun _ _ => same, fun table _ => wants table⟩

/-- A check that ends as a verdict says. -/
theorem decided_of_verdict {entry : Entry} (verdict : Bool → (String → Option Code) → CheckResult)
    (ends : ∀ {host installed} (table : ExportTable), Ready host installed →
      ∃ news, Ends host news (verdict installed table.get?) (entry.run host table))
    (same : ∀ {installed find find'}, (∀ name ∈ names, find' name = find name) →
      verdict installed find' = verdict installed find)
    (wants : ∀ installed find, Wants find names (verdict installed find)) :
    Decided entry names := by
  have finds : ∀ {host installed} (table : ExportTable), Ready host installed →
      (entry.run host table).2 = verdict installed table.get? ∧
        Ready (entry.run host table).1 installed := by
    intro host installed table ready
    obtain ⟨news, ended⟩ := ends table ready
    obtain ⟨found, leaves⟩ := ended.leaves ready.settled
    exact ⟨found, ready.of_leaves leaves⟩
  refine ⟨fun table ready => (finds table ready).2,
    fun {_ _ _ table table'} ready ready' agree => ?_, fun table ready => ?_⟩
  · rw [(finds table ready).1, (finds table' ready').1]
    exact same agree
  · rw [(finds table ready).1]
    exact wants _ _

theorem decided_complexAdaptor :
    Decided ⟨"complex_adaptor", complexAdaptor⟩ ["complex_adaptor"] := by
  refine decided_of_verdict (fun _ => complexVerdict)
    (fun table ready => ⟨_, ends_complexAdaptor _ table⟩) (fun agree => ?_)
    fun _ find => ?_
  · rw [complexVerdict, complexVerdict, agree _ List.mem_cons_self]
  · rw [complexVerdict]
    split
    · exact wants_missing ‹_›
    · refine (wants_nil fun name => ?_).cons ‹_›
      split <;> simp

theorem decided_extractRecordData : Decided ⟨"extract_record_data", extractRecordData⟩
    ["extract_record_data", "release_record_buffer"] := by
  refine decided_of_verdict (fun _ => extractVerdict)
    (fun table ready => ⟨_, ends_extractRecordData _ table⟩) (fun agree => ?_)
    fun _ find => ?_
  · rw [extractVerdict, extractVerdict, agree _ List.mem_cons_self,
      agree _ (List.mem_cons_of_mem _ List.mem_cons_self)]
  · rw [extractVerdict]
    split
    · exact wants_missing ‹_›
    · exact (wants_missing ‹_›).cons ‹_›
    · refine ((wants_nil fun name => ?_).cons ‹_›).cons ‹_›
      split_ifs <;> simp

theorem decided_recreateRecord :
    Decided ⟨"recreate_record", recreateRecord⟩ ["recreate_record"] := by
  refine decided_of_verdict recreateVerdict
    (fun table ready => ⟨_, ends_recreateRecord ready.kind ready.runtime table⟩)
    (fun agree => ?_) fun _ find => ?_
  · rw [recreateVerdict, recreateVerdict, agree _ List.mem_cons_self]
  · rw [recreateVerdict]
    split
    · exact wants_missing ‹_›
    · refine (wants_nil fun name => ?_).cons ‹_›
      split_ifs <;> simp

theorem decided_rounding :
    Decided (.pure "rounding" rounding) ["round_even", "roundf_even", "fptoui"] := by
  refine decided_pure "rounding" (fun agree => ?_) fun table => ?_
  · rw [rounding, rounding, lookup_congr (agree "round_even" (by simp)),
      lookup_congr (agree "roundf_even" (by simp)), lookup_congr (agree "fptoui" (by simp))]
  · refine wants_lookup fun round => wants_lookup fun roundSingle => wants_lookup fun unsigned =>
      wants_nil fun name => ?_
    exact bind_ne_missing (expectEach_ne_missing _ _ _ _)
      (bind_ne_missing (expectEach_ne_missing _ _ _ _) (expect_ne_missing _ _ _ _))

theorem decided_integerDivision :
    Decided (.pure "integer division" integerDivision) ["sdiv", "srem", "udiv", "urem"] := by
  refine decided_pure "integer division" (fun agree => ?_) fun table => ?_
  · rw [integerDivision, integerDivision, lookup_congr (agree "sdiv" (by simp)),
      lookup_congr (agree "srem" (by simp)), lookup_congr (agree "udiv" (by simp)),
      lookup_congr (agree "urem" (by simp))]
  · refine wants_lookup fun sdiv => wants_lookup fun srem => wants_lookup fun udiv =>
      wants_lookup fun urem => wants_nil fun name => ?_
    exact bind_ne_missing (expect_ne_missing _ _ _ _) (bind_ne_missing (expect_ne_missing _ _ _ _)
      (bind_ne_missing (expect_ne_missing _ _ _ _) (expect_ne_missing _ _ _ _)))

theorem decided_power : Decided (.pure "cpow" power) ["cpow"] := by
  refine decided_pure "cpow" (fun agree => ?_) fun table => ?_
  · rw [power, power, lookup_congr (agree "cpow" (by simp))]
  · exact wants_lookup fun code => wants_nil fun name => expect_ne_missing _ _ _ _

theorem decided_mathematics :
    Decided (.pure "math" mathematics) ["sqrt", "sqrtf", "hypot"] := by
  refine decided_pure "math" (fun agree => ?_) fun table => ?_
  · rw [mathematics, mathematics, lookup_congr (agree "sqrt" (by simp)),
      lookup_congr (agree "sqrtf" (by simp)), lookup_congr (agree "hypot" (by simp))]
  · refine wants_lookup fun sqrt => wants_lookup fun sqrtSingle => wants_lookup fun hypot =>
      wants_nil fun name => ?_
    exact bind_ne_missing (expect_ne_missing _ _ _ _)
      (bind_ne_missing (expect_ne_missing _ _ _ _) (expect_ne_missing _ _ _ _))

/-! ### One check after the other -/

/-- The names that each check of the suite looks up, in this order. -/
def lookups : List (List String) :=
  [["complex_adaptor"], ["extract_record_data", "release_record_buffer"], ["recreate_record"],
    ["round_even", "roundf_even", "fptoui"], ["sdiv", "srem", "udiv", "urem"], ["cpow"],
    ["sqrt", "sqrtf", "hypot"]]

theorem decided_suite : List.Forall₂ Decided suite lookups :=
  .cons decided_complexAdaptor <| .cons decided_extractRecordData <|
    .cons decided_recreateRecord <| .cons decided_rounding <| .cons decided_integerDivision <|
      .cons decided_power <| .cons decided_mathematics .nil

/-- What the checks find, each on the host that the ones before it left. -/
def outcomes (table : ExportTable) (host : Host) : List Entry → List CheckResult
  | [] => []
  | entry :: rest => (entry.run host table).2 :: outcomes table (entry.run host table).1 rest

theorem length_outcomes (table : ExportTable) (host : Host) (entries : List Entry) :
    (outcomes table host entries).length = entries.length := by
  induction entries generalizing host with
  | nil => rfl
  | cons entry rest ih => rw [outcomes, List.length_cons, List.length_cons, ih]

/-- Whatever ran before, a check finds what it would find alone. -/
theorem getElem?_outcomes (table : ExportTable) {entries : List Entry}
    {needs : List (List String)} {entry : Entry} {i : Nat}
    (decided : List.Forall₂ Decided entries needs) (ready : Ready host installed)
    (at_ : entries[i]? = some entry) (named : needs[i]? = some names) :
    ∃ host₁, Ready host₁ installed ∧ Decided entry names ∧
      (outcomes table host entries)[i]? = some (entry.run host₁ table).2 := by
  induction decided generalizing host i with
  | nil => cases at_
  | cons first _ ih =>
    cases i with
    | zero =>
      cases at_
      cases named
      exact ⟨host, ready, first, rfl⟩
    | succ i => exact ih (first.ready table ready) at_ named

/-! ### The report -/

/-- Whether a line is about a failing check. -/
def isFail (line : String) : Bool := "FAIL  ".toList.isPrefixOf line.toList

theorem countP_line? (verbose : Bool) (title : String) (result : CheckResult) :
    (line? verbose title result).toList.countP isFail = if result.isOk then 0 else 1 := by
  cases result with
  | error failure =>
    have failing : isFail ("FAIL  " ++ title ++ ": " ++ failure.message) = true := by
      rw [isFail, String.append_assoc, String.append_assoc, String.toList_append,
        List.isPrefixOf_iff_prefix]
      exact List.prefix_append _ _
    simp [line?, failing, Except.isOk, Except.toBool]
  | ok =>
    have passing : isFail ("ok    " ++ title) = false := by
      rw [isFail, String.toList_append]
      rfl
    cases verbose <;> simp [line?, passing, Except.isOk, Except.toBool]

/-- The report has the lines of the outcomes, and counts those of failing checks. -/
theorem runAll_report (table : ExportTable) (verbose : Bool) (host : Host) (entries : List Entry) :
    (runAll table verbose host entries).2.lines =
        (entries.zip (outcomes table host entries)).filterMap
          (fun found => line? verbose found.1.name found.2) ∧
      (runAll table verbose host entries).2.failed =
        (runAll table verbose host entries).2.lines.countP isFail := by
  induction entries generalizing host with
  | nil => exact ⟨rfl, rfl⟩
  | cons entry rest ih =>
    obtain ⟨lines, failed⟩ := ih (entry.run host table).1
    have all : (runAll table verbose host (entry :: rest)).2.lines =
        (line? verbose entry.name (entry.run host table).2).toList ++
          (runAll table verbose (entry.run host table).1 rest).2.lines := rfl
    have count : (runAll table verbose host (entry :: rest)).2.failed =
        if (entry.run host table).2.isOk then
          (runAll table verbose (entry.run host table).1 rest).2.failed
        else (runAll table verbose (entry.run host table).1 rest).2.failed + 1 := rfl
    refine ⟨?_, ?_⟩
    · rw [all, lines, outcomes, List.zip_cons_cons, List.filterMap_cons]
      cases line? verbose entry.name (entry.run host table).2 <;> rfl
    · rw [count, all, List.countP_append, countP_line?, ← failed]
      split <;> omega

theorem ready_runAll {entries : List Entry} {needs : List (List String)}
    (decided : List.Forall₂ Decided entries needs) (verbose : Bool)
    (ready : Ready host installed) : Ready (runAll table verbose host entries).1 installed := by
  induction decided generalizing host with
  | nil => exact ready
  | cons first _ ih => exact ih (first.ready table ready)

/-- What each of the seven checks finds is decided by the codes it looks up itself, in their order,
    and by whether there is a runtime: it is what the check finds alone, on any other host and table
    that agree in these. There is one line for each failing check and, when asked for, one for each
    passing check, in order, and the lines of failing checks are counted. No check leaves an error
    pending. -/
theorem run_decided_by_lookups (ready : Ready host installed) (table : ExportTable)
    (verbose : Bool) :
    let found := outcomes table host suite
    let report := (run host table verbose).2
    (found.length = suite.length ∧ lookups.length = suite.length) ∧
      (∀ (i : Nat) (entry : Entry) (names : List String),
        suite[i]? = some entry → lookups[i]? = some names →
        (∀ (host' : Host) (table' : ExportTable), Ready host' installed →
          (∀ name ∈ names, table'.get? name = table.get? name) →
            found[i]? = some (entry.run host' table').2 ∧
              Ready (entry.run host' table').1 installed) ∧
        ∀ name, found[i]? = some (.error (.missing name)) ↔
          names.find? (fun name => (table.get? name).isNone) = some name) ∧
      report.lines = (suite.zip found).filterMap
        (fun found => line? verbose found.1.name found.2) ∧
      report.failed = report.lines.countP isFail ∧
      Ready (run host table verbose).1 installed := by
  intro found report
  obtain ⟨lines, failed⟩ := runAll_report table verbose host suite
  refine ⟨⟨length_outcomes table host suite, rfl⟩, ?_, lines, failed,
    ready_runAll decided_suite verbose ready⟩
  intro i entry names at_ named
  obtain ⟨host₁, ready₁, decided, alone⟩ :=
    getElem?_outcomes table decided_suite ready at_ named
  refine ⟨fun host' table' ready' agree => ⟨?_, decided.ready table' ready'⟩, fun name => ?_⟩
  · rw [alone, decided.same ready₁ ready' agree]
  · rw [alone, Option.some.injEq]
    exact decided.wants table ready₁ name

/-- Codes that work, codes that fail and names that are missing. -/
def mixed : ExportTable :=
  ⟨[("complex_adaptor", .standIn .complexAdaptor), ("recreate_record", .helper .recreateRecord),
    ("sdiv", .helper .sdiv), ("srem", .helper .srem), ("udiv", .helper .udiv),
    ("urem", .helper .urem), ("unused", .other)]⟩

/-- Without a runtime the fifth check alone passes. The third finds what it finds on a table with
    nothing but its own helper. -/
theorem run_decided_by_lookups_of_mixed :
    Ready Host.initial false ∧
      (run Host.initial mixed true).2 =
        ⟨6, ["FAIL  complex_adaptor: `complex_adaptor` failed: value has no numeric coercion",
          "FAIL  extract_record_data: helper `extract_record_data` is not exported",
          "FAIL  recreate_record: `recreate_record` failed: host runtime has no record kind",
          "FAIL  rounding: helper `round_even` is not exported",
          "ok    integer division",
          "FAIL  cpow: helper `cpow` is not exported",
          "FAIL  math: helper `sqrt` is not exported"]⟩ ∧
      (outcomes mixed Host.initial suite)[2]? =
        some (recreateRecord Host.initial ⟨[("recreate_record", .helper .recreateRecord)]⟩).2 ∧
      (run Host.initial mixed true).2.failed =
        (run Host.initial mixed true).2.lines.countP isFail := by
  have ready : Ready Host.initial false := ⟨⟨_, rfl, rfl, rfl⟩, rfl, rfl⟩
  obtain ⟨-, each, -, counted, -⟩ := run_decided_by_lookups ready mixed true
  refine ⟨ready, by decide +kernel, ?_, counted⟩
  exact ((each 2 _ _ rfl rfl).1 _ _ ready (by decide)).1

end Check

end NativeBridge
