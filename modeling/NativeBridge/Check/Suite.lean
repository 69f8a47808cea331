import NativeBridge.Check.Outcome

/-! The self-checks: each calls the helpers it needs through the export table.

    A check looks up its helpers first, so a missing one is reported before anything is called.
    Whatever way a check ends, it gives back the objects it made; a view that a broken release
    did not give back is what can remain. -/

namespace NativeBridge.Check

/-! ### Conversion to complex -/

/-- Converts one value and compares the result. -/
def convertOne (code : Code) (host : Host) (value : Ref) (want : Complex) : Host × CheckResult :=
  let (host, status, out) := code.callAdaptor host (some value) .zero
  if status ≠ 1 then fail host "complex_adaptor" (.conversion .notNumeric)
  else (host, expect ofComplex "complex_adaptor" out want)

/-- Converts values until one fails. -/
def convertAll (code : Code) (host : Host) : List (Ref × Complex) → Host × CheckResult
  | [] => (host, .ok ())
  | (value, want) :: rest =>
    andThen (convertOne code host value want) fun host => convertAll code host rest

/-- A value that is no number must be refused and the output left alone. -/
def refuseJunk (code : Code) (host : Host) : Host × CheckResult :=
  let (heap, junk) := host.heap.alloc (.bytes [97, 98, 99])
  let sentinel : Complex := ⟨.ofInt 7, .ofInt 7⟩
  let (host, status, out) := code.callAdaptor (host.withHeap heap) (some junk) sentinel
  releasing [junk] <|
    andThen (host, expect ofInt "complex_adaptor" status 0) fun host =>
      andThen (host, expect ofComplex "complex_adaptor" out sentinel) fun host =>
        expectError host "complex_adaptor" (.conversion .notNumeric)

/-- The adaptor on every kind of number and on something else. -/
def complexAdaptor (host : Host) (table : ExportTable) : Host × CheckResult :=
  match lookup table "complex_adaptor" with
  | .error failure => (host, .error failure)
  | .ok code =>
    let quarter : Double := .nearest true 1 (-2)
    let tenth : Single := .nearestQuotient true 1 10 0
    let half : Single := .nearest false 3 (-1)
    let (heap, complex) := host.heap.alloc (.complex ⟨.ofInt 3, .ofInt (-4)⟩)
    let (heap, int) := heap.alloc (.int 5)
    let (heap, float) := heap.alloc (.float quarter)
    let (heap, scalar) := heap.newComplex64 half tenth
    releasing [scalar, float, int, complex] <|
      andThen
        (convertAll code (host.withHeap heap)
          [(complex, ⟨.ofInt 3, .ofInt (-4)⟩), (int, .ofReal (.ofInt 5)), (float, .ofReal quarter),
            (scalar, ⟨half.convert, tenth.convert⟩)])
        (refuseJunk code)

/-! ### Buffers -/

/-- How often a buffer is taken and released. -/
def cycles : Nat := 1000

/-- The bytes that the buffer checks take. -/
def source : List UInt8 := (List.range 32).map .ofNat

/-- Takes a buffer over and over, releasing it each time. -/
def extractOften (extract release : Code) (holder bytes : Ref) (host : Host) :
    Nat → Host × CheckResult
  | 0 => (host, .ok ())
  | n + 1 =>
    let (host, start, view) := extract.callExtract host (some holder) .empty
    if start = .null then fail host "extract_record_data" (.extract .noBufferProtocol)
    else
      andThen (host, expect ofAddress "extract_record_data" start (.object bytes 0)) fun host =>
        andThen (host, expect ofInt "extract_record_data" view.length source.length) fun host =>
          extractOften extract release holder bytes (release.callRelease host view) n

/-- Many cycles leave neither exports nor references behind. -/
def extractCurrent (extract release : Code) (host : Host) : Host × CheckResult :=
  let (heap, bytes) := host.heap.alloc (.bytes source)
  let (heap, holder) := heap.newHolder bytes
  let references (host : Host) : Int := ((host.heap.get? bytes).map (·.count.toNat)).getD 0
  let exports (host : Host) : Int := ((host.heap.get? bytes).map (·.exports)).getD 0
  let host := host.withHeap heap
  let before := references host
  releasing [holder, bytes] <|
    andThen (extractOften extract release holder bytes host cycles) fun host =>
      andThen (host, expect ofInt "extract_record_data" (exports host) 0) fun host =>
        (host, expect ofInt "extract_record_data" (references host) before)

/-- A window into a bytes object starts at its offset. -/
def extractWindow (extract release : Code) (host : Host) : Host × CheckResult :=
  let (heap, base) := host.heap.alloc (.bytes source)
  let (heap, window) := heap.newWindow ⟨some base, .null, 8, 4⟩
  let (heap, holder) := heap.newHolder window
  let (host, start, view) := extract.callExtract (host.withHeap heap) (some holder) .empty
  releasing [holder, window, base] <|
    andThen (host, expect ofAddress "extract_record_data" start (.object base 4)) fun host =>
      andThen (host, expect ofInt "extract_record_data" view.length 8) fun host =>
        (release.callRelease host view, .ok ())

/-- An object without data is refused. -/
def extractNothing (extract : Code) (host : Host) : Host × CheckResult :=
  let (heap, int) := host.heap.alloc (.int 1)
  let (host, start, _) := extract.callExtract (host.withHeap heap) (some int) .empty
  releasing [int] <|
    andThen (host, expect ofAddress "extract_record_data" start .null) fun host =>
      expectError host "extract_record_data" (.extract .noDataAttribute)

/-- Taking and releasing buffers. -/
def extractRecordData (host : Host) (table : ExportTable) : Host × CheckResult :=
  match lookup table "extract_record_data" with
  | .error failure => (host, .error failure)
  | .ok extract =>
    match lookup table "release_record_buffer" with
    | .error failure => (host, .error failure)
    | .ok release =>
      andThen (extractCurrent extract release host) fun host =>
        andThen (extractWindow extract release host) fun host => extractNothing extract host

/-! ### Records -/

/-- The layout of the record that is rebuilt. -/
def pairLayout : Layout := .packed [⟨"x", 0, .float64⟩, ⟨"n", 8, .int .eight⟩]

/-- The bytes of the record that is rebuilt. -/
def pairBytes : List UInt8 :=
  toLittleEndian 8 (Binary.nearest false 5 (-1) : Double).toBits ++ toLittleEndian 8 11

/-- A rebuilt record keeps its bytes when the source changes. -/
def recreateRecord (host : Host) (table : ExportTable) : Host × CheckResult :=
  match lookup table "recreate_record" with
  | .error failure => (host, .error failure)
  | .ok code =>
    let (heap, dtype) := host.heap.newDescriptor pairLayout
    let index := heap.blocks.length
    let (heap, start) := heap.place pairBytes
    let (host, record) :=
      code.callRecreate (host.withHeap heap) start pairBytes.length (some dtype)
    releasing [dtype] <|
      match record with
      | none => fail host "recreate_record" (.reconstruct .copyFailed)
      | some record =>
        let heap := host.heap.overwrite index 0xee
        let host := host.withHeap heap
        releasing [record] <|
          andThen (host, expect (ofOption ofBytes) "recreate_record"
            (heap.recordBytes? record) (some pairBytes)) fun host =>
              (host, expect (ofOption ofParts) "recreate_record"
                (heap.recordField? record "n") (some (.ofReal (.ofInt 11))))

/-! ### Arithmetic -/

/-- Compares the results of a function on a list of arguments. -/
def expectEach {α β : Type} (c : Comparison β) (helper : String) (function : α → β) :
    List (α × β) → CheckResult
  | [] => .ok ()
  | (x, want) :: rest =>
    match expect c helper (function x) want with
    | .error failure => .error failure
    | .ok () => expectEach c helper function rest

/-- `n / 2`. -/
def halves {f : Format} (n : Int) : Binary f := .nearest (n < 0) n.natAbs (-1)

/-- Rounding to integers. -/
def rounding (table : ExportTable) : CheckResult := do
  let round ← lookup table "round_even"
  let roundSingle ← lookup table "roundf_even"
  let unsigned ← lookup table "fptoui"
  expectEach ofNumber "round_even" round.callDouble
    [(halves 5, .ofInt 2), (halves 7, .ofInt 4), (halves (-5), .ofInt (-2)),
      (.nearestQuotient false 7 5 0, .ofInt 1)]
  expectEach ofNumber "roundf_even" roundSingle.callSingle
    [(halves 5, .ofInt 2), (halves 7, .ofInt 4), (halves (-5), .ofInt (-2))]
  expect ofInt "fptoui" (unsigned.callUnsigned (.nearestQuotient false 399 100 0)) 3

/-- Division of words. -/
def integerDivision (table : ExportTable) : CheckResult := do
  let sdiv ← lookup table "sdiv"
  let srem ← lookup table "srem"
  let udiv ← lookup table "udiv"
  let urem ← lookup table "urem"
  let signed (code : Code) (a b : Int64) : Int :=
    (code.callWords a.toUInt64 b.toUInt64).toInt64.toInt
  let unsigned (code : Code) (a b : UInt64) : Int := (code.callWords a b).toNat
  expect ofInt "sdiv" (signed sdiv (-7) 2) (-3)
  expect ofInt "srem" (signed srem (-7) 2) (-1)
  expect ofInt "udiv" (unsigned udiv 0xffffffffffffffff 2) 0x7fffffffffffffff
  expect ofInt "urem" (unsigned urem 17 5) 2

/-- Two to the tenth, its imaginary part being nearly zero. -/
def power (table : ExportTable) : CheckResult := do
  let code ← lookup table "cpow"
  let out := code.callPower (.ofReal (.ofInt 2)) (.ofReal (.ofInt 10)) .zero
  let small := out.imag.abs.lt (.nearestQuotient false 1 1000000000 0)
  expect (ofPair ofNumber ofBool) "cpow" (out.real.integral .halfAway, small) (.ofInt 1024, true)

/-- Roots and the hypotenuse. -/
def mathematics (table : ExportTable) : CheckResult := do
  let sqrt ← lookup table "sqrt"
  let sqrtSingle ← lookup table "sqrtf"
  let hypot ← lookup table "hypot"
  expect ofNumber "sqrt" (sqrt.callDouble (.ofInt 81)) (.ofInt 9)
  expect ofNumber "sqrtf" (sqrtSingle.callSingle (.ofInt 81)) (.ofInt 9)
  expect ofNumber "hypot" (hypot.callDoubles (.ofInt 3) (.ofInt 4)) (.ofInt 5)

/-! ### The suite -/

/-- A named check. -/
structure Entry where
  name : String
  run : Host → ExportTable → Host × CheckResult

/-- A check that does not touch the host. -/
def Entry.pure (name : String) (run : ExportTable → CheckResult) : Entry :=
  ⟨name, fun host table => (host, run table)⟩

/-- The checks, in order. -/
def suite : List Entry :=
  [⟨"complex_adaptor", complexAdaptor⟩, ⟨"extract_record_data", extractRecordData⟩,
    ⟨"recreate_record", recreateRecord⟩, .pure "rounding" rounding,
    .pure "integer division" integerDivision, .pure "cpow" power, .pure "math" mathematics]

/-- What a run of checks found: how many failed, and the lines to print. -/
structure Report where
  failed : Nat
  lines : List String
  deriving DecidableEq, Repr

/-- One line for a check that fails and, when asked for, one for a check that passes. -/
def line? (verbose : Bool) (name : String) : CheckResult → Option String
  | .ok () => if verbose then some ("ok    " ++ name) else none
  | .error failure => some ("FAIL  " ++ name ++ ": " ++ failure.message)

/-- Runs checks one after the other. -/
def runAll (table : ExportTable) (verbose : Bool) (host : Host) : List Entry → Host × Report
  | [] => (host, ⟨0, []⟩)
  | entry :: rest =>
    let (host, result) := entry.run host table
    let (host, report) := runAll table verbose host rest
    let failed := if result.isOk then report.failed else report.failed + 1
    (host, ⟨failed, (line? verbose entry.name result).toList ++ report.lines⟩)

/-- Runs the whole suite. -/
def run (host : Host) (table : ExportTable) (verbose : Bool) : Host × Report :=
  runAll table verbose host suite

end NativeBridge.Check
