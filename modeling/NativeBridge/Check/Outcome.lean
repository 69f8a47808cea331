import NativeBridge.Export.Call
import NativeBridge.Export.Table
import NativeBridge.Decimal.Text

/-! How a self-check ends, and how its values are shown. -/

namespace NativeBridge

/-- Why a check fails. -/
inductive CheckFailure where
  | missing (helper : String)
  | failed (helper : String) (error : HelperError)
  | mismatch (helper got want : String)
  deriving DecidableEq, Repr

namespace CheckFailure

/-- The failure in words. -/
def message : CheckFailure → String
  | missing helper => "helper `" ++ helper ++ "` is not exported"
  | failed helper error => "`" ++ helper ++ "` failed: " ++ error.message
  | mismatch helper got want => "`" ++ helper ++ "` gave " ++ got ++ ", expected " ++ want

end CheckFailure

/-- How a check ends. -/
abbrev CheckResult := Except CheckFailure Unit

namespace Check

/-- The code behind a name that a check needs. -/
def lookup (table : ExportTable) (name : String) : Except CheckFailure Code :=
  match table.get? name with
  | none => .error (.missing name)
  | some code => .ok code

/-- What a comparison needs to know of a type: when two values are the same and their text. -/
structure Comparison (α : Type) where
  same : α → α → Bool
  text : α → String

/-- Compares what a helper gave with what it should give. -/
def expect {α : Type} (c : Comparison α) (helper : String) (got want : α) : CheckResult :=
  if c.same got want then .ok () else .error (.mismatch helper (c.text got) (c.text want))

/-- Numbers of a format, zeros of either sign being the same. -/
def ofNumber {f : Format} : Comparison (Binary f) := ⟨Binary.eq, Binary.text⟩

/-- Complex numbers. -/
def ofComplex : Comparison Complex := ⟨Complex.eq, Complex.text⟩

/-- Integers. -/
def ofInt : Comparison Int := ⟨(· == ·), toString⟩

/-- A comparison of pairs from those of their parts. -/
def ofPair {α β : Type} (a : Comparison α) (b : Comparison β) : Comparison (α × β) :=
  ⟨fun x y => a.same x.1 y.1 && b.same x.2 y.2,
    fun x => "(" ++ a.text x.1 ++ ", " ++ b.text x.2 ++ ")"⟩

/-- Truth values. -/
def ofBool : Comparison Bool := ⟨(· == ·), toString⟩

/-- Values that may be missing. -/
def ofOption {α : Type} (a : Comparison α) : Comparison (Option α) where
  same
    | none, none => true
    | some x, some y => a.same x y
    | _, _ => false
  text
    | none => "None"
    | some x => "Some(" ++ a.text x ++ ")"

/-- Sequences of bytes. -/
def ofBytes : Comparison (List UInt8) :=
  ⟨(· == ·), fun bytes => "[" ++ ", ".intercalate (bytes.map fun b => toString b.toNat) ++ "]"⟩

/-- The parts of a complex number, in brackets. -/
def ofParts : Comparison Complex :=
  ⟨Complex.eq, fun z => "[" ++ z.real.text ++ ", " ++ z.imag.text ++ "]"⟩

/-- Helper failures. -/
def ofError : Comparison HelperError := ⟨(· == ·), HelperError.describe⟩

/-- Addresses; only the null address has a text that does not depend on where things are. -/
def ofAddress : Comparison Address where
  same := (· == ·)
  text
    | .null => "0x0"
    | .object owner offset => "object " ++ toString owner ++ " + " ++ toString offset
    | .block index offset => "block " ++ toString index ++ " + " ++ toString offset

/-- Takes the pending error, which must be this one. -/
def expectError (host : Host) (helper : String) (want : HelperError) : Host × CheckResult :=
  let (host, got) := host.takeError
  (host, expect (ofOption ofError) helper got (some want))

/-- Ends a check with the pending error, or with `default` if the helper left none. -/
def fail (host : Host) (helper : String) (default : HelperError) : Host × CheckResult :=
  let (host, got) := host.takeError
  (host, .error (.failed helper (got.getD default)))

/-- Goes on with the host only after success. -/
def andThen (outcome : Host × CheckResult) (next : Host → Host × CheckResult) : Host × CheckResult :=
  match outcome with
  | (host, .error failure) => (host, .error failure)
  | (host, .ok ()) => next host

/-- Gives back the references that a check holds, however it ended. -/
def releasing (held : List Ref) (outcome : Host × CheckResult) : Host × CheckResult :=
  (outcome.1.withHeap (outcome.1.heap.releaseAll held), outcome.2)

end Check

end NativeBridge
