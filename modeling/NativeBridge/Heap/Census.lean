import NativeBridge.Heap.Kind

/-! Counting live objects by kind.

    Counting is off until it is switched on and never goes off again. The total is kept beside
    the counts of the kinds; an object born before counting began is still counted when it dies,
    so a count can be negative. -/

namespace NativeBridge

/-- Live-object counters. A kind without an entry has count zero. -/
structure Census where
  enabled : Bool
  total : Int
  counts : List (Kind × Int)
  deriving DecidableEq, Repr

namespace Census

/-- Nothing counted and counting off. -/
def initial : Census := ⟨false, 0, []⟩

/-- The entry of `kind`, changed by `delta`. -/
def adjust (kind : Kind) (delta : Int) : List (Kind × Int) → List (Kind × Int)
  | [] => [(kind, delta)]
  | (k, n) :: rest => if k = kind then (k, n + delta) :: rest else (k, n) :: adjust kind delta rest

/-- Counts `delta` more objects of the kind, when counting is on. -/
def count (c : Census) (kind : Kind) (delta : Int) : Census :=
  if c.enabled then
    { c with total := c.total + delta, counts := adjust kind delta c.counts }
  else c

/-- Counting from now on. -/
def enable (c : Census) : Census := { c with enabled := true }

/-- All counts back to zero. -/
def reset (c : Census) : Census := { c with total := 0, counts := [] }

/-- Live objects of one kind. -/
def live (c : Census) (kind : Kind) : Int := (c.counts.lookup kind).getD 0

/-- Change of the total since it was `before`, as a word of 64 bits. -/
def since (c : Census) (before : Int) : Int := (Int64.ofInt (c.total - before)).toInt

/-- The kinds with a count other than zero, in the order of `Kind.all`. -/
def report (c : Census) : List (Kind × Int) :=
  (Kind.all.map fun kind => (kind, c.live kind)).filter (·.2 ≠ 0)

/-- Whether an exit report has nothing to say. -/
def isQuiet (c : Census) : Bool := !c.enabled || c.report.isEmpty

end Census

end NativeBridge
