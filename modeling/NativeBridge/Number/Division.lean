/-! Division of 64-bit words, signed and unsigned.

    An instruction that divides faults on a zero divisor, so none is reached before the divisor
    has been looked at: the signed pair tests it first, the unsigned pair puts a zero where there
    is no result. Quotients are cut toward zero. The one signed quotient that does not fit, the
    least integer by minus one, wraps to the least integer again. -/

namespace NativeBridge.Division

section Guard

variable {α : Type} [OfNat α 0] [DecidableEq α]

/-- An instruction of the machine that divides; there is no result where it faults. -/
def fault? (divide : α → α → α) (a b : α) : Option α := if b = 0 then none else some (divide a b)

/-- The instruction behind a test of the divisor. -/
def guarded (divide : α → α → α) (a b : α) : Option α := if b = 0 then some 0 else fault? divide a b

/-- Behind the test there is no fault. -/
theorem guarded_eq (divide : α → α → α) (a b : α) :
    guarded divide a b = some (if b = 0 then 0 else divide a b) := by
  unfold guarded fault?
  split <;> rfl

theorem isSome_guarded (divide : α → α → α) (a b : α) : (guarded divide a b).isSome := by
  rw [guarded_eq, Option.isSome_some]

end Guard

/-- Signed quotient. -/
def sdiv (a b : Int64) : Int64 := (guarded (· / ·) a b).get (isSome_guarded ..)

/-- Signed remainder; it has the sign of the dividend. -/
def srem (a b : Int64) : Int64 := (guarded (· % ·) a b).get (isSome_guarded ..)

/-- Unsigned quotient. -/
def udiv (a b : UInt64) : UInt64 := (fault? (· / ·) a b).getD 0

/-- Unsigned remainder. -/
def urem (a b : UInt64) : UInt64 := (fault? (· % ·) a b).getD 0

end NativeBridge.Division
