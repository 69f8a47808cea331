import Mathlib.Data.Nat.Digits.Defs
import NativeBridge.Proofs.Layout.Reading
import NativeBridge.Proofs.Number.Nearest

/-! Casting elements to complex numbers.

    An integer goes through the rounding of the double format, so it is kept where that format has
    it and goes to a nearest double otherwise (`ScalarType.nearestTo_cast`); a narrow part is
    widened, and a wider format has all values of a narrower one (`Binary.sameNumber_convert`); a
    wide part is copied. What an element stands for is said here by its digits of base 256, apart
    from how the cast reads them. -/

namespace NativeBridge

/-! ### Widening -/

namespace Binary

variable {f g : Format} {s : Bool} {m : Nat} {e : Int}

/-- Two numbers, of formats that may differ, are the same as numbers; the bits of a NaN do not
    count. -/
structure SameNumber (x : Binary f) (y : Binary g) : Prop where
  nan : y.isNaN = x.isNaN
  infinite : y.isInfinite = x.isInfinite
  sign : x.isNaN = false → y.negative = x.negative
  finite : y.rational? = x.rational?

theorem value_nan (regular : f.Regular) : (nan : Binary f).value = .nan :=
  value_eq_nan_iff.mpr (isNaN_nan regular)

theorem value_infinity (s : Bool) : (infinity s : Binary f).value = .infinite s :=
  value_eq_infinite_iff.mpr ⟨code_ofCode s f.infinity_lt, negative_ofCode s f.infinity_lt⟩

theorem isInfinite_eq (x : Binary f) :
    x.isInfinite = match x.value with | .infinite _ => true | _ => false := by
  cases value : x.value with
  | infinite s => exact decide_eq_true (value_eq_infinite_iff.mp value).1
  | nan =>
    have above : f.infinity < x.code := of_decide_eq_true (value_eq_nan_iff.mp value)
    exact decide_eq_false above.ne'
  | finite s m e =>
    refine decide_eq_false fun top => ?_
    cases value.symm.trans (value_eq_infinite_iff.mpr ⟨top, rfl⟩)

theorem isNaN_eq (x : Binary f) : x.isNaN = match x.value with | .nan => true | _ => false := by
  cases value : x.value with
  | nan => exact value_eq_nan_iff.mp value
  | infinite s | finite s m e =>
    refine Bool.eq_false_iff.mpr fun nan => ?_
    cases value.symm.trans (value_eq_nan_iff.mpr nan)

/-- Widening keeps the number. -/
theorem sameNumber_convert (regular : g.Regular) (wider : ∀ q, f.Fits q → g.Fits q)
    (x : Binary f) : x.SameNumber (x.convert : Binary g) := by
  cases value : x.value with
  | nan =>
    have wide : (x.convert : Binary g).value = .nan := by rw [convert, value, value_nan regular]
    refine ⟨?_, ?_, fun number => ?_, ?_⟩
    · rw [isNaN_eq, isNaN_eq, wide, value]
    · rw [isInfinite_eq, isInfinite_eq, wide, value]
    · cases number.symm.trans (value_eq_nan_iff.mp value)
    · rw [rational?, rational?, wide, value]
  | infinite s =>
    have wide : (x.convert : Binary g).value = .infinite s := by rw [convert, value, value_infinity]
    refine ⟨?_, ?_, fun _ => ?_, ?_⟩
    · rw [isNaN_eq, isNaN_eq, wide, value]
    · rw [isInfinite_eq, isInfinite_eq, wide, value]
    · rw [(value_eq_infinite_iff.mp wide).2, (value_eq_infinite_iff.mp value).2]
    · rw [rational?, rational?, wide, value]
  | finite s m e =>
    have exact : x.Exactly s (dyadic m e) := ⟨m, e, value, rfl⟩
    obtain ⟨n, d, wide, same⟩ := exactly_convert regular exact (wider _ exact.fits)
    have kept : (x.convert : Binary g).Exactly s (dyadic m e) := ⟨n, d, wide, same⟩
    refine ⟨?_, ?_, fun _ => ?_, ?_⟩
    · rw [isNaN_eq, isNaN_eq, wide, value]
    · rw [isInfinite_eq, isInfinite_eq, wide, value]
    · rw [kept.negative_eq, exact.negative_eq]
    · rw [kept.rational?_eq, exact.rational?_eq]

/-! ### Integers -/

theorem signed_natAbs (n : Int) : signed (n < 0) n.natAbs = n := by
  by_cases below : n < 0
  · rw [signed, if_pos (decide_eq_true below), Nat.cast_natAbs, abs_of_neg below]
    push_cast
    exact neg_neg _
  · rw [signed, if_neg (by simpa using below), Nat.cast_natAbs, abs_of_nonneg (not_lt.mp below)]

/-- An integer that is not too long goes to a nearest number, with its own sign. -/
theorem nearestTo_ofInt (regular : f.Regular) {n : Int}
    (room : (n.natAbs.log2 : Int) < f.top + f.fraction) :
    (ofInt n : Binary f).NearestTo n ∧ (ofInt n : Binary f).negative = decide (n < 0) := by
  have leading : (0 : Int) + n.natAbs.log2 < f.top + f.fraction := by rwa [zero_add]
  have near := nearestTo_nearest regular (decide (n < 0)) leading
  obtain ⟨q, exact, _⟩ := exactly_nearest_of_room regular (decide (n < 0)) leading
  rw [dyadic_zero, signed_natAbs] at near
  exact ⟨near, exact.negative_eq⟩

/-- An integer of few bits is kept. -/
theorem rational?_ofInt (regular : f.Regular) {n : Int} (short : n.natAbs < pow2 (f.fraction + 1)) :
    (ofInt n : Binary f).rational? = some (n : ℚ) := by
  have kept := exactly_nearest regular (decide (n < 0)) (fits_natCast regular short)
    (dyadic_zero n.natAbs)
  rw [ofInt, kept.rational?_eq, signed_natAbs]

end Binary

/-! ### What elements stand for -/

/-- The unsigned integer whose digits of base 256 are the `size` bytes at `start`, the lowest
    first. -/
def digitsAt (raw : List UInt8) (start size : Nat) : Nat :=
  Nat.ofDigits 256 (((raw.drop start).take size).map UInt8.toNat)

theorem littleEndian_eq_ofDigits (bytes : List UInt8) :
    littleEndian bytes = Nat.ofDigits 256 (bytes.map UInt8.toNat) := by
  induction bytes with
  | nil => rfl
  | cons b rest ih => rw [littleEndian_cons, ih, List.map_cons, Nat.ofDigits_cons]

theorem digitsAt_lt (raw : List UInt8) (start size : Nat) :
    digitsAt raw start size < pow2 (8 * size) := by
  rw [digitsAt, ← littleEndian_eq_ofDigits]
  refine (littleEndian_lt _).trans_le (Nat.pow_le_pow_right two_pos ?_)
  have := List.length_take_le size (raw.drop start)
  omega

/-- The four bytes at `start` as a number of single precision. -/
def singleAt (raw : List UInt8) (start : Nat) : Single := ⟨BitVec.ofNat 32 (digitsAt raw start 4)⟩

/-- The eight bytes at `start` as a number of double precision. -/
def doubleAt (raw : List UInt8) (start : Nat) : Double := ⟨BitVec.ofNat 64 (digitsAt raw start 8)⟩

namespace ScalarType

/-- The integer that an element of an integer type stands for: a truth value is zero or one, a
    signed integer is in two's complement. -/
def integer? (type : ScalarType) (raw : List UInt8) : Option Int :=
  match type with
  | bool => some (if digitsAt raw 0 1 = 0 then 0 else 1)
  | int w => some (BitVec.ofNat w.bits (digitsAt raw 0 w.bytes)).toInt
  | uint w => some (digitsAt raw 0 w.bytes)
  | _ => none

/-- What is wanted of a complex number that an element is cast to. -/
structure Keeps (type : ScalarType) (raw : List UInt8) (z : Complex) : Prop where
  /-- An integer goes to a nearest double, with its own sign. -/
  integer : ∀ n, type.integer? raw = some n →
    z.real.NearestTo n ∧ z.real.negative = decide (n < 0)
  /-- It is kept if it has at most 32 bits or some double has its value. -/
  exact : ∀ n, type.integer? raw = some n →
    (type.size ≤ 4 ∨ ∃ x : Double, x.rational? = some (n : ℚ)) → z.real.rational? = some (n : ℚ)
  /-- Narrow parts are widened and wide parts are copied. -/
  float32 : type = .float32 → (singleAt raw 0).SameNumber z.real
  float64 : type = .float64 → z.real = doubleAt raw 0
  complex64 : type = .complex64 →
    (singleAt raw 0).SameNumber z.real ∧ (singleAt raw 4).SameNumber z.imag
  complex128 : type = .complex128 → z.real = doubleAt raw 0 ∧ z.imag = doubleAt raw 8
  /-- A real element has imaginary part `+0`. -/
  real : type.isComplex = false → z.imag = .zero

variable {type : ScalarType} {raw other : List UInt8} {n k : Int}

theorem littleEndian_eq_digitsAt (raw : List UInt8) (start size : Nat) :
    littleEndian ((raw.drop start).take size) = digitsAt raw start size :=
  littleEndian_eq_ofDigits _

/-- An integer type is cast through the integer. -/
theorem cast_of_integer (integer : type.integer? raw = some n) :
    type.cast raw = .ofReal (.ofInt n) := by
  cases type with
  | bool | uint w =>
    obtain rfl := Option.some.inj integer
    simp only [cast, littleEndian_eq_digitsAt]
  | int w =>
    obtain rfl := Option.some.inj integer
    simp only [cast, littleEndian_eq_digitsAt, BitVec.toInt_ofNat']
    rfl
  | _ => cases integer

/-- An integer has no more bits than its bytes. -/
theorem natAbs_integer_lt (integer : type.integer? raw = some n) :
    n.natAbs < pow2 (8 * type.size) := by
  cases type with
  | bool =>
    obtain rfl := Option.some.inj integer
    split <;> decide
  | int w =>
    obtain rfl := Option.some.inj integer
    have low := BitVec.le_two_mul_toInt (x := BitVec.ofNat w.bits (digitsAt raw 0 w.bytes))
    have high := BitVec.two_mul_toInt_lt (x := BitVec.ofNat w.bits (digitsAt raw 0 w.bytes))
    have same : ((2 ^ w.bits : Nat) : Int) = 2 ^ w.bits := Nat.cast_pow 2 _
    have positive : 0 < 2 ^ w.bits := Nat.two_pow_pos _
    show _ < 2 ^ w.bits
    omega
  | uint w =>
    obtain rfl := Option.some.inj integer
    exact digitsAt_lt raw 0 w.bytes
  | _ => cases integer

theorem size_le_of_integer (integer : type.integer? raw = some n) : type.size ≤ 8 := by
  cases type with
  | int w | uint w => cases w <;> decide
  | complex128 => cases integer
  | _ => decide

/-- An integer is cast to a nearest double. -/
theorem nearestTo_cast (integer : type.integer? raw = some n) :
    (type.cast raw).real.NearestTo n ∧ (type.cast raw).real.negative = decide (n < 0) := by
  have double : Format.binary64.Regular := by decide +kernel
  have small : n.natAbs < pow2 64 := (natAbs_integer_lt integer).trans_le
    (Nat.pow_le_pow_right two_pos (by have := size_le_of_integer integer; omega))
  rw [cast_of_integer integer]
  refine Binary.nearestTo_ofInt double ?_
  have leading : n.natAbs.log2 < 65 := by
    by_cases zero : n.natAbs = 0
    · rw [zero]
      decide
    · exact ((Nat.log2_lt zero).mpr small).trans (by decide)
  have room : (65 : Int) ≤ Format.binary64.top + Format.binary64.fraction := by decide +kernel
  omega

/-- An integer of few bits is kept. -/
theorem rational?_cast (integer : type.integer? raw = some n) (narrow : type.size ≤ 4) :
    (type.cast raw).real.rational? = some (n : ℚ) := by
  rw [cast_of_integer integer]
  refine Binary.rational?_ofInt (by decide +kernel) ((natAbs_integer_lt integer).trans_le ?_)
  refine Nat.pow_le_pow_right two_pos ?_
  show _ ≤ 53
  omega

/-- The cast to a complex number keeps what the element stands for. -/
theorem keeps_cast (type : ScalarType) (raw : List UInt8) : type.Keeps raw (type.cast raw) := by
  have double : Format.binary64.Regular := by decide +kernel
  have wider (x : Single) : x.SameNumber (x.convert : Double) :=
    Binary.sameNumber_convert double
      (fun q => Format.Fits.widen (by decide) (by decide +kernel) (by decide +kernel)) x
  constructor
  case integer => exact fun n => nearestTo_cast
  case exact =>
    rintro n integer (narrow | ⟨x, has⟩)
    · exact rational?_cast integer narrow
    · exact (nearestTo_cast integer).1.exact has
  case float32 =>
    rintro rfl
    simp only [cast, littleEndian_eq_digitsAt]
    exact wider (singleAt raw 0)
  case float64 =>
    rintro rfl
    simp only [cast, littleEndian_eq_digitsAt]
    rfl
  case complex64 =>
    rintro rfl
    simp only [cast, littleEndian_eq_digitsAt]
    exact ⟨wider (singleAt raw 0), wider (singleAt raw 4)⟩
  case complex128 =>
    rintro rfl
    simp only [cast, littleEndian_eq_digitsAt]
    exact ⟨rfl, rfl⟩
  case real =>
    intro real
    rw [cast_of_real real]

/-- The cast of every element type reads no more than the element and keeps what it stands for, and
    on an integer type it does not turn the order round. -/
theorem cast_preserves (type : ScalarType) (raw : List UInt8) :
    (∀ other, other.take type.size = raw.take type.size → type.cast other = type.cast raw) ∧
      type.Keeps raw (type.cast raw) ∧
      ∀ other n k, type.integer? raw = some n → type.integer? other = some k → n ≤ k →
        ∀ p q, (type.cast raw).real.rational? = some p →
          (type.cast other).real.rational? = some q → p ≤ q := by
  refine ⟨fun other => cast_congr, keeps_cast type raw, ?_⟩
  intro other n k integer integer' le p q value value'
  rcases le.eq_or_lt with rfl | less
  · rw [cast_of_integer integer'] at value'
    rw [cast_of_integer integer, value', Option.some.injEq] at value
    exact value.ge
  · exact (nearestTo_cast integer).1.mono (nearestTo_cast integer').1 (by exact_mod_cast less)
      value value'

/-- The first integer that no double has lies in the middle of two, and the last unsigned one is
    rounded up to a power of two. -/
example : (uint .eight).cast [1, 0, 0, 0, 0, 0, 0x20, 0] = .ofReal (.ofInt (2 ^ 53)) ∧
    (uint .eight).cast (List.replicate 8 255) = .ofReal (.ofInt (2 ^ 64)) := by decide +kernel

end ScalarType

end NativeBridge
