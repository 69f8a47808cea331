import Mathlib.Order.Bounds.Basic
import NativeBridge.Layout.Basic

/-! Reading elements and fields.

    An element is read from as many bytes as its type has, and bytes behind them do not matter
    (`ScalarType.cast_take`). A number that was written in so many bytes is read back, and every
    such string of bytes is a written number (`toLittleEndian_littleEndian`). Of the fields of one
    name the first is meant (`Layout.IsFirst`), and a packed item ends with the last of its fields
    (`Layout.isLeast_packed`). -/

namespace NativeBridge

/-! ### Bytes -/

/-- A window that ends within the first `n` bytes does not see the others. -/
theorem take_drop_take {α : Type} {start size n : Nat} (within : start + size ≤ n)
    (bytes : List α) : ((bytes.take n).drop start).take size = (bytes.drop start).take size := by
  rw [List.drop_take, List.take_take, Nat.min_eq_left (by omega)]

theorem littleEndian_cons (b : UInt8) (rest : List UInt8) :
    littleEndian (b :: rest) = b.toNat + 256 * littleEndian rest := rfl

theorem littleEndian_lt (bytes : List UInt8) : littleEndian bytes < pow2 (8 * bytes.length) := by
  induction bytes with
  | nil => decide
  | cons b rest ih =>
    have byte := b.toNat_lt
    have more : pow2 (8 * rest.length + 8) = pow2 (8 * rest.length) * 256 := Nat.pow_add ..
    rw [littleEndian_cons, List.length_cons, Nat.mul_succ, more]
    omega

/-- Every string of bytes is what its number is written as. -/
theorem toLittleEndian_littleEndian (bytes : List UInt8) :
    toLittleEndian bytes.length (littleEndian bytes) = bytes := by
  induction bytes with
  | nil => rfl
  | cons b rest ih =>
    have byte := b.toNat_lt
    have low : UInt8.ofNat (b.toNat + 256 * littleEndian rest) = b := by
      refine UInt8.toNat_inj.mp ?_
      rw [UInt8.toNat_ofNat']
      omega
    have high : (b.toNat + 256 * littleEndian rest) / 256 = littleEndian rest := by omega
    rw [littleEndian_cons, List.length_cons, toLittleEndian, low, high, ih]

theorem Binary.toBits_ofBits {f : Format} {bits : Nat} (small : bits < pow2 f.width) :
    (Binary.ofBits bits : Binary f).toBits = bits := by
  rw [Binary.toBits, Binary.ofBits, BitVec.toNat_ofNat]
  exact Nat.mod_eq_of_lt small

/-- Every string of as many bytes as a number has is what some number is written as. -/
theorem Binary.exists_toLittleEndian {f : Format} {n : Nat} (width : f.width = 8 * n)
    {bytes : List UInt8} (all : bytes.length = n) :
    ∃ x : Binary f, toLittleEndian n x.toBits = bytes := by
  subst all
  have small : littleEndian bytes < pow2 f.width := width ▸ littleEndian_lt bytes
  exact ⟨.ofBits (littleEndian bytes), by rw [toBits_ofBits small, toLittleEndian_littleEndian]⟩

/-! ### Elements -/

namespace ScalarType

theorem size_pos (type : ScalarType) : 0 < type.size := by
  cases type with
  | int w | uint w => cases w <;> decide
  | _ => decide

/-- An element is read from its own bytes. -/
theorem cast_take {type : ScalarType} {n : Nat} (whole : type.size ≤ n) (raw : List UInt8) :
    type.cast (raw.take n) = type.cast raw := by
  have word (start size : Nat) (within : start + size ≤ type.size) :
      littleEndian (((raw.take n).drop start).take size) =
        littleEndian ((raw.drop start).take size) := by
    rw [take_drop_take (Nat.le_trans within whole)]
  cases type with
  | bool => simp only [cast, word 0 1 (Nat.le_refl _)]
  | int w => simp only [cast, word 0 w.bytes (Nat.le_of_eq (Nat.zero_add _))]
  | uint w => simp only [cast, word 0 w.bytes (Nat.le_of_eq (Nat.zero_add _))]
  | float32 => simp only [cast, word 0 4 (by decide)]
  | float64 => simp only [cast, word 0 8 (by decide)]
  | complex64 => simp only [cast, word 0 4 (by decide), word 4 4 (by decide)]
  | complex128 => simp only [cast, word 0 8 (by decide), word 8 8 (by decide)]

theorem cast_congr {type : ScalarType} {raw other : List UInt8}
    (same : other.take type.size = raw.take type.size) : type.cast other = type.cast raw := by
  rw [← cast_take (Nat.le_refl _) other, same, cast_take (Nat.le_refl _)]

/-- A real element has imaginary part `+0`. -/
theorem cast_of_real {type : ScalarType} (real : type.isComplex = false) (raw : List UInt8) :
    type.cast raw = ⟨(type.cast raw).real, .zero⟩ := by
  cases type with
  | complex64 | complex128 => cases real
  | _ => rfl

end ScalarType

/-! ### Fields -/

namespace Layout

variable {fields : List Field} {field : Field} {name : String} {size : Nat}

/-- The first of the fields that have this name. -/
def IsFirst (fields : List Field) (name : String) (field : Field) : Prop :=
  ∃ before after, fields = before ++ field :: after ∧ field.name = name ∧
    ∀ other ∈ before, other.name ≠ name

theorem field?_eq_some_iff :
    (record fields size).field? name = some field ↔ IsFirst fields name field := by
  simp only [field?, List.find?_eq_some_iff_append, IsFirst, beq_iff_eq, Bool.not_eq_true',
    beq_eq_false_iff_ne]
  constructor
  · rintro ⟨named, before, after, rfl, others⟩
    exact ⟨before, after, rfl, named, others⟩
  · rintro ⟨before, after, rfl, named, others⟩
    exact ⟨named, before, after, rfl, others⟩

/-- A name that some field has has a first field. -/
theorem exists_isFirst (mem : field ∈ fields) :
    ∃ first ∈ fields, IsFirst fields field.name first := by
  rcases found : (record fields 0).field? field.name with _ | first
  · exact absurd (List.find?_eq_none.mp found field mem) (by simp)
  · exact ⟨first, List.mem_of_find?_eq_some found, field?_eq_some_iff.mp found⟩

theorem foldl_stop_le_iff (fields : List Field) (start n : Nat) :
    fields.foldl (fun size field => max size field.stop) start ≤ n ↔
      start ≤ n ∧ ∀ field ∈ fields, field.stop ≤ n := by
  induction fields generalizing start with
  | nil => simp
  | cons field rest ih => simp [ih, and_assoc]

/-- A packed item is just long enough for its fields. -/
theorem isLeast_packed (fields : List Field) :
    IsLeast {n | ∀ field ∈ fields, field.stop ≤ n} (packed fields).itemSize := by
  have within (n : Nat) : (packed fields).itemSize ≤ n ↔ ∀ field ∈ fields, field.stop ≤ n := by
    simp [packed, itemSize, foldl_stop_le_iff]
  exact ⟨(within _).mp (Nat.le_refl _), fun n => (within n).mpr⟩

end Layout

end NativeBridge
