import NativeBridge.Proofs.Layout.Casting

/-! Conversion to unsigned integers.

    The conversion cuts a finite number toward zero and clamps what is left to 64 bits
    (`Binary.TruncatesTo`). The code of a number and its absolute value rise together
    (`Binary.le_of_code_le`), so the conversion is monotone; and a nearest integer is at most one
    away from the one below, which clamping does not widen. -/

namespace NativeBridge

/-! ### Cutting toward zero -/

/-- The integer part of a rational number, on whichever side of zero it is. -/
def truncate (q : ℚ) : ℤ := if 0 ≤ q then ⌊q⌋ else ⌈q⌉

theorem truncate_of_nonneg {q : ℚ} (nonneg : 0 ≤ q) : truncate q = ⌊q⌋ := if_pos nonneg

theorem truncate_neg (q : ℚ) : truncate (-q) = -truncate q := by
  rw [truncate, truncate]
  rcases lt_trichotomy q 0 with below | rfl | above
  · rw [if_pos (by linarith), if_neg (by linarith), Int.floor_neg]
  · simp
  · rw [if_neg (by linarith), if_pos above.le, Int.ceil_neg]

/-- The integer in the unsigned range of 64 bits that is closest. -/
def clamp (n : ℤ) : ℤ := max 0 (min (2 ^ 64 - 1) n)

namespace Binary

variable {f : Format} {s t : Bool} {m n : Nat} {e : Int} {p q : ℚ} {x y : Binary f}

/-! ### The order of codes -/

/-- A larger code stands for a larger absolute value: more units of the same gap, or a full
    fraction of a wider one. -/
theorem le_of_code_le (one : x.Exactly s p) (other : y.Exactly t q) (codes : x.code ≤ y.code) :
    p ≤ q := by
  obtain ⟨gap, units, canonical, code, _, _, _, rfl⟩ := one.exists_units
  obtain ⟨gap', units', canonical', code', _, _, _, rfl⟩ := other.exists_units
  rw [code, code'] at codes
  have short := canonical.short
  have short' := canonical'.short
  rw [pow2_succ] at short short'
  rcases lt_trichotomy gap gap' with wider | rfl | narrower
  · have full : pow2 f.fraction ≤ units' := canonical'.full.resolve_left (by omega)
    calc dyadic units (f.least + gap) ≤ dyadic (2 * pow2 f.fraction) (f.least + gap) :=
          mul_le_mul_of_nonneg_right (by exact_mod_cast short.le) (zpow_pos_two _).le
      _ = pow2 f.fraction * 2 ^ (f.least + gap + 1) := by
          rw [dyadic, zpow_add_one₀ two_ne_zero]
          push_cast
          ring
      _ ≤ units' * 2 ^ (f.least + gap') :=
          mul_le_mul (by exact_mod_cast full)
            (zpow_le_zpow_right₀ one_le_two (by omega)) (zpow_pos_two _).le (Nat.cast_nonneg _)
  · have fewer : units ≤ units' := by omega
    exact mul_le_mul_of_nonneg_right (by exact_mod_cast fewer) (zpow_pos_two _).le
  · have full : pow2 f.fraction ≤ units := canonical.full.resolve_left (by omega)
    have apart : (gap' + 1) * pow2 f.fraction ≤ gap * pow2 f.fraction :=
      Nat.mul_le_mul_right _ narrower
    rw [Nat.succ_mul] at apart
    omega

/-! ### The conversion -/

theorem floor_dyadic (m : Nat) (e : Int) :
    ⌊dyadic m e⌋₊ = if 0 ≤ e then m * pow2 e.toNat else m / pow2 (-e).toNat := by
  split
  · rename_i whole
    rw [← dyadic_shift m whole, dyadic_zero, sub_zero, Nat.floor_natCast]
  · rename_i fraction
    have quotient : dyadic m e = (m : ℚ) / pow2 (-e).toNat := by
      rw [dyadic, cast_pow2, Int.toNat_of_nonneg (by omega), zpow_neg, div_inv_eq_mul]
    rw [quotient, Nat.floor_div_eq_div]

theorem toUnsigned_of_exactly (exact : x.Exactly false q) :
    x.toUnsigned = min (2 ^ 64 - 1) ⌊q⌋₊ := by
  obtain ⟨m, e, value, rfl⟩ := exact
  rw [floor_dyadic, toUnsigned, value]
  rfl

theorem toUnsigned_of_negative (exact : x.Exactly true q) : x.toUnsigned = 0 := by
  obtain ⟨m, e, value, _⟩ := exact
  rw [toUnsigned, value]

theorem toUnsigned_of_nan (nan : x.isNaN = true) : x.toUnsigned = 0 := by
  rw [toUnsigned, value_eq_nan_iff.mpr nan]

theorem toUnsigned_of_infinite (value : x.value = .infinite s) :
    x.toUnsigned = if s then 0 else 2 ^ 64 - 1 := by
  rw [toUnsigned, value]
  cases s <;> rfl

theorem toUnsigned_le (x : Binary f) : x.toUnsigned ≤ 2 ^ 64 - 1 := by
  unfold toUnsigned
  split
  · exact Nat.zero_le _
  · exact Nat.zero_le _
  · exact Nat.zero_le _
  · exact le_rfl
  · exact Nat.min_le_left _ _

/-- What is wanted of the conversion: the value of a finite number cut toward zero and clamped, the
    end of the range on the side of an infinity, and zero where there is no number. -/
structure TruncatesTo (x : Binary f) (n : Nat) : Prop where
  finite : ∀ q, x.rational? = some q → (n : ℤ) = clamp (truncate q)
  infinite : x.isInfinite = true → n = if x.negative then 0 else 2 ^ 64 - 1
  nan : x.isNaN = true → n = 0

theorem truncatesTo_toUnsigned (x : Binary f) : x.TruncatesTo x.toUnsigned where
  finite q value := by
    obtain ⟨s, p, exact, rfl⟩ := exists_exactly_of_rational? value
    have floor := Int.natCast_floor_eq_floor exact.nonneg
    cases s with
    | false =>
      rw [toUnsigned_of_exactly exact, signed, if_neg Bool.false_ne_true,
        truncate_of_nonneg exact.nonneg, ← floor, clamp]
      push_cast
      omega
    | true =>
      rw [toUnsigned_of_negative exact, signed, if_pos rfl, truncate_neg,
        truncate_of_nonneg exact.nonneg, ← floor, clamp]
      omega
  infinite infinite :=
    toUnsigned_of_infinite (value_eq_infinite_iff.mpr ⟨of_decide_eq_true infinite, rfl⟩)
  nan := toUnsigned_of_nan

/-! ### Order -/

/-- Of a number that is not negative the conversion depends on its code alone, and rises with it. -/
theorem toUnsigned_le_of_code_le (positive : x.negative = false) (positive' : y.negative = false)
    (number : y.isNaN = false) (codes : x.code ≤ y.code) : x.toUnsigned ≤ y.toUnsigned := by
  cases value' : y.value with
  | nan => cases (value_eq_nan_iff.mp value').symm.trans number
  | infinite t =>
    obtain rfl : t = false := (value_eq_infinite_iff.mp value').2.symm.trans positive'
    rw [toUnsigned_of_infinite value']
    exact x.toUnsigned_le
  | finite t n d =>
    have other : y.Exactly t (dyadic n d) := ⟨n, d, value', rfl⟩
    obtain rfl : t = false := other.negative_eq.symm.trans positive'
    obtain ⟨_, _, _, _, below, _⟩ := other.exists_units
    have finite : x.code < f.infinity := codes.trans_lt below
    obtain ⟨s, p, one⟩ := exists_exactly (x := x) (decide_eq_false finite.le.not_gt)
      (decide_eq_false finite.ne)
    obtain rfl : s = false := one.negative_eq.symm.trans positive
    rw [toUnsigned_of_exactly one, toUnsigned_of_exactly other]
    have floors := Nat.floor_le_floor (le_of_code_le one other codes)
    omega

/-- A number with the sign bit is cut to zero. -/
theorem toUnsigned_of_signed (negative : x.negative = true) : x.toUnsigned = 0 := by
  cases value : x.value with
  | nan => exact toUnsigned_of_nan (value_eq_nan_iff.mp value)
  | infinite s =>
    obtain rfl : s = true := (value_eq_infinite_iff.mp value).2.symm.trans negative
    exact toUnsigned_of_infinite value
  | finite s m e =>
    have exact : x.Exactly s (dyadic m e) := ⟨m, e, value, rfl⟩
    obtain rfl : s = true := exact.negative_eq.symm.trans negative
    exact toUnsigned_of_negative exact

theorem exactly_zero (regular : f.Regular) : (zero : Binary f).Exactly false 0 := by
  have fits := fits_natCast regular (n := 0) (pow2_pos _)
  rw [Nat.cast_zero] at fits
  have near : (nearest false 0 0 : Binary f).Exactly false 0 :=
    exactly_nearest regular false fits (dyadic_zero 0)
  exact near

/-- The conversion keeps the numeric order; a NaN is in no order. -/
theorem toUnsigned_mono (regular : f.Regular) (below : x.lt y = true ∨ x.eq y = true) :
    x.toUnsigned ≤ y.toUnsigned := by
  obtain ⟨number, codes⟩ : y.isNaN = false ∧ x.signedCode ≤ y.signedCode := by
    simp only [lt, eq, Bool.and_eq_true, Bool.not_eq_true', decide_eq_true_eq, beq_iff_eq] at below
    rcases below with ⟨⟨_, number⟩, less⟩ | ⟨⟨_, number⟩, same⟩
    · exact ⟨number, less.le⟩
    · exact ⟨number, same.le⟩
  cases negative : x.negative with
  | true => exact (toUnsigned_of_signed negative).symm ▸ Nat.zero_le _
  | false =>
    rw [signedCode, signedCode, negative, if_neg Bool.false_ne_true] at codes
    cases negative' : y.negative with
    | false =>
      rw [negative', if_neg Bool.false_ne_true] at codes
      exact toUnsigned_le_of_code_le negative negative' number (by omega)
    | true =>
      -- of the numbers with the sign bit only the negative zero is not below, and zeros are equal
      rw [negative', if_pos rfl] at codes
      have none : x.code = (zero : Binary f).code := by
        rw [zero, code_ofCode false (pow2_pos _)]
        omega
      have same : x = zero :=
        ext_code (negative.trans (negative_ofCode false (pow2_pos _)).symm) none
      rw [same, toUnsigned_of_exactly (exactly_zero regular), Nat.floor_zero]
      exact Nat.zero_le _

/-! ### Integers and rounded numbers -/

/-- An unsigned integer that the format has comes back. -/
theorem toUnsigned_ofInt (regular : f.Regular) (room : 64 < f.top + f.fraction) (n : UInt64)
    (has : y.rational? = some (n.toNat : ℚ)) : (ofInt n.toNat : Binary f).toUnsigned = n.toNat := by
  have below := n.toNat_lt
  have leading : ((n.toNat : ℤ).natAbs.log2 : ℤ) < f.top + f.fraction := by
    rw [Int.natAbs_natCast]
    by_cases zero : n.toNat = 0
    · rw [zero, Nat.log2_zero]
      omega
    · have := (Nat.log2_lt zero).mpr below
      omega
  obtain ⟨near, _⟩ := nearestTo_ofInt regular leading
  rw [Int.cast_natCast] at near
  have cut := (truncatesTo_toUnsigned _).finite _ (near.exact has)
  rw [truncate_of_nonneg (Nat.cast_nonneg _), Int.floor_natCast, clamp] at cut
  omega

/-- Rounding to the nearest integer first changes the result by one at most. -/
theorem abs_sub_toUnsigned_roundHalfEven (regular : f.Regular) (x : Binary f) :
    |(x.toUnsigned : ℤ) - x.roundHalfEven.toUnsigned| ≤ 1 := by
  cases value : x.value with
  | nan => simp [roundHalfEven_of_nan regular (value_eq_nan_iff.mp value)]
  | infinite s => simp [roundHalfEven_of_infinite regular value]
  | finite s m e =>
    have exact : x.Exactly s (dyadic m e) := ⟨m, e, value, rfl⟩
    obtain ⟨n, rounded, near, _⟩ := exactly_roundHalfEven regular exact
    cases s with
    | true => simp [toUnsigned_of_negative exact, toUnsigned_of_negative rounded]
    | false =>
      rw [toUnsigned_of_exactly exact, toUnsigned_of_exactly rounded, Nat.floor_natCast]
      have floor := Nat.floor_le exact.nonneg
      have next := Nat.lt_floor_add_one (dyadic m e)
      obtain ⟨low, high⟩ := abs_le.mp near
      have above : n ≤ ⌊dyadic m e⌋₊ + 1 := by
        have : (n : ℚ) < (⌊dyadic m e⌋₊ + 2 : ℕ) := by
          push_cast
          linarith
        exact Nat.lt_succ_iff.mp (by exact_mod_cast this)
      have under : ⌊dyadic m e⌋₊ ≤ n := by
        have : (⌊dyadic m e⌋₊ : ℚ) < (n + 1 : ℕ) := by
          push_cast
          linarith
        exact Nat.lt_succ_iff.mp (by exact_mod_cast this)
      rw [abs_le]
      push_cast
      omega

/-- Of every double the value is cut toward zero and clamped to 64 bits, which keeps the numeric
    order. An unsigned integer comes back from the double that it is converted to, if any double has
    its value. And it makes a difference of one at most whether the number is rounded to the nearest
    integer first. -/
theorem toUnsigned_truncates_and_clamps :
    (∀ x : Double, x.TruncatesTo x.toUnsigned) ∧
      (∀ x y : Double, x.lt y = true ∨ x.eq y = true → x.toUnsigned ≤ y.toUnsigned) ∧
      (∀ n : UInt64, (∃ x : Double, x.rational? = some (n.toNat : ℚ)) →
        (ofInt n.toNat : Double).toUnsigned = n.toNat) ∧
      ∀ x : Double, |(x.toUnsigned : ℤ) - x.roundHalfEven.toUnsigned| ≤ 1 := by
  have regular : Format.binary64.Regular := by decide +kernel
  have room : 64 < Format.binary64.top + Format.binary64.fraction := by decide +kernel
  refine ⟨truncatesTo_toUnsigned, fun x y => toUnsigned_mono regular, ?_,
    abs_sub_toUnsigned_roundHalfEven regular⟩
  rintro n ⟨x, has⟩
  exact toUnsigned_ofInt regular room n has

/-- The largest double below the limit is kept, and the limit itself is clamped. -/
example : (ofBits 0x43efffffffffffff : Double).toUnsigned = 2 ^ 64 - 2 ^ 11 ∧
    (ofBits 0x43f0000000000000 : Double).toUnsigned = 2 ^ 64 - 1 := by decide +kernel

end Binary

end NativeBridge
