import Mathlib.Data.Rat.Floor
import Mathlib.Tactic.Linarith
import Mathlib.Tactic.Ring
import NativeBridge.Number.Arithmetic

/-! Values that a format has exactly.

    The code of a finite number is a count of gaps and the units of that gap: as many as a full
    fraction has, or fewer of the least gap (`Format.Units`). So a number is fixed by its sign and
    its absolute value (`Binary.Exactly.inj`), and rounding a value that is short enough is exact
    (`Binary.exactly_nearest`). What the operations yield is then read off the exact results. -/

namespace NativeBridge

variable {f g : Format} {s t : Bool} {m n gap units : Nat} {d e : Int} {p q : ℚ}

/-! ### Dyadic values -/

/-- The value `m * 2 ^ e`. -/
def dyadic (m : Nat) (e : Int) : ℚ := m * 2 ^ e

theorem pow2_pos (n : Nat) : 0 < pow2 n := Nat.two_pow_pos n

theorem pow2_succ (n : Nat) : pow2 (n + 1) = 2 * pow2 n := Nat.pow_succ'

theorem cast_pow2 (n : Nat) : ((pow2 n : Nat) : ℚ) = 2 ^ (n : Int) := by
  show ((2 ^ n : Nat) : ℚ) = _
  rw [Nat.cast_pow, zpow_natCast, Nat.cast_ofNat]

theorem dyadic_nonneg (m : Nat) (e : Int) : 0 ≤ dyadic m e :=
  mul_nonneg (Nat.cast_nonneg m) (zpow_nonneg zero_le_two e)

theorem dyadic_zero (m : Nat) : dyadic m 0 = m := by simp [dyadic]

theorem dyadic_mul (m n : Nat) (e d : Int) :
    dyadic (m * n) (e + d) = dyadic m e * dyadic n d := by
  rw [dyadic, dyadic, dyadic, zpow_add₀ two_ne_zero, Nat.cast_mul]
  ring

/-- More units of a smaller gap. -/
theorem dyadic_shift (m : Nat) (low : d ≤ e) :
    dyadic (m * pow2 (e - d).toNat) d = dyadic m e := by
  rw [dyadic, dyadic, Nat.cast_mul, cast_pow2, mul_assoc, ← zpow_add₀ two_ne_zero,
    Int.toNat_of_nonneg (Int.sub_nonneg.mpr low), Int.sub_add_cancel]

theorem dyadic_inj (same : dyadic m e = dyadic n e) : m = n :=
  Nat.cast_injective (mul_right_cancel₀ (zpow_ne_zero e two_ne_zero) same)

theorem eq_mul_pow2 (same : dyadic m e = dyadic n d) (low : e ≤ d) :
    m = n * pow2 (d - e).toNat := dyadic_inj (same.trans (dyadic_shift n low).symm)

theorem dyadic_half (m : Nat) (e : Int) : dyadic m (e - 1) = dyadic m e / 2 := by
  rw [dyadic, dyadic, zpow_sub_one₀ two_ne_zero]
  ring

/-- An odd number of gaps is no number of wider ones. -/
theorem le_of_odd {k : Nat} (same : dyadic (2 * k + 1) d = dyadic m e) : e ≤ d := by
  by_contra wide
  have odd := eq_mul_pow2 same (by omega)
  have even : pow2 (e - d).toNat = 2 * pow2 (e - d - 1).toNat := by
    rw [← pow2_succ]
    congr 1
    omega
  rw [even, Nat.mul_left_comm] at odd
  omega

theorem log2_mul_pow2 (positive : m ≠ 0) (k : Nat) : (m * pow2 k).log2 = m.log2 + k := by
  induction k with
  | zero => simp
  | succ k ih =>
    have twice : m * pow2 (k + 1) = 2 * (m * pow2 k) := by
      show m * 2 ^ (k + 1) = 2 * (m * 2 ^ k)
      ring
    have some : m * pow2 k ≠ 0 := Nat.mul_ne_zero positive (pow2_pos k).ne'
    rw [twice, Nat.log2_two_mul some, ih, Nat.add_assoc]

/-- The exponent of the leading bit is that of the value. -/
theorem leading_eq (same : dyadic m e = dyadic n d) (positive : n ≠ 0) :
    e + m.log2 = d + n.log2 := by
  rcases le_total e d with low | low
  · rw [eq_mul_pow2 same low, log2_mul_pow2 positive]
    push_cast
    omega
  · have other := eq_mul_pow2 same.symm low
    have some : m ≠ 0 := by
      rintro rfl
      exact positive (other.trans (Nat.zero_mul _))
    rw [other, log2_mul_pow2 some]
    push_cast
    omega

/-! ### Codes -/

namespace Format

/-- Exponent of two in the gap between the largest finite numbers. -/
def top (f : Format) : Int := f.least + (pow2 f.exponent - 3 : Nat)

/-- What a code counts: units that fill a fraction with its leading bit, or fewer at the least
    gap. -/
structure Units (f : Format) (gap units : Nat) : Prop where
  short : units < pow2 (f.fraction + 1)
  full : gap = 0 ∨ pow2 f.fraction ≤ units

/-- The format has room for halves and quarters, and for all integers that fill a fraction. -/
structure Regular (f : Format) : Prop where
  fine : 2 ≤ f.fraction
  wide : f.fraction < pow2 (f.exponent - 1)

instance (f : Format) : Decidable f.Regular :=
  decidable_of_iff (2 ≤ f.fraction ∧ f.fraction < pow2 (f.exponent - 1))
    ⟨fun ⟨fine, wide⟩ => ⟨fine, wide⟩, fun ⟨fine, wide⟩ => ⟨fine, wide⟩⟩

theorem exists_units_of_code (f : Format) (code : Nat) :
    ∃ gap units, f.Units gap units ∧ code = gap * pow2 f.fraction + units := by
  have width := pow2_succ f.fraction
  have split := Nat.div_add_mod' code (pow2 f.fraction)
  have rest := Nat.mod_lt code (pow2_pos f.fraction)
  cases quotient : code / pow2 f.fraction with
  | zero =>
    refine ⟨0, code, ⟨?_, .inl rfl⟩, by omega⟩
    rw [quotient] at split
    have : code % pow2 f.fraction < pow2 f.fraction := rest
    omega
  | succ gap =>
    rw [quotient, Nat.succ_mul] at split
    have : code % pow2 f.fraction < pow2 f.fraction := rest
    exact ⟨gap, pow2 f.fraction + code % pow2 f.fraction, ⟨by omega, .inr (by omega)⟩, by omega⟩

/-- The gap that rounding chooses is that of the units. -/
theorem Units.gap_eq (canonical : f.Units gap units) (positive : units ≠ 0) :
    max (f.least + gap + units.log2 - f.fraction) f.least = f.least + gap := by
  have above : units.log2 < f.fraction + 1 := (Nat.log2_lt positive).mpr canonical.short
  rcases canonical.full with rfl | full
  · push_cast
    omega
  · have below : f.fraction ≤ units.log2 := (Nat.le_log2 positive).mpr full
    omega

theorem nearestEven_mul (n : Nat) {den : Nat} (positive : 0 < den) :
    nearestEven (n * den) den = n := by
  simp [nearestEven, positive]

/-- Rounding finds the code of a value that has one. -/
theorem nearestCode_of_units (canonical : f.Units gap units)
    (same : dyadic m e = dyadic units (f.least + gap)) :
    f.nearestCode m e = min f.infinity (gap * pow2 f.fraction + units) := by
  unfold nearestCode
  split
  · rename_i nothing
    have none : units = 0 := by
      have zero : dyadic units (f.least + gap) = dyadic 0 (f.least + gap) := by
        rw [← same, nothing, dyadic, dyadic, Nat.cast_zero, zero_mul, zero_mul]
      exact dyadic_inj zero
    have least : gap = 0 := canonical.full.resolve_right fun full => by
      have := pow2_pos f.fraction
      omega
    simp [none, least]
  · rename_i some
    have positive : units ≠ 0 := by
      rintro rfl
      have zero : dyadic m e = dyadic 0 e := by
        rw [same, dyadic, dyadic, Nat.cast_zero, zero_mul, zero_mul]
      exact some (dyadic_inj zero)
    have chosen : max (e + m.log2 - f.fraction) f.least = f.least + gap := by
      rw [leading_eq same positive, canonical.gap_eq positive]
    rw [chosen]
    have units_eq : (if f.least + gap ≤ e then m * pow2 (e - (f.least + gap)).toNat
        else nearestEven m (pow2 (f.least + gap - e).toNat)) = units := by
      split
      · rename_i low
        exact (eq_mul_pow2 same.symm low).symm
      · rename_i high
        rw [eq_mul_pow2 same (le_of_not_ge high)]
        exact nearestEven_mul units (pow2_pos _)
    have gap_eq : (f.least + gap - f.least).toNat = gap := by omega
    simp only [units_eq, gap_eq]

/-- A value of few units is what a code counts. -/
theorem exists_units (short : n < pow2 (f.fraction + 1)) (low : f.least ≤ d) :
    ∃ gap units, f.Units gap units ∧ dyadic units (f.least + gap) = dyadic n d ∧
      f.least + gap ≤ d := by
  by_cases none : n = 0
  · subst none
    exact ⟨0, 0, ⟨pow2_pos _, .inl rfl⟩, by simp [dyadic], by simpa using low⟩
  have above : n.log2 < f.fraction + 1 := (Nat.log2_lt none).mpr short
  -- as many places as the fraction has left, and the least gap allows
  obtain ⟨k, hk⟩ : ∃ k : Nat, k = min (f.fraction - n.log2) (d - f.least).toNat := ⟨_, rfl⟩
  have leading := log2_mul_pow2 none k
  have some : n * pow2 k ≠ 0 := Nat.mul_ne_zero none (pow2_pos k).ne'
  refine ⟨(d - f.least).toNat - k, n * pow2 k, ⟨?_, ?_⟩, ?_, by omega⟩
  · refine (Nat.log2_lt some).mp ?_
    rw [leading]
    omega
  · by_cases least : (d - f.least).toNat - k = 0
    · exact .inl least
    · refine .inr ((Nat.le_log2 some).mp ?_)
      rw [leading]
      omega
  · have shifted := dyadic_shift (d := d - k) (e := d) n (by omega)
    have places : (d - (d - k)).toNat = k := by omega
    have place : f.least + ((d - f.least).toNat - k : Nat) = d - k := by omega
    rw [place, ← shifted, places]

theorem infinity_lt (f : Format) : f.infinity < pow2 f.magnitudeBits := by
  have all : pow2 f.magnitudeBits = pow2 f.exponent * pow2 f.fraction := Nat.pow_add 2 _ _
  rw [all, infinity]
  exact Nat.mul_lt_mul_of_pos_right (Nat.sub_lt (pow2_pos _) one_pos) (pow2_pos _)

/-- The values that a format has, as far as their size goes. -/
def Fits (f : Format) (q : ℚ) : Prop :=
  ∃ n d, n < pow2 (f.fraction + 1) ∧ f.least ≤ d ∧ d ≤ f.top ∧ dyadic n d = q

/-- A wider format has all values of a narrower one. -/
theorem Fits.widen (fraction : f.fraction ≤ g.fraction) (low : g.least ≤ f.least)
    (high : f.top ≤ g.top) (fits : f.Fits q) : g.Fits q := by
  obtain ⟨n, d, short, above, below, value⟩ := fits
  have more : pow2 (f.fraction + 1) ≤ pow2 (g.fraction + 1) :=
    Nat.pow_le_pow_right two_pos (Nat.succ_le_succ fraction)
  exact ⟨n, d, short.trans_le more, low.trans above, below.trans high, value⟩

namespace Regular

theorem exponents (regular : f.Regular) : 8 ≤ pow2 f.exponent ∧ f.least ≤ -2 ∧ 0 ≤ f.top := by
  obtain ⟨fine, wide⟩ := regular
  have some : f.exponent ≠ 0 := by
    intro none
    rw [none] at wide
    have : pow2 (0 - 1) = 1 := rfl
    omega
  have twice : pow2 f.exponent = 2 * pow2 (f.exponent - 1) := by
    rw [← pow2_succ, Nat.sub_add_cancel (Nat.pos_of_ne_zero some)]
  have half : 4 ≤ pow2 (f.exponent - 1) := by
    have more : 1 < f.exponent - 1 := by
      by_contra few
      have : pow2 (f.exponent - 1) ≤ pow2 1 := Nat.pow_le_pow_right two_pos (not_lt.mp few)
      have : pow2 1 = 2 := rfl
      omega
    exact Nat.pow_le_pow_right two_pos more
  have least : f.least = 2 - pow2 (f.exponent - 1) - f.fraction := rfl
  have top : f.top = f.least + (pow2 f.exponent - 3 : Nat) := rfl
  omega

end Regular

end Format

/-! ### Numbers -/

namespace Binary

variable {x y : Binary f} {code : Nat}

theorem toBits_ofCode (s : Bool) (below : code < pow2 f.magnitudeBits) :
    (ofCode s code : Binary f).toBits = if s then pow2 f.magnitudeBits + code else code := by
  have width : pow2 f.width = 2 * pow2 f.magnitudeBits := pow2_succ _
  rw [ofCode, ofBits, toBits, BitVec.toNat_ofNat]
  refine Nat.mod_eq_of_lt ?_
  show _ < pow2 f.width
  split <;> omega

theorem code_ofCode (s : Bool) (below : code < pow2 f.magnitudeBits) :
    (ofCode s code : Binary f).code = code := by
  rw [Binary.code, toBits_ofCode s below]
  cases s with
  | false => exact Nat.mod_eq_of_lt below
  | true =>
    rw [if_pos rfl, Nat.add_mod_left]
    exact Nat.mod_eq_of_lt below

theorem negative_ofCode (s : Bool) (below : code < pow2 f.magnitudeBits) :
    (ofCode s code : Binary f).negative = s := by
  rw [negative, toBits_ofCode s below]
  cases s with
  | false => simpa using below
  | true => simp

theorem ofCode_code (x : Binary f) : ofCode x.negative x.code = x := by
  have width : x.toBits < 2 * pow2 f.magnitudeBits := by
    rw [← pow2_succ]
    exact x.bits.isLt
  have bits : (if x.negative then pow2 f.magnitudeBits + x.code else x.code) = x.toBits := by
    rw [Binary.code]
    by_cases sign : pow2 f.magnitudeBits ≤ x.toBits
    · have rest : x.toBits % pow2 f.magnitudeBits = x.toBits - pow2 f.magnitudeBits := by
        rw [Nat.mod_eq_sub_mod sign]
        exact Nat.mod_eq_of_lt (by omega)
      rw [negative, if_pos (by simpa using sign), rest]
      omega
    · rw [negative, if_neg (by simpa using sign)]
      exact Nat.mod_eq_of_lt (by omega)
  rw [ofCode, bits, ofBits]
  exact congrArg Binary.mk (BitVec.ofNat_toNat _ _ ▸ BitVec.setWidth_eq _)

theorem code_lt (x : Binary f) : x.code < pow2 f.magnitudeBits := Nat.mod_lt _ (pow2_pos _)

/-- A number is its sign and its code. -/
theorem ext_code (signs : x.negative = y.negative) (codes : x.code = y.code) : x = y := by
  rw [← ofCode_code x, ← ofCode_code y, signs, codes]

theorem isNaN_abs (x : Binary f) : x.abs.isNaN = x.isNaN := by
  rw [isNaN, isNaN, abs, code_ofCode false x.code_lt]

theorem isNaN_nan (regular : f.Regular) : (nan : Binary f).isNaN = true := by
  have all : pow2 f.magnitudeBits = pow2 f.exponent * pow2 f.fraction := Nat.pow_add 2 _ _
  have fraction : pow2 f.fraction = 2 * pow2 (f.fraction - 1) := by
    rw [← pow2_succ, Nat.sub_add_cancel (by have := regular.fine; omega)]
  have positive := pow2_pos (f.fraction - 1)
  have below : f.infinity + pow2 (f.fraction - 1) < pow2 f.magnitudeBits := by
    have top : f.infinity + pow2 f.fraction = pow2 f.magnitudeBits := by
      rw [all, Format.infinity, Nat.sub_mul, Nat.one_mul]
      exact Nat.sub_add_cancel (Nat.le_mul_of_pos_left _ (pow2_pos _))
    omega
  rw [isNaN, nan, code_ofCode false below]
  exact decide_eq_true (by omega)

/-- What the code of a finite number counts is its value. -/
theorem value_of_units (canonical : f.Units gap units)
    (code : x.code = gap * pow2 f.fraction + units) (finite : x.code < f.infinity) :
    x.value = .finite x.negative units (f.least + gap) := by
  have short := canonical.short
  rw [pow2_succ] at short
  rw [value, if_neg (Nat.lt_asymm finite), if_neg finite.ne, code]
  by_cases few : units < pow2 f.fraction
  · obtain rfl := canonical.full.resolve_right (Nat.not_le.mpr few)
    rw [Nat.zero_mul, Nat.zero_add, if_pos (Nat.div_eq_of_lt few), Nat.mod_eq_of_lt few]
    simp
  · obtain ⟨rest, rfl⟩ := Nat.exists_eq_add_of_le (Nat.le_of_not_lt few)
    have left : rest < pow2 f.fraction := by omega
    have all : gap * pow2 f.fraction + (pow2 f.fraction + rest) =
        (gap + 1) * pow2 f.fraction + rest := by ring
    have quotient : ((gap + 1) * pow2 f.fraction + rest) / pow2 f.fraction = gap + 1 := by
      rw [Nat.mul_comm, Nat.mul_add_div (pow2_pos _), Nat.div_eq_of_lt left, Nat.add_zero]
    have remainder : ((gap + 1) * pow2 f.fraction + rest) % pow2 f.fraction = rest := by
      rw [Nat.mul_comm, Nat.mul_add_mod, Nat.mod_eq_of_lt left]
    rw [all, quotient, remainder, if_neg (Nat.succ_ne_zero gap)]
    rfl

theorem value_eq_nan_iff : x.value = .nan ↔ x.isNaN = true := by
  unfold value isNaN
  dsimp only
  split_ifs with h <;> simp [h]

theorem value_eq_infinite_iff : x.value = .infinite s ↔ x.code = f.infinity ∧ x.negative = s := by
  unfold value
  dsimp only
  by_cases above : f.infinity < x.code
  · simp [above, above.ne']
  · by_cases top : x.code = f.infinity
    · simp [top]
    · split_ifs <;> simp [top]

/-- The number is finite, with this sign and this absolute value. -/
def Exactly (x : Binary f) (s : Bool) (q : ℚ) : Prop :=
  ∃ m e, x.value = .finite s m e ∧ dyadic m e = q

namespace Exactly

/-- The code of a finite number counts the units of its value. -/
theorem exists_units (exact : x.Exactly s q) :
    ∃ gap units, f.Units gap units ∧ x.code = gap * pow2 f.fraction + units ∧
      x.code < f.infinity ∧ x.negative = s ∧ x.value = .finite s units (f.least + gap) ∧
      dyadic units (f.least + gap) = q := by
  obtain ⟨m, e, value, rfl⟩ := exact
  obtain ⟨gap, units, canonical, code⟩ := f.exists_units_of_code x.code
  have finite : x.code < f.infinity := by
    refine lt_of_le_of_ne (not_lt.mp fun above => ?_) fun top => ?_
    · have nan := value_eq_nan_iff.mpr (decide_eq_true above)
      cases nan.symm.trans value
    · have infinite := value_eq_infinite_iff.mpr ⟨top, rfl⟩
      cases infinite.symm.trans value
  have same := value_of_units canonical code finite
  cases same.symm.trans value
  exact ⟨gap, _, canonical, code, finite, rfl, same, rfl⟩

theorem negative_eq (exact : x.Exactly s q) : x.negative = s := by
  obtain ⟨_, _, _, _, _, sign, _⟩ := exact.exists_units
  exact sign

theorem nonneg (exact : x.Exactly s q) : 0 ≤ q := by
  obtain ⟨m, e, _, rfl⟩ := exact
  exact dyadic_nonneg m e

theorem eq_size (one : x.Exactly s p) (other : x.Exactly t q) : p = q := by
  obtain ⟨m, e, value, rfl⟩ := one
  obtain ⟨n, d, value', rfl⟩ := other
  obtain ⟨_, rfl, rfl⟩ := Value.finite.inj (value.symm.trans value')
  rfl

/-- Rounding finds the code of a value that a number has. -/
theorem nearestCode_eq (exact : x.Exactly s q) (same : dyadic m e = q) :
    f.nearestCode m e = x.code := by
  obtain ⟨gap, units, canonical, code, finite, _, _, value⟩ := exact.exists_units
  rw [Format.nearestCode_of_units canonical (same.trans value.symm), ← code]
  exact Nat.min_eq_right finite.le

/-- A finite number is fixed by its sign and its absolute value. -/
theorem inj (one : x.Exactly s q) (other : y.Exactly s q) : x = y := by
  have ⟨m, e, _, same⟩ := one
  refine ext_code (one.negative_eq.trans other.negative_eq.symm) ?_
  exact (one.nearestCode_eq same).symm.trans (other.nearestCode_eq same)

/-- Both parts of a finite number are short. -/
theorem exists_short (exact : x.Exactly s q) :
    ∃ m e, x.value = .finite s m e ∧ m < pow2 (f.fraction + 1) ∧ f.least ≤ e ∧ e ≤ f.top ∧
      dyadic m e = q := by
  obtain ⟨gap, units, canonical, code, finite, _, value, same⟩ := exact.exists_units
  refine ⟨units, f.least + gap, value, canonical.short, by omega, ?_, same⟩
  have top : f.top = f.least + (pow2 f.exponent - 3 : Nat) := rfl
  rcases canonical.full with rfl | full
  · omega
  · have codes : (gap + 1) * pow2 f.fraction < (pow2 f.exponent - 1) * pow2 f.fraction := by
      rw [Nat.succ_mul]
      exact lt_of_le_of_lt (by omega) finite
    have gaps := Nat.lt_of_mul_lt_mul_right codes
    omega

theorem fits (exact : x.Exactly s q) : f.Fits q := by
  obtain ⟨m, e, _, short, low, high, same⟩ := exact.exists_short
  exact ⟨m, e, short, low, high, same⟩

end Exactly

/-- Rounding a value that the format has is exact. -/
theorem exactly_nearest (regular : f.Regular) (s : Bool) (fits : f.Fits q)
    (same : dyadic m e = q) : (nearest s m e : Binary f).Exactly s q := by
  obtain ⟨n, d, short, low, high, value⟩ := fits
  obtain ⟨gap, units, canonical, counted, gaps⟩ := Format.exists_units short low
  have finite : gap * pow2 f.fraction + units < f.infinity := by
    have few := canonical.short
    rw [pow2_succ] at few
    obtain ⟨big, _⟩ := regular.exponents
    have top : f.top = f.least + (pow2 f.exponent - 3 : Nat) := rfl
    have gaps' : gap + 2 ≤ pow2 f.exponent - 1 := by omega
    calc gap * pow2 f.fraction + units < (gap + 2) * pow2 f.fraction := by
          rw [Nat.add_mul]
          omega
      _ ≤ f.infinity := Nat.mul_le_mul_right _ gaps'
  have below := finite.trans f.infinity_lt
  have all : dyadic units (f.least + gap) = q := counted.trans value
  rw [nearest, Format.nearestCode_of_units canonical (same.trans all.symm),
    Nat.min_eq_right finite.le]
  refine ⟨units, f.least + gap, ?_, all⟩
  have code := code_ofCode (f := f) s below
  rw [value_of_units canonical code (code.symm ▸ finite), negative_ofCode s below]

/-! ### Exact results -/

/-- The value with its sign. -/
def signed (s : Bool) (q : ℚ) : ℚ := if s then -q else q

theorem signed_not (s : Bool) (q : ℚ) : signed (!s) q = -signed s q := by
  cases s <;> simp [signed]

theorem abs_signed_sub (s : Bool) (p q : ℚ) : |signed s p - signed s q| = |p - q| := by
  cases s with
  | false => rfl
  | true => rw [signed, signed, if_pos rfl, if_pos rfl, neg_sub_neg, abs_sub_comm]

theorem signed_natCast (s : Bool) (n : Nat) :
    signed s n = ((if s then -n else n : Int) : ℚ) := by
  cases s <;> simp [signed]

theorem exactly_of_code (exact : x.Exactly s q) (codes : y.code = x.code) :
    y.Exactly y.negative q := by
  obtain ⟨gap, units, canonical, code, finite, _, _, value⟩ := exact.exists_units
  exact ⟨_, _, value_of_units canonical (codes.trans code) (codes ▸ finite), value⟩

theorem Exactly.neg (exact : x.Exactly s q) : x.neg.Exactly (!s) q := by
  have flipped := exactly_of_code exact (code_ofCode (!x.negative) x.code_lt)
  rw [negative_ofCode _ x.code_lt] at flipped
  exact exact.negative_eq ▸ flipped

theorem Exactly.abs (exact : x.Exactly s q) : x.abs.Exactly false q := by
  have positive := exactly_of_code exact (code_ofCode false x.code_lt)
  rwa [negative_ofCode _ x.code_lt] at positive

/-- An exact sum is the sum. -/
theorem exactly_add (regular : f.Regular) (one : x.Exactly s p) (other : y.Exactly t q)
    (fits : f.Fits |signed s p + signed t q|) :
    ∃ sign, (x.add y).Exactly sign |signed s p + signed t q| := by
  obtain ⟨m, e, left, rfl⟩ := one
  obtain ⟨n, d, right, rfl⟩ := other
  rw [add, left, right]
  dsimp only
  refine ⟨_, exactly_nearest regular _ fits ?_⟩
  set low := min e d
  set a : Int := m * pow2 (e - low).toNat with ha
  set b : Int := n * pow2 (d - low).toNat with hb
  have first : (a : ℚ) * 2 ^ low = dyadic m e := by
    rw [← dyadic_shift m (min_le_left e d), dyadic, ha]
    push_cast
    rfl
  have second : (b : ℚ) * 2 ^ low = dyadic n d := by
    rw [← dyadic_shift n (min_le_right e d), dyadic, hb]
    push_cast
    rfl
  have scale : |(2 : ℚ) ^ low| = 2 ^ low := abs_of_nonneg (zpow_nonneg zero_le_two low)
  rw [dyadic, Nat.cast_natAbs, Int.cast_abs, ← scale, ← abs_mul]
  cases s <;> cases t <;> simp [signed, add_mul, first, second]

/-- An exact difference of numbers with one sign is the difference. -/
theorem exactly_sub (regular : f.Regular) (one : x.Exactly s p) (other : y.Exactly s q)
    (fits : f.Fits |p - q|) : ∃ sign, (x - y).Exactly sign |p - q| := by
  have size : |signed s p + signed (!s) q| = |p - q| := by
    rw [signed_not, ← sub_eq_add_neg, abs_signed_sub]
  have sum := exactly_add regular one other.neg (size.symm ▸ fits)
  rwa [size] at sum

/-- An exact product is the product. -/
theorem exactly_mul (regular : f.Regular) (one : x.Exactly s p) (other : y.Exactly t q)
    (fits : f.Fits (p * q)) : (x.mul y).Exactly (s != t) (p * q) := by
  have ⟨m, e, left, same⟩ := one
  have ⟨n, d, right, same'⟩ := other
  rw [mul, left, right, one.negative_eq, other.negative_eq]
  exact exactly_nearest regular _ fits (by rw [dyadic_mul, same, same'])

/-- A value that the other format has too is kept. -/
theorem exactly_convert (regular : g.Regular) (exact : x.Exactly s q) (fits : g.Fits q) :
    (x.convert : Binary g).Exactly s q := by
  obtain ⟨m, e, value, same⟩ := exact
  rw [convert, value]
  exact exactly_nearest regular s fits same

end Binary

end NativeBridge
