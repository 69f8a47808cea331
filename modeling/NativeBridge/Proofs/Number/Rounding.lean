import Mathlib.Algebra.Order.Floor.Semifield
import Mathlib.Tactic.FieldSimp
import NativeBridge.Number.Rounding
import NativeBridge.Proofs.Number.Exact

/-! Rounding half to even.

    A tie is found by subtracting and comparing with one half, and repaired by halving. None of this
    rounds: what rounding away from zero took off or added has no more bits than the number itself
    (`Binary.Exactly.fits_rest`), and a tie is an odd number of halves, so it can be halved again
    (`Binary.Exactly.fits_quarter`). So the result is the nearest integer, and at a tie the even one
    (`Binary.exactly_roundHalfEven`), whatever the format. -/

namespace NativeBridge

namespace Binary

variable {f g : Format} {s t : Bool} {m n k : Nat} {d e : Int} {p q : ℚ} {x y : Binary f}

/-! ### The operators on exact values -/

theorem fits_natCast (regular : f.Regular) (short : n < pow2 (f.fraction + 1)) : f.Fits n := by
  obtain ⟨_, low, high⟩ := regular.exponents
  exact ⟨n, 0, short, by omega, high, dyadic_zero n⟩

theorem exactly_half (regular : f.Regular) : (half : Binary f).Exactly false (1 / 2) := by
  obtain ⟨_, low, high⟩ := regular.exponents
  have value : dyadic 1 (-1) = 1 / 2 := by norm_num [dyadic]
  have short : 1 < pow2 (f.fraction + 1) := Nat.one_lt_two_pow (Nat.succ_ne_zero _)
  exact exactly_nearest regular false ⟨1, -1, short, by omega, by omega, value⟩ value

theorem exactly_two (regular : f.Regular) : (two : Binary f).Exactly false 2 := by
  have short : 2 < pow2 (f.fraction + 1) := by
    have : 1 < pow2 f.fraction := Nat.one_lt_two_pow (by have := regular.fine; omega)
    rw [pow2_succ]
    omega
  exact exactly_nearest regular false (fits_natCast regular short) (dyadic_zero 2)

/-- The comparison with one half is exact. -/
theorem abs_eq_half_iff (regular : f.Regular) (exact : x.Exactly s q) :
    x.abs.eq half = true ↔ q = 1 / 2 := by
  have size := exact.abs
  have unit := exactly_half regular
  have same : x.abs.eq half = true ↔ x.abs.code = (half : Binary f).code := by
    obtain ⟨_, _, _, _, below, _⟩ := size.exists_units
    obtain ⟨_, _, _, _, below', _⟩ := unit.exists_units
    simp [eq, isNaN, signedCode, size.negative_eq, unit.negative_eq, below.le, below'.le]
  rw [same]
  constructor
  · exact fun codes => size.eq_size (exactly_of_code unit codes)
  · rintro rfl
    rw [size.inj unit]

/-- Division by a power of two shifts the exponent. -/
theorem nearestQuotient_pow2 (s : Bool) (m k : Nat) (e : Int) :
    (nearestQuotient s m (pow2 k) e : Binary f) =
      nearest s (m * pow2 (f.fraction + 4)) (e - k - f.fraction - 4) := by
  have log : (pow2 k).log2 = k := by simp
  have scaled : m * pow2 (f.fraction + 3 + k) = m * pow2 (f.fraction + 3) * pow2 k := by
    rw [Nat.mul_assoc]
    exact congrArg (m * ·) (Nat.pow_add 2 _ _)
  have twice : 2 * (m * pow2 (f.fraction + 3)) = m * pow2 (f.fraction + 4) := by
    rw [pow2_succ (f.fraction + 3)]
    ring
  rw [nearestQuotient, log, scaled]
  simp only [Nat.mul_mod_left, if_true, Nat.mul_div_cancel _ (pow2_pos k), Nat.add_zero, twice]
  congr 1
  push_cast
  ring

/-- The units of two are a power of two. -/
theorem value_two (regular : f.Regular) :
    ∃ k : Nat, (two : Binary f).value = .finite false (pow2 k) (1 - k) := by
  obtain ⟨n, d, value, double⟩ := exactly_two (f := f) regular
  have unit : dyadic 1 1 = dyadic n d := by rw [double]; norm_num [dyadic]
  have small : d ≤ 1 := le_of_odd (k := 0) unit
  refine ⟨(1 - d).toNat, ?_⟩
  have place : 1 - ((1 - d).toNat : Int) = d := by omega
  rw [value, eq_mul_pow2 unit.symm small, Nat.one_mul, place]

/-- An exact half is the half. -/
theorem exactly_div_two (regular : f.Regular) (exact : x.Exactly s p) (fits : f.Fits (p / 2)) :
    (x / two).Exactly s (p / 2) := by
  have ⟨m, e, value, same⟩ := exact
  obtain ⟨k, divisor⟩ := value_two (f := f) regular
  show (x.div two).Exactly s (p / 2)
  rw [div, value, divisor, exact.negative_eq, (exactly_two regular).negative_eq]
  dsimp only
  rw [if_neg (pow2_pos k).ne', nearestQuotient_pow2, Bool.bne_false]
  refine exactly_nearest regular s fits ?_
  have shifted := dyadic_shift (d := e - 1 - (f.fraction + 4 : Nat)) (e := e - 1) m (by omega)
  have places : (e - 1 - (e - 1 - (f.fraction + 4 : Nat))).toNat = f.fraction + 4 := by omega
  have place : e - (1 - k) - k - f.fraction - 4 = e - 1 - (f.fraction + 4 : Nat) := by
    push_cast
    ring
  rw [place, ← same, ← dyadic_half, ← shifted, places]

/-! ### Rounding away from zero -/

theorem abs_sub_floor_le (nonneg : 0 ≤ p) : |p - ⌊p + 1 / 2⌋₊| ≤ 1 / 2 := by
  have low := Nat.floor_le (show 0 ≤ p + 1 / 2 by linarith)
  have high := Nat.lt_floor_add_one (p + 1 / 2)
  rw [abs_le]
  constructor <;> linarith

/-- Rounding away from zero moves a value by no more than its size. -/
theorem abs_sub_floor_le_self (nonneg : 0 ≤ p) : |p - ⌊p + 1 / 2⌋₊| ≤ p := by
  rcases Nat.eq_zero_or_pos ⌊p + 1 / 2⌋₊ with none | some
  · rw [none, Nat.cast_zero, sub_zero, abs_of_nonneg nonneg]
  · have one : 1 ≤ p + 1 / 2 := by simpa using (Nat.le_floor_iff' (by omega)).mp some
    exact (abs_sub_floor_le nonneg).trans (by linarith)

/-- A finite number is whole, and stays as it is, or it is a fraction, and its quotient is
    rounded. -/
theorem Exactly.whole_or_fraction (exact : x.Exactly s p) :
    ((∃ n : Nat, p = n) ∧ x.integral .halfAway = x) ∨
      ∃ m k : Nat, m < pow2 (f.fraction + 1) ∧ f.least ≤ -k ∧ -k ≤ f.top ∧ p = m / pow2 k ∧
        x.integral .halfAway = nearest s ((2 * m + pow2 k) / (2 * pow2 k)) 0 := by
  obtain ⟨m, e, value, short, low, high, rfl⟩ := exact.exists_short
  rw [integral, value]
  dsimp only
  by_cases whole : 0 ≤ e
  · refine .inl ⟨⟨m * pow2 e.toNat, ?_⟩, if_pos whole⟩
    rw [← dyadic_zero, ← dyadic_shift m whole, sub_zero]
  · obtain ⟨k, rfl⟩ : ∃ k : Nat, e = -k := ⟨(-e).toNat, by omega⟩
    refine .inr ⟨m, k, short, low, high, ?_, ?_⟩
    · rw [dyadic, cast_pow2, zpow_neg, div_eq_mul_inv]
    · rw [if_neg whole, neg_neg, Int.toNat_natCast]
      rfl

theorem floor_natCast_add_half (n : Nat) : ⌊(n : ℚ) + 1 / 2⌋₊ = n := by
  rw [Nat.floor_eq_iff (by positivity)]
  constructor <;> norm_num

theorem floor_quotient_add_half (m : Nat) {den : Nat} (positive : 0 < den) :
    ⌊(m : ℚ) / den + 1 / 2⌋₊ = (2 * m + den) / (2 * den) := by
  have some : (den : ℚ) ≠ 0 := by exact_mod_cast positive.ne'
  have quotient : (m : ℚ) / den + 1 / 2 = ((2 * m + den : Nat) : ℚ) / ((2 * den : Nat) : ℚ) := by
    push_cast
    field_simp
  rw [quotient, Nat.floor_div_eq_div]

/-- Rounding away from zero is exact. -/
theorem exactly_integral (regular : f.Regular) (exact : x.Exactly s p) :
    (x.integral .halfAway).Exactly s ⌊p + 1 / 2⌋₊ := by
  rcases exact.whole_or_fraction with ⟨⟨n, rfl⟩, same⟩ | ⟨m, k, short, _, _, rfl, rounded⟩
  · rwa [same, floor_natCast_add_half]
  · rw [rounded, floor_quotient_add_half m (pow2_pos k)]
    refine exactly_nearest regular s (fits_natCast regular ?_) (dyadic_zero _)
    have positive := pow2_pos k
    refine Nat.div_lt_of_lt_mul ?_
    calc 2 * m + pow2 k ≤ (2 * m + 1) * pow2 k := by nlinarith
      _ < 2 * pow2 (f.fraction + 1) * pow2 k := Nat.mul_lt_mul_of_pos_right (by omega) positive
      _ = 2 * pow2 k * pow2 (f.fraction + 1) := by ring

/-- What rounding away from zero took off or added has no more bits than the number. -/
theorem Exactly.fits_rest (regular : f.Regular) (exact : x.Exactly s p) :
    f.Fits |p - ⌊p + 1 / 2⌋₊| := by
  have less := abs_sub_floor_le_self exact.nonneg
  rcases exact.whole_or_fraction with ⟨⟨n, rfl⟩, _⟩ | ⟨m, k, short, low, high, rfl, _⟩
  · rw [floor_natCast_add_half, sub_self, abs_zero]
    exact_mod_cast fits_natCast regular (n := 0) (pow2_pos _)
  · set z := ⌊(m : ℚ) / pow2 k + 1 / 2⌋₊
    have positive : (0 : ℚ) < pow2 k := by exact_mod_cast pow2_pos k
    have rest : |(m : ℚ) / pow2 k - z| = ((m - z * pow2 k : Int).natAbs : ℚ) / pow2 k := by
      have apart : (m : ℚ) / pow2 k - z = ((m - z * pow2 k : Int) : ℚ) / pow2 k := by
        push_cast
        rw [sub_div, mul_div_cancel_right₀ _ positive.ne']
      rw [apart, abs_div, abs_of_pos positive, Nat.cast_natAbs, Int.cast_abs]
    rw [rest, div_le_div_iff_of_pos_right positive] at less
    have few : (m - z * pow2 k : Int).natAbs ≤ m := by exact_mod_cast less
    refine ⟨_, -k, few.trans_lt short, low, high, ?_⟩
    rw [rest, dyadic, cast_pow2, zpow_neg, div_eq_mul_inv]

/-! ### Ties -/

/-- At a tie, rounding away from zero goes up by one half. -/
theorem eq_of_tie (nonneg : 0 ≤ p) (tie : |p - ⌊p + 1 / 2⌋₊| = 1 / 2) :
    ∃ k : Nat, p = (2 * k + 1 : Nat) / 2 := by
  have high := Nat.lt_floor_add_one (p + 1 / 2)
  have above : p - ⌊p + 1 / 2⌋₊ = -(1 / 2) := by
    refine (eq_or_eq_neg_of_abs_eq tie).resolve_left fun below => ?_
    linarith
  have some : ⌊p + 1 / 2⌋₊ ≠ 0 := by
    intro none
    rw [none, Nat.cast_zero] at above
    linarith
  obtain ⟨k, up⟩ := Nat.exists_eq_succ_of_ne_zero some
  refine ⟨k, ?_⟩
  rw [up] at above
  push_cast at above ⊢
  linarith

/-- An odd number of halves has few bits, so it can be halved once more. -/
theorem Exactly.fits_quarter (regular : f.Regular) (exact : x.Exactly s ((2 * k + 1 : Nat) / 2)) :
    2 * k + 1 < pow2 (f.fraction + 1) ∧ f.Fits ((2 * k + 1 : Nat) / 2 / 2) := by
  obtain ⟨_, least, top⟩ := regular.exponents
  obtain ⟨m, e, _, short, low, high, same⟩ := exact.exists_short
  have halves : dyadic (2 * k + 1) (-1) = (2 * k + 1 : Nat) / 2 := by
    rw [← dyadic_zero, ← dyadic_half, zero_sub]
  have less : 2 * k + 1 < pow2 (f.fraction + 1) := by
    have fraction : e ≤ -1 := le_of_odd (halves.trans same.symm)
    have units := eq_mul_pow2 (same.trans halves.symm) fraction
    have positive := pow2_pos (-1 - e).toNat
    exact lt_of_le_of_lt (by rw [units]; exact Nat.le_mul_of_pos_right _ positive) short
  refine ⟨less, 2 * k + 1, -2, less, least, by omega, ?_⟩
  rw [← halves, ← dyadic_half]
  rfl

/-- The nearest integers to a tie are the even one and another. -/
theorem floor_quarter (k : Nat) : ⌊((2 * k + 1 : Nat) : ℚ) / 2 / 2 + 1 / 2⌋₊ = (k + 1) / 2 := by
  have quotient :
      ((2 * k + 1 : Nat) : ℚ) / 2 / 2 + 1 / 2 = ((2 * k + 3 : Nat) : ℚ) / (4 : Nat) := by
    push_cast
    ring
  rw [quotient, Nat.floor_div_eq_div]
  omega

theorem abs_sub_even (k : Nat) :
    |((2 * k + 1 : Nat) : ℚ) / 2 - (2 * ((k + 1) / 2) : Nat)| = 1 / 2 := by
  obtain down | up : 2 * ((k + 1) / 2) = k ∨ 2 * ((k + 1) / 2) = k + 1 := by omega
  · have rest : ((2 * k + 1 : Nat) : ℚ) / 2 - k = 1 / 2 := by
      push_cast
      ring
    rw [down, rest, abs_of_pos one_half_pos]
  · have rest : ((2 * k + 1 : Nat) : ℚ) / 2 - (k + 1 : Nat) = -(1 / 2) := by
      push_cast
      ring
    rw [up, rest, abs_neg, abs_of_pos one_half_pos]

/-- A finite number is rounded to the nearest integer, a tie to the even one. -/
theorem exactly_roundHalfEven (regular : f.Regular) (exact : x.Exactly s p) :
    ∃ n : Nat, x.roundHalfEven.Exactly s n ∧ |p - n| ≤ 1 / 2 ∧ (|p - n| = 1 / 2 → Even n) := by
  have nonneg := exact.nonneg
  have away := exactly_integral regular exact
  obtain ⟨sign, rest⟩ := exactly_sub regular exact away (exact.fits_rest regular)
  have test := abs_eq_half_iff regular rest
  by_cases tie : |p - ⌊p + 1 / 2⌋₊| = 1 / 2
  · rw [roundHalfEven, if_pos (test.mpr tie)]
    obtain ⟨k, rfl⟩ := eq_of_tie nonneg tie
    obtain ⟨short, quarter⟩ := exact.fits_quarter regular
    have halved := exactly_integral regular (exactly_div_two regular exact quarter)
    rw [floor_quarter] at halved
    have whole : (2 : ℚ) * ((k + 1) / 2 : Nat) = (2 * ((k + 1) / 2) : Nat) := by
      rw [Nat.cast_mul, Nat.cast_ofNat]
    have fits : f.Fits (2 * ((k + 1) / 2 : Nat)) :=
      whole.symm ▸ fits_natCast regular (by omega)
    have doubled := exactly_mul regular (exactly_two regular) halved fits
    rw [Bool.false_bne, whole] at doubled
    exact ⟨_, doubled, (abs_sub_even k).le, fun _ => even_two_mul _⟩
  · rw [roundHalfEven, if_neg (mt test.mp tie)]
    exact ⟨_, away, abs_sub_floor_le nonneg, fun same => absurd same tie⟩

/-! ### What is not finite -/

/-- The difference is no number then, so the comparison fails. -/
theorem roundHalfEven_of_rest (regular : f.Regular) (same : x.integral .halfAway = x)
    (rest : x - x = nan) : x.roundHalfEven = x := by
  have failed : (nan : Binary f).abs.eq half = false := by
    rw [eq, isNaN_abs, isNaN_nan regular]
    rfl
  simp only [roundHalfEven, same, rest, failed, Bool.false_eq_true, if_false]

theorem roundHalfEven_of_nan (regular : f.Regular) (nan : x.isNaN = true) :
    x.roundHalfEven = x := by
  have value := value_eq_nan_iff.mpr nan
  refine roundHalfEven_of_rest regular (by rw [integral, value]) ?_
  show x.add x.neg = _
  rw [add, value]

theorem roundHalfEven_of_infinite (regular : f.Regular) (value : x.value = .infinite s) :
    x.roundHalfEven = x := by
  have ⟨code, sign⟩ := value_eq_infinite_iff.mp value
  have other : x.neg.value = .infinite (!s) := by
    rw [value_eq_infinite_iff, neg, code_ofCode _ x.code_lt, negative_ofCode _ x.code_lt, sign]
    exact ⟨code, rfl⟩
  refine roundHalfEven_of_rest regular (by rw [integral, value]) ?_
  show x.add x.neg = _
  rw [add, value, other]
  simp

/-! ### All numbers -/

/-- The value of a finite number. -/
def rational? (x : Binary f) : Option ℚ :=
  match x.value with
  | .finite s m e => some (signed s (dyadic m e))
  | _ => none

/-- What is wanted of rounding half to even: of a finite number the nearest integer, at a tie the
    even one, and the sign of the number where that is zero; an infinity as it is, and no number
    where there was none. -/
structure RoundsToEven (x y : Binary f) : Prop where
  finite : x.isNaN = false → x.isInfinite = false → ∃ (q : ℚ) (n : Int),
    x.rational? = some q ∧ y.rational? = some (n : ℚ) ∧ |q - n| ≤ 1 / 2 ∧
      (|q - n| = 1 / 2 → Even n) ∧ (n = 0 → y.negative = x.negative)
  infinite : x.isInfinite = true → y = x
  nan : x.isNaN = true → y.isNaN = true

theorem Exactly.rational?_eq (exact : x.Exactly s p) : x.rational? = some (signed s p) := by
  obtain ⟨m, e, value, rfl⟩ := exact
  rw [rational?, value]

/-- A number that is not infinite is finite. -/
theorem exists_exactly (number : x.isNaN = false) (bounded : x.isInfinite = false) :
    ∃ s p, x.Exactly s p := by
  cases value : x.value with
  | nan => cases (value_eq_nan_iff.mp value).symm.trans number
  | infinite s => exact absurd (value_eq_infinite_iff.mp value).1 (of_decide_eq_false bounded)
  | finite s m e => exact ⟨s, _, m, e, value, rfl⟩

/-- Whatever the format, rounding half to even does what is wanted of it. -/
theorem roundsToEven (regular : f.Regular) (x : Binary f) : x.RoundsToEven x.roundHalfEven where
  finite number bounded := by
    obtain ⟨s, p, exact⟩ := exists_exactly number bounded
    obtain ⟨n, rounded, near, even⟩ := exactly_roundHalfEven regular exact
    have result := rounded.rational?_eq
    have distance := abs_signed_sub s p n
    rw [signed_natCast] at result distance
    refine ⟨_, _, exact.rational?_eq, result, distance ▸ near, fun tie => ?_, fun _ => ?_⟩
    · have two := even (distance ▸ tie)
      cases s <;> simpa using two
    · rw [rounded.negative_eq, exact.negative_eq]
  infinite infinite :=
    roundHalfEven_of_infinite regular (value_eq_infinite_iff.mpr ⟨of_decide_eq_true infinite, rfl⟩)
  nan nan := by rwa [roundHalfEven_of_nan regular nan]

/-! ### Widening -/

/-- There is one nearest integer, at a tie one even one. -/
theorem nearest_unique {a b : Nat} (near : |p - a| ≤ 1 / 2) (even : |p - a| = 1 / 2 → Even a)
    (near' : |p - b| ≤ 1 / 2) (even' : |p - b| = 1 / 2 → Even b) : a = b := by
  wlog less : a ≤ b generalizing a b
  · exact (this near' even' near even (le_of_not_ge less)).symm
  refine less.eq_or_lt.resolve_right fun more => ?_
  have apart : (a : ℚ) + 1 ≤ b := by exact_mod_cast more
  have low := abs_le.mp near
  have high := abs_le.mp near'
  have next : b = a + 1 := by
    have close : (b : ℚ) ≤ a + 1 := by linarith
    exact le_antisymm (by exact_mod_cast close) more
  have tie : p = a + 1 / 2 := by linarith
  have two : Even a := even (by rw [tie, add_sub_cancel_left, abs_of_pos one_half_pos])
  have two' : Even b := even' (by
    rw [tie, next, Nat.cast_succ, add_sub_add_left_eq_sub, abs_sub_comm]
    norm_num)
  exact Nat.even_add_one.mp (next ▸ two') two

/-- Rounding commutes with widening. -/
theorem convert_roundHalfEven (regular : f.Regular) (regular' : g.Regular)
    (wider : ∀ q, f.Fits q → g.Fits q) (x : Binary f) (number : x.isNaN = false) :
    (x.roundHalfEven.convert : Binary g) = (x.convert : Binary g).roundHalfEven := by
  cases value : x.value with
  | nan => cases (value_eq_nan_iff.mp value).symm.trans number
  | infinite s =>
    have wide : (x.convert : Binary g) = infinity s := by rw [convert, value]
    have infinite : (infinity s : Binary g).value = .infinite s := by
      rw [value_eq_infinite_iff, infinity, code_ofCode s g.infinity_lt,
        negative_ofCode s g.infinity_lt]
      exact ⟨rfl, rfl⟩
    rw [roundHalfEven_of_infinite regular value, wide, roundHalfEven_of_infinite regular' infinite]
  | finite s m e =>
    have exact : x.Exactly s (dyadic m e) := ⟨m, e, value, rfl⟩
    obtain ⟨a, narrow, near, even⟩ := exactly_roundHalfEven regular exact
    obtain ⟨b, wide, near', even'⟩ :=
      exactly_roundHalfEven regular' (exactly_convert regular' exact (wider _ exact.fits))
    obtain rfl := nearest_unique near even near' even'
    exact (exactly_convert regular' narrow (wider _ narrow.fits)).inj wide

/-- Over all doubles and all singles rounding half to even does what is wanted of it, and it makes
    no difference whether a single is rounded as it is or as a double. -/
theorem rounds_half_to_even :
    (∀ x : Double, x.RoundsToEven x.roundHalfEven) ∧
      (∀ x : Single, x.RoundsToEven x.roundHalfEven) ∧
      ∀ x : Single, x.isNaN = false →
        (x.roundHalfEven.convert : Double) = (x.convert : Double).roundHalfEven := by
  have single : Format.binary32.Regular := by decide +kernel
  have double : Format.binary64.Regular := by decide +kernel
  refine ⟨roundsToEven double, roundsToEven single, convert_roundHalfEven single double ?_⟩
  exact fun q => Format.Fits.widen (by decide) (by decide +kernel) (by decide +kernel)

/-- The number just below one half is no tie, and a tie below zero goes to the even integer. -/
example : (ofBits 0x3fdfffffffffffff : Double).roundHalfEven = zero ∧
    (ofBits 0xc004000000000000 : Double).roundHalfEven = ofInt (-2) := by decide +kernel

end Binary

end NativeBridge
