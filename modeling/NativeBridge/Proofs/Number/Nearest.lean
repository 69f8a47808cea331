import NativeBridge.Proofs.Number.Rounding

/-! Rounding to a format.

    A value is measured in units of a gap, and the number of units is rounded to an integer
    (`Format.Rounded`). That integer is at least as near as every other (`abs_sub_le_of_half`), and
    a number with a finer gap lies below the first full count of units, which is an integer too
    (`Format.Rounded.nearest`). So no number of the format is nearer than the rounded one, and where
    another is as near its code is even (`Binary.nearestTo_nearest`). From that alone rounding is
    exact where it can be, and monotone. -/

namespace NativeBridge

variable {f : Format} {s t : Bool} {m n gap units : Nat} {d e : Int} {p q r : ℚ}

/-! ### Integers -/

/-- The quotient is rounded by one half at most, and at a tie to the even integer. -/
theorem abs_sub_nearestEven (num : Nat) {den : Nat} (positive : 0 < den) :
    |(num : ℚ) / den - nearestEven num den| ≤ 1 / 2 ∧
      (|(num : ℚ) / den - nearestEven num den| = 1 / 2 → Even (nearestEven num den)) := by
  have some : (0 : ℚ) < den := Nat.cast_pos.mpr positive
  obtain ⟨rest, rest_eq⟩ : ∃ rest : ℚ, rest = (num % den : Nat) / den := ⟨_, rfl⟩
  have whole : rest * den = (num % den : Nat) := by rw [rest_eq, div_mul_cancel₀ _ some.ne']
  have split : (num : ℚ) / den = (num / den : Nat) + rest := by
    rw [div_eq_iff some.ne', add_mul, whole]
    exact_mod_cast (Nat.div_add_mod' num den).symm
  have below : rest < 1 := by
    rw [rest_eq, div_lt_one some]
    exact_mod_cast Nat.mod_lt num positive
  have nonneg : 0 ≤ rest := by rw [rest_eq]; positivity
  rw [split]
  unfold nearestEven
  dsimp only
  split_ifs with down up
  · have less : rest < 1 / 2 := by
      have : (2 : ℚ) * (num % den : Nat) < den := by exact_mod_cast down
      rw [← whole] at this
      nlinarith
    rw [add_sub_cancel_left, abs_of_nonneg nonneg]
    exact ⟨less.le, fun tie => absurd tie less.ne⟩
  · have more : 1 / 2 < rest := by
      have : (den : ℚ) < 2 * (num % den : Nat) := by exact_mod_cast up
      rw [← whole] at this
      nlinarith
    rw [Nat.cast_succ, add_sub_add_left_eq_sub, abs_of_neg (by linarith)]
    exact ⟨by linarith, fun tie => by linarith⟩
  · have half : rest = 1 / 2 := by
      have : (2 : ℚ) * (num % den : Nat) = den := by exact_mod_cast (by omega)
      rw [← whole] at this
      exact mul_right_cancel₀ some.ne' (by linarith)
    rw [half, Nat.cast_add, add_sub_add_left_eq_sub]
    refine ⟨?_, fun _ => ?_⟩
    · rcases Nat.mod_two_eq_zero_or_one (num / den) with even | odd
      · norm_num [even]
      · norm_num [odd]
    · rw [Nat.even_iff]
      omega

/-- No integer is nearer than one within a half, and only at a tie is another as near. -/
theorem abs_sub_le_of_half (near : |p - n| ≤ 1 / 2) (k : Nat) :
    |p - n| ≤ |p - k| ∧ (|p - n| = |p - k| → k = n ∨ |p - n| = 1 / 2) := by
  rcases eq_or_ne k n with rfl | other
  · exact ⟨le_rfl, fun _ => .inl rfl⟩
  · have apart : 1 ≤ |(k : ℚ) - n| := by
      have some : (k : ℤ) - n ≠ 0 := sub_ne_zero.mpr (by exact_mod_cast other)
      exact_mod_cast Int.one_le_abs some
    have path := abs_sub_le (k : ℚ) p n
    rw [abs_sub_comm (k : ℚ) p] at path
    exact ⟨by linarith, fun same => .inr (by linarith)⟩

/-! ### Units -/

theorem zpow_pos_two (e : Int) : (0 : ℚ) < 2 ^ e := zpow_pos two_pos e

namespace Format

/-- A value rounded to an integer number of units: of the least gap, or of one that the value
    fills. -/
structure Rounded (f : Format) (p : ℚ) (gap units : Nat) : Prop where
  near : |p / 2 ^ (f.least + gap) - units| ≤ 1 / 2
  even : |p / 2 ^ (f.least + gap) - units| = 1 / 2 → Even units
  full : gap = 0 ∨ (pow2 f.fraction : ℚ) ≤ p / 2 ^ (f.least + gap)
  short : units ≤ pow2 (f.fraction + 1)

namespace Rounded

/-- A value that fills a gap has as many units as a fraction with its leading bit. -/
theorem full_units (rounded : f.Rounded p gap units) : gap = 0 ∨ pow2 f.fraction ≤ units := by
  refine rounded.full.imp_right fun full => ?_
  have near := abs_le.mp rounded.near
  by_contra few
  have less : (units : ℚ) + 1 ≤ pow2 f.fraction := by exact_mod_cast Nat.lt_of_not_le few
  linarith

/-- A number of short significand is not nearer to the value, and where it is as near, it is the
    same or the count of units is even. -/
theorem nearest (rounded : f.Rounded p gap units) (short : n < pow2 (f.fraction + 1))
    (low : f.least ≤ d) :
    |p - dyadic units (f.least + gap)| ≤ |p - dyadic n d| ∧
      (|p - dyadic units (f.least + gap)| = |p - dyadic n d| →
        dyadic n d = dyadic units (f.least + gap) ∨ Even units) := by
  obtain ⟨unit, unit_eq⟩ : ∃ unit : ℚ, unit = 2 ^ (f.least + gap) := ⟨_, rfl⟩
  obtain ⟨v, v_eq⟩ : ∃ v : ℚ, v = p / unit := ⟨_, rfl⟩
  have positive : 0 < unit := unit_eq ▸ zpow_pos_two _
  have value : p = v * unit := by rw [v_eq, div_mul_cancel₀ _ positive.ne']
  have measured (k : ℚ) : |p - k * unit| = |v - k| * unit := by
    rw [value, ← sub_mul, abs_mul, abs_of_pos positive]
  obtain ⟨near, even, full, _⟩ := rounded
  rw [← unit_eq, ← v_eq] at near even full
  have count : dyadic units (f.least + gap) = units * unit := by rw [unit_eq, dyadic]
  rw [count, measured]
  rcases le_or_gt (f.least + gap) d with wide | fine
  · -- the other number is an integer number of units too
    obtain ⟨k, other⟩ : ∃ k : Nat, dyadic n d = k * unit :=
      ⟨_, by rw [unit_eq, ← dyadic_shift n wide, dyadic]⟩
    rw [other, measured]
    obtain ⟨best, ties⟩ := abs_sub_le_of_half near k
    refine ⟨mul_le_mul_of_nonneg_right best positive.le, fun same => ?_⟩
    rcases ties (mul_right_cancel₀ positive.ne' same) with rfl | tie
    · exact .inl rfl
    · exact .inr (even tie)
  · -- the other number is less than the first full count of units
    have filled := full.resolve_left (by omega)
    have less : dyadic n d < pow2 f.fraction * unit := by
      calc dyadic n d < pow2 (f.fraction + 1) * 2 ^ d :=
            mul_lt_mul_of_pos_right (by exact_mod_cast short) (zpow_pos_two d)
        _ = pow2 f.fraction * 2 ^ (d + 1) := by
            rw [pow2_succ, zpow_add_one₀ two_ne_zero]
            push_cast
            ring
        _ ≤ pow2 f.fraction * unit := by
            rw [unit_eq]
            exact mul_le_mul_of_nonneg_left
              (zpow_le_zpow_right₀ one_le_two (by omega)) (Nat.cast_nonneg _)
    have further : |v - units| * unit < |p - dyadic n d| := by
      calc |v - units| * unit ≤ |v - pow2 f.fraction| * unit :=
            mul_le_mul_of_nonneg_right (abs_sub_le_of_half near _).1 positive.le
        _ = p - pow2 f.fraction * unit := by
            rw [abs_of_nonneg (sub_nonneg.mpr filled), sub_mul, value]
        _ < p - dyadic n d := sub_lt_sub_left less p
        _ ≤ |p - dyadic n d| := le_abs_self _
    exact ⟨further.le, fun same => absurd same further.ne⟩

end Rounded

/-- The leading bit of a value that is measured in units of a wide gap. -/
theorem quotient_bounds (positive : m ≠ 0) (place : Int) :
    (2 : ℚ) ^ (e + m.log2 - place) ≤ dyadic m e / 2 ^ place ∧
      dyadic m e / 2 ^ place < 2 ^ (e + m.log2 - place + 1) := by
  have scale : dyadic m e / 2 ^ place = m * 2 ^ (e - place) := by
    rw [dyadic, zpow_sub₀ two_ne_zero, mul_div_assoc]
  have leading (k : Nat) : (2 : ℚ) ^ (e + k - place) = (2 ^ k : Nat) * 2 ^ (e - place) := by
    rw [add_sub_right_comm, zpow_add₀ two_ne_zero, zpow_natCast, mul_comm, Nat.cast_pow,
      Nat.cast_ofNat]
  have above : m < 2 ^ (m.log2 + 1) := (Nat.log2_lt positive).mp (Nat.lt_succ_self _)
  have next : e + m.log2 - place + 1 = e + (m.log2 + 1 : Nat) - place := by
    push_cast
    ring
  rw [scale, next, leading, leading]
  exact ⟨mul_le_mul_of_nonneg_right (by exact_mod_cast Nat.log2_self_le positive)
      (zpow_pos_two _).le,
    mul_lt_mul_of_pos_right (by exact_mod_cast above) (zpow_pos_two _)⟩

/-- A code counts the units of a rounded value, of the gap below its leading bit. -/
theorem exists_rounded (f : Format) (m : Nat) (e : Int) :
    ∃ gap units, f.Rounded (dyadic m e) gap units ∧
      f.nearestCode m e = min f.infinity (gap * pow2 f.fraction + units) ∧
      (gap = 0 ∨ f.least + gap = e + m.log2 - f.fraction) := by
  by_cases none : m = 0
  · subst none
    refine ⟨0, 0, ⟨?_, ?_, .inl rfl, Nat.zero_le _⟩, by simp [nearestCode], .inl rfl⟩
    all_goals simp [dyadic]
  obtain ⟨gap, chosen⟩ : ∃ gap : Nat, max (e + m.log2 - f.fraction) f.least = f.least + gap :=
    ⟨(max (e + m.log2 - f.fraction) f.least - f.least).toNat, by omega⟩
  have place : gap = 0 ∨ f.least + gap = e + m.log2 - f.fraction := by omega
  obtain ⟨units, units_eq⟩ : ∃ units, units =
      if f.least + gap ≤ e then m * pow2 (e - (f.least + gap)).toNat
      else nearestEven m (pow2 (f.least + gap - e).toNat) := ⟨_, rfl⟩
  have code : f.nearestCode m e = min f.infinity (gap * pow2 f.fraction + units) := by
    have count : (f.least + gap - f.least).toNat = gap := by omega
    rw [nearestCode, if_neg none, chosen, units_eq]
    simp only [count]
  obtain ⟨v, v_eq⟩ : ∃ v : ℚ, v = dyadic m e / 2 ^ (f.least + gap) := ⟨_, rfl⟩
  obtain ⟨filled, below⟩ := v_eq ▸ quotient_bounds (e := e) none (f.least + gap)
  have rounded : |v - units| ≤ 1 / 2 ∧ (|v - units| = 1 / 2 → Even units) := by
    by_cases wide : f.least + gap ≤ e
    · have exact : v = units := by
        rw [v_eq, units_eq, if_pos wide, ← dyadic_shift m wide, dyadic,
          mul_div_cancel_right₀ _ (zpow_pos_two _).ne']
      rw [exact, sub_self, abs_zero]
      exact ⟨by norm_num, fun tie => by norm_num at tie⟩
    · have quotient : v = (m : ℚ) / (pow2 (f.least + gap - e).toNat : Nat) := by
        rw [v_eq, dyadic, cast_pow2, Int.toNat_of_nonneg (by omega), zpow_sub₀ two_ne_zero]
        have := (zpow_pos_two e).ne'
        field_simp
      rw [quotient, units_eq, if_neg wide]
      exact abs_sub_nearestEven m (pow2_pos _)
  refine ⟨gap, units, ⟨v_eq ▸ rounded.1, v_eq ▸ rounded.2, ?_, ?_⟩, code, place⟩
  · refine place.imp_right fun exact => ?_
    rw [← v_eq, cast_pow2]
    exact (zpow_le_zpow_right₀ one_le_two (by omega)).trans filled
  · have small : v < pow2 (f.fraction + 1) := by
      rw [cast_pow2]
      exact below.trans_le (zpow_le_zpow_right₀ one_le_two (by push_cast; omega))
    have near := abs_le.mp rounded.1
    by_contra more
    have : (pow2 (f.fraction + 1) : ℚ) + 1 ≤ units := by exact_mod_cast Nat.lt_of_not_le more
    linarith

end Format

/-! ### Numbers -/

namespace Binary

variable {x y : Binary f}

/-- A code that counts the units of a rounded value has that value. -/
theorem exactly_of_rounded (s : Bool) (rounded : f.Rounded p gap units)
    (finite : gap * pow2 f.fraction + units < f.infinity) :
    (ofCode s (gap * pow2 f.fraction + units) : Binary f).Exactly s
      (dyadic units (f.least + gap)) := by
  have below := finite.trans f.infinity_lt
  have code := code_ofCode (f := f) s below
  have sign := negative_ofCode (f := f) s below
  rcases rounded.short.lt_or_eq with short | carry
  · refine ⟨units, f.least + gap, ?_, rfl⟩
    rw [value_of_units ⟨short, rounded.full_units⟩ code (code.symm ▸ finite), sign]
  · -- one unit more than fits: half as many of the next gap, and the code is the same
    have canonical : f.Units (gap + 1) (pow2 f.fraction) :=
      ⟨by rw [pow2_succ]; have := pow2_pos f.fraction; omega, .inr le_rfl⟩
    have same : gap * pow2 f.fraction + units = (gap + 1) * pow2 f.fraction + pow2 f.fraction := by
      rw [carry, pow2_succ]
      ring
    refine ⟨pow2 f.fraction, f.least + (gap + 1 : Nat), ?_, ?_⟩
    · rw [value_of_units canonical (code.trans same) (code.symm ▸ finite), sign]
    · rw [carry, pow2_succ, dyadic, dyadic, Nat.cast_succ, ← add_assoc,
        zpow_add_one₀ two_ne_zero]
      push_cast
      ring

/-- Wherever the leading bit is below the largest one, rounding finds a nearest absolute value, and
    where another is as near the code is even. -/
theorem exactly_nearest_of_room (regular : f.Regular) (s : Bool)
    (room : e + m.log2 < f.top + f.fraction) :
    ∃ q, (nearest s m e : Binary f).Exactly s q ∧ ∀ r, f.Fits r →
      |dyadic m e - q| ≤ |dyadic m e - r| ∧
        (|dyadic m e - q| = |dyadic m e - r| → r = q ∨ Even (nearest s m e : Binary f).code) := by
  obtain ⟨gap, units, rounded, code, place⟩ := f.exists_rounded m e
  have finite : gap * pow2 f.fraction + units < f.infinity := by
    obtain ⟨big, _⟩ := regular.exponents
    have top : f.top = f.least + (pow2 f.exponent - 3 : Nat) := rfl
    have short := rounded.short
    rw [pow2_succ] at short
    have gaps : gap + 3 ≤ pow2 f.exponent - 1 := by omega
    calc gap * pow2 f.fraction + units < (gap + 3) * pow2 f.fraction := by
          rw [Nat.add_mul]
          have := pow2_pos f.fraction
          omega
      _ ≤ f.infinity := Nat.mul_le_mul_right _ gaps
  rw [Nat.min_eq_right finite.le] at code
  rw [nearest, code]
  refine ⟨_, exactly_of_rounded s rounded finite, ?_⟩
  rintro _ ⟨n, d, short, low, _, rfl⟩
  obtain ⟨best, ties⟩ := rounded.nearest short low
  refine ⟨best, fun same => (ties same).imp_right fun even => ?_⟩
  have full : Even (pow2 f.fraction) :=
    (Nat.even_pow' (by have := regular.fine; omega)).mpr even_two
  rw [code_ofCode s (finite.trans f.infinity_lt)]
  exact (full.mul_left gap).add even

/-- The number is finite, no number of the format is nearer to `q`, and where another is as near the
    code of this one is even. -/
def NearestTo (x : Binary f) (q : ℚ) : Prop :=
  ∃ p, x.rational? = some p ∧ ∀ (y : Binary f) (r : ℚ), y.rational? = some r →
    |q - p| ≤ |q - r| ∧ (|q - p| = |q - r| → r = p ∨ Even x.code)

theorem exists_exactly_of_rational? (value : x.rational? = some q) :
    ∃ s p, x.Exactly s p ∧ signed s p = q := by
  unfold rational? at value
  split at value
  · rename_i s m e finite
    exact ⟨s, _, ⟨m, e, finite, rfl⟩, Option.some.inj value⟩
  · cases value

/-- Rounding finds a nearest number, at a tie one with an even code. -/
theorem nearestTo_nearest (regular : f.Regular) (s : Bool)
    (room : e + m.log2 < f.top + f.fraction) :
    (nearest s m e : Binary f).NearestTo (signed s (dyadic m e)) := by
  obtain ⟨q, exact, best⟩ := exactly_nearest_of_room regular s room
  refine ⟨_, exact.rational?_eq, fun y r value => ?_⟩
  obtain ⟨t, r, other, rfl⟩ := exists_exactly_of_rational? value
  rw [abs_signed_sub]
  obtain rfl | signs := eq_or_ne s t
  · rw [abs_signed_sub]
    obtain ⟨near, ties⟩ := best r other.fits
    exact ⟨near, fun same => (ties same).imp_left (congrArg _)⟩
  · -- beyond zero only zero itself can be as near
    have zero : f.Fits 0 := by exact_mod_cast fits_natCast regular (n := 0) (pow2_pos _)
    obtain ⟨near, ties⟩ := best 0 zero
    have nonneg := dyadic_nonneg m e
    have nonneg' := other.nonneg
    rw [sub_zero, abs_of_nonneg nonneg] at near ties
    have across : |signed s (dyadic m e) - signed t r| = dyadic m e + r := by
      cases s <;> cases t
      · exact absurd rfl signs
      · simpa [signed] using add_nonneg nonneg nonneg'
      · rw [signed, signed, if_pos rfl, if_neg Bool.false_ne_true, ← neg_add', abs_neg,
          abs_of_nonneg (add_nonneg nonneg nonneg')]
      · exact absurd rfl signs
    rw [across]
    refine ⟨by linarith, fun same => ?_⟩
    obtain rfl : r = 0 := by linarith
    rw [add_zero] at same
    refine (ties same).imp_left fun none => ?_
    rw [← none]
    cases s <;> cases t <;> simp [signed]

namespace NearestTo

/-- A value that the format has is kept. -/
theorem exact (nearest : x.NearestTo q) (has : y.rational? = some q) : x.rational? = some q := by
  obtain ⟨p, value, best⟩ := nearest
  have near := (best y q has).1
  rw [sub_self, abs_zero] at near
  rw [value, ← sub_eq_zero.mp (abs_nonpos_iff.mp near)]

/-- Rounding does not turn the order round. -/
theorem mono (one : x.NearestTo p) (other : y.NearestTo q) (less : p < q) {a b : ℚ}
    (value : x.rational? = some a) (value' : y.rational? = some b) : a ≤ b := by
  obtain ⟨_, same, best⟩ := one
  obtain ⟨_, same', best'⟩ := other
  obtain rfl := Option.some.inj (same.symm.trans value)
  obtain rfl := Option.some.inj (same'.symm.trans value')
  by_contra cross
  have first := sq_le_sq.mpr (best y _ value').1
  have second := sq_le_sq.mpr (best' x _ value).1
  nlinarith

end NearestTo

end Binary

end NativeBridge
