import NativeBridge.Number.Division
import NativeBridge.Proofs.Number.Truncation

/-! Division of words.

    The signed pair is read as integers, where the quotient is cut toward zero
    (`truncate_quotient`). Only the least integer over minus one does not fit a word then
    (`Division.toInt_sdiv_eq_iff`), and the law of division holds there too, since words wrap. -/

namespace NativeBridge

/-- The quotient of integers cut toward zero. -/
theorem truncate_quotient (a b : ℤ) : truncate (a / b : ℚ) = a.tdiv b := by
  have natural (m n : ℕ) : truncate ((m : ℤ) / (n : ℤ) : ℚ) = (m : ℤ).tdiv n := by
    have floor : ⌊((m : ℤ) : ℚ) / n⌋ = (m : ℤ) / n := Rat.floor_intCast_div_natCast m n
    rw [truncate_of_nonneg (by positivity), Int.cast_natCast n, floor,
      Int.tdiv_eq_ediv_of_nonneg (Int.natCast_nonneg m)]
  obtain ⟨m, rfl | rfl⟩ := a.eq_nat_or_neg <;> obtain ⟨n, rfl | rfl⟩ := b.eq_nat_or_neg
  · exact natural m n
  · rw [Int.cast_neg, div_neg, truncate_neg, natural, Int.tdiv_neg]
  · rw [Int.cast_neg, neg_div, truncate_neg, natural, Int.neg_tdiv]
  · rw [Int.cast_neg, Int.cast_neg, neg_div_neg_eq, natural, Int.neg_tdiv, Int.tdiv_neg, neg_neg]

namespace Division

variable {a b : Int64} {c d : UInt64}

/-! ### Where the divisor is not zero -/

section Guard

variable {α : Type} [OfNat α 0] [DecidableEq α] {divide : α → α → α} {m n : α}

theorem get_guarded (some : n ≠ 0) (result : (guarded divide m n).isSome) :
    (guarded divide m n).get result = divide m n := by
  simp [guarded_eq, some]

theorem getD_fault? (some : n ≠ 0) : (fault? divide m n).getD 0 = divide m n := by
  simp [fault?, some]

/-- To test the divisor first or to put a zero where there is no result makes no difference. -/
theorem guarded_eq_getD (divide : α → α → α) (m n : α) :
    guarded divide m n = some ((fault? divide m n).getD 0) := by
  unfold guarded fault?
  split <;> rfl

end Guard

/-! ### Signed words -/

theorem toInt_ne_zero (some : b ≠ 0) : b.toInt ≠ 0 := fun none => some (Int64.toInt_inj.mp none)

theorem toInt_sdiv (some : b ≠ 0) : (sdiv a b).toInt = (a.toInt.tdiv b.toInt).bmod (2 ^ 64) := by
  rw [sdiv, get_guarded some, Int64.toInt_div]

theorem toInt_srem (some : b ≠ 0) : (srem a b).toInt = a.toInt.tmod b.toInt := by
  rw [srem, get_guarded some, Int64.toInt_mod]

/-- The law of division; what wraps in the quotient wraps in its product with the divisor. -/
theorem sdiv_mul_add_srem (some : b ≠ 0) : sdiv a b * b + srem a b = a := by
  refine Int64.toInt_inj.mp ?_
  rw [Int64.toInt_add, Int64.toInt_mul, toInt_sdiv some, toInt_srem some, Int.bmod_mul_bmod,
    Int.bmod_add_bmod, mul_comm, Int.mul_tdiv_add_tmod]
  exact Int64.toInt_bmod a

theorem abs_toInt_srem_lt (some : b ≠ 0) : |(srem a b).toInt| < |b.toInt| := by
  have below := Nat.mod_lt a.toInt.natAbs (Int.natAbs_pos.mpr (toInt_ne_zero some))
  rw [toInt_srem some, Int.abs_eq_natAbs, Int.abs_eq_natAbs, Int.natAbs_tmod]
  exact_mod_cast below

theorem sign_srem (some : b ≠ 0) :
    (srem a b).toInt = 0 ∨ (srem a b).toInt.sign = a.toInt.sign := by
  have sign := Int.sign_tmod a.toInt b.toInt
  rw [toInt_srem some]
  split at sign
  · exact .inl (Int.sign_eq_zero_iff_zero.mp sign)
  · exact .inr sign

theorem sdiv_eq (some : b ≠ 0) : sdiv a b = .ofInt (truncate (a.toInt / b.toInt : ℚ)) := by
  refine Int64.toInt_inj.mp ?_
  rw [toInt_sdiv some, truncate_quotient, Int64.toInt_ofInt]
  rfl

theorem sdiv_least : sdiv .minValue (-1) = .minValue ∧ srem .minValue (-1) = 0 := by decide

/-- One quotient does not fit. -/
theorem toInt_sdiv_eq_iff (some : b ≠ 0) :
    (sdiv a b).toInt = truncate (a.toInt / b.toInt : ℚ) ↔ ¬(a = .minValue ∧ b = -1) := by
  rw [truncate_quotient]
  constructor
  · rintro fits ⟨rfl, rfl⟩
    rw [sdiv_least.1] at fits
    exact absurd fits (by decide)
  · intro other
    rw [sdiv, get_guarded some]
    by_cases least : a = .minValue
    · exact Int64.toInt_div_of_ne_right a b fun minus => other ⟨least, minus⟩
    · exact Int64.toInt_div_of_ne_left a b least

/-! ### Unsigned words -/

theorem udiv_mul_add_urem (some : d ≠ 0) :
    (udiv c d).toNat * d.toNat + (urem c d).toNat = c.toNat := by
  rw [udiv, urem, getD_fault? some, getD_fault? some, UInt64.toNat_div, UInt64.toNat_mod]
  exact Nat.div_add_mod' _ _

theorem toNat_urem_lt (some : d ≠ 0) : (urem c d).toNat < d.toNat := by
  rw [urem, getD_fault? some, UInt64.toNat_mod]
  exact Nat.mod_lt _ (Nat.pos_of_ne_zero fun none => some (UInt64.toNat_inj.mp none))

/-! ### Signed and unsigned -/

theorem toNat_toUInt64 (nonneg : 0 ≤ a) : (a.toUInt64.toNat : ℤ) = a.toInt := by
  rw [Int64.toNat_toUInt64_of_le nonneg, ← Int64.toNat_toInt]
  exact Int.toNat_of_nonneg (Int64.le_iff_toInt_le.mp nonneg)

theorem toUInt64_ne_zero (some : b ≠ 0) : b.toUInt64 ≠ 0 := fun none =>
  some (by rw [← b.toInt64_toUInt64, none]; rfl)

/-- Where no sign is set the two pairs are one. -/
theorem signed_eq_unsigned (nonneg : 0 ≤ a) (nonneg' : 0 ≤ b) :
    (sdiv a b).toInt = (udiv a.toUInt64 b.toUInt64).toNat ∧
      (srem a b).toInt = (urem a.toUInt64 b.toUInt64).toNat := by
  by_cases none : b = 0
  · subst none
    exact ⟨rfl, rfl⟩
  have low : 0 ≤ a.toInt := Int64.le_iff_toInt_le.mp nonneg
  have fits : ¬(a = .minValue ∧ b = -1) := by
    rintro ⟨rfl, _⟩
    exact absurd nonneg (by decide)
  rw [(toInt_sdiv_eq_iff none).mpr fits, truncate_quotient, toInt_srem none,
    Int.tdiv_eq_ediv_of_nonneg low, Int.tmod_eq_emod_of_nonneg low, udiv, urem,
    getD_fault? (toUInt64_ne_zero none), getD_fault? (toUInt64_ne_zero none), UInt64.toNat_div,
    UInt64.toNat_mod, Int.natCast_ediv, Int.natCast_emod, toNat_toUInt64 nonneg,
    toNat_toUInt64 nonneg']
  exact ⟨rfl, rfl⟩

/-- Signed words are divided toward zero: the quotient is the integer part of the rational one,
    reduced to a word in one case only, and the remainder is smaller than the divisor and has the
    sign of the dividend. Unsigned words are divided exactly. A zero divisor gives zero and never a
    fault, and on words that are not negative the signed and the unsigned pair agree. -/
theorem divides_toward_zero (a b : Int64) (c d : UInt64) :
    (b ≠ 0 →
      sdiv a b * b + srem a b = a ∧ |(srem a b).toInt| < |b.toInt| ∧
      ((srem a b).toInt = 0 ∨ (srem a b).toInt.sign = a.toInt.sign) ∧
      sdiv a b = .ofInt (truncate (a.toInt / b.toInt : ℚ)) ∧
      ((sdiv a b).toInt = truncate (a.toInt / b.toInt : ℚ) ↔ ¬(a = .minValue ∧ b = -1)) ∧
      (a = .minValue → b = -1 → sdiv a b = .minValue ∧ srem a b = 0)) ∧
    (d ≠ 0 →
      (udiv c d).toNat * d.toNat + (urem c d).toNat = c.toNat ∧ (urem c d).toNat < d.toNat) ∧
    (sdiv a 0 = 0 ∧ srem a 0 = 0 ∧ udiv c 0 = 0 ∧ urem c 0 = 0) ∧
    (0 ≤ a → 0 ≤ b →
      (sdiv a b).toInt = (udiv a.toUInt64 b.toUInt64).toNat ∧
      (srem a b).toInt = (urem a.toUInt64 b.toUInt64).toNat) ∧
    guarded (· / ·) a b = some (sdiv a b) ∧ guarded (· % ·) a b = some (srem a b) ∧
    guarded (· / ·) c d = some (udiv c d) ∧ guarded (· % ·) c d = some (urem c d) := by
  refine ⟨fun some => ⟨sdiv_mul_add_srem some, abs_toInt_srem_lt some, sign_srem some,
    sdiv_eq some, toInt_sdiv_eq_iff some, ?_⟩, fun some => ⟨udiv_mul_add_urem some,
    toNat_urem_lt some⟩, ⟨rfl, rfl, rfl, rfl⟩, signed_eq_unsigned, (Option.some_get _).symm,
    (Option.some_get _).symm, guarded_eq_getD .., guarded_eq_getD ..⟩
  rintro rfl rfl
  exact sdiv_least

end Division

end NativeBridge
