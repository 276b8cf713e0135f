import Mathlib.Tactic.Ring
import SerialContract.Number.Decimal
import SerialContract.Proofs.Number.Digits
import SerialContract.Proofs.Number.Rounding

/-!
# Floating-point numbers read back

A text of a finite number, in whatever style, is read as that number. A decimal is rounded to the
position nearest to its value, the shortest decimal of a position has been chosen so that this position
is the one it was chosen for, and laying out its digits changes none but zeros at the end.
-/

namespace SerialContract

/-! ## Rounding decimals -/

namespace Decimal

/-- The position nearest to the value of a decimal. -/
def position (f : FloatFormat) (d : Decimal) : Nat :=
  f.nearest (d.digits * 10 ^ d.exponent.toNat * 2 ^ f.unitExponent) (10 ^ (-d.exponent).toNat)

/-- A decimal with `count` more zeros at the end of its digits. -/
def padded (d : Decimal) (count : Nat) : Decimal := ⟨d.digits * 10 ^ count, d.exponent - count⟩

theorem position_padded (f : FloatFormat) (d : Decimal) (count : Nat) :
    (d.padded count).position f = d.position f := by
  refine f.nearest_eq_of_mul_eq (Nat.pow_pos (by omega)) (Nat.pow_pos (by omega)) ?_
  have hexp : count + (d.exponent - count).toNat + (-d.exponent).toNat =
      d.exponent.toNat + (-(d.exponent - count)).toNat := by omega
  simp only [padded]
  calc d.digits * 10 ^ count * 10 ^ (d.exponent - count).toNat * 2 ^ f.unitExponent *
        10 ^ (-d.exponent).toNat
      = d.digits * 2 ^ f.unitExponent *
        10 ^ (count + (d.exponent - count).toNat + (-d.exponent).toNat) := by ring
    _ = d.digits * 2 ^ f.unitExponent * 10 ^ (d.exponent.toNat + (-(d.exponent - count)).toNat) := by
        rw [hexp]
    _ = d.digits * 10 ^ d.exponent.toNat * 2 ^ f.unitExponent *
        10 ^ (-(d.exponent - count)).toNat := by rw [Nat.pow_add]; ac_rfl

theorem position_of_zero (f : FloatFormat) (exponent : Int) : position f ⟨0, exponent⟩ = 0 :=
  f.nearest_eq_zero (by simp)

theorem magnitudes_le_of_reach {f : FloatFormat} {d : Decimal} (h0 : d.digits ≠ 0) (he : 0 ≤ d.exponent)
    (h : ((2 ^ f.exponentBits : Nat) : Int) < d.digits.log2 + 3 * d.exponent) :
    f.magnitudes ≤ d.position f := by
  have hunit : f.fractionBits ≤ f.unitExponent := by simp [FloatFormat.unitExponent]
  have hden : (-d.exponent).toNat = 0 := by omega
  have hlarge : 2 ^ (d.digits.log2 + 3 * d.exponent.toNat + f.unitExponent) ≤
      d.digits * 10 ^ d.exponent.toNat * 2 ^ f.unitExponent := by
    rw [Nat.pow_add, Nat.pow_add, Nat.pow_mul]
    exact Nat.mul_le_mul_right _
      (Nat.mul_le_mul (Nat.log2_self_le h0) (Nat.pow_le_pow_left (by omega) _))
  rw [← Nat.div_one (d.digits * _ * _)] at hlarge
  have hle := f.le_nearest (by omega) hlarge
  simp only [position, hden, Nat.pow_zero]
  refine Nat.le_trans ?_ hle
  simp only [FloatFormat.magnitudes, Nat.pow_eq]
  exact Nat.mul_le_mul_right _ (by omega)

theorem position_eq_zero_of_reach {f : FloatFormat} {d : Decimal} (he : d.exponent < 0)
    (h : d.digits.log2 + 3 * d.exponent < -((f.unitExponent + 2 : Nat) : Int)) :
    d.position f = 0 := by
  have hnum : d.exponent.toNat = 0 := by omega
  refine f.nearest_eq_zero ?_
  calc 2 * (d.digits * 10 ^ d.exponent.toNat * 2 ^ f.unitExponent)
      = d.digits * 2 ^ (f.unitExponent + 1) := by rw [hnum]; ring
    _ < 2 ^ (d.digits.log2 + 1) * 2 ^ (f.unitExponent + 1) :=
        Nat.mul_lt_mul_of_pos_right Nat.lt_log2_self (Nat.two_pow_pos _)
    _ = 2 ^ (d.digits.log2 + 1 + (f.unitExponent + 1)) := (Nat.pow_add _ _ _).symm
    _ ≤ 2 ^ (3 * (-d.exponent).toNat) := Nat.pow_le_pow_right (by omega) (by omega)
    _ = 8 ^ (-d.exponent).toNat := by rw [Nat.pow_mul]
    _ ≤ 10 ^ (-d.exponent).toNat := Nat.pow_le_pow_left (by omega) _

/-- Neither guard of the conversion changes what a decimal is rounded to. -/
theorem toFloat_eq_ofPosition (f : FloatFormat) (negative : Bool) (d : Decimal) :
    d.toFloat f negative = .ofPosition f negative (d.position f) := by
  simp only [toFloat, Nat.pow_eq]
  by_cases h0 : d.digits = 0
  · have hd : d = ⟨0, d.exponent⟩ := by cases d; simp_all
    rw [if_pos h0, hd, position_of_zero]
    rfl
  · rw [if_neg h0]
    by_cases he : 0 ≤ d.exponent
    · rw [if_pos he]
      split
      · next h =>
        have hle := magnitudes_le_of_reach h0 he h
        simp only [FloatNumber.ofPosition, Nat.not_lt.2 hle, ↓reduceDIte]
      · have hden : (-d.exponent).toNat = 0 := by omega
        simp only [FloatNumber.ofRatio, position, hden, Nat.pow_eq, Nat.pow_zero]
    · rw [if_neg he]
      split
      · next h => rw [position_eq_zero_of_reach (by omega) h]; rfl
      · have hnum : d.exponent.toNat = 0 := by omega
        have hden : d.exponent.natAbs = (-d.exponent).toNat := by omega
        simp only [FloatNumber.ofRatio, position, hnum, hden, Nat.pow_eq, Nat.pow_zero, Nat.mul_one]

end Decimal

/-! ## The shortest decimal -/

namespace FloatFormat

variable {f : FloatFormat}

theorem position_of_readsBack {target digits dropped : Nat}
    (h : f.readsBack target digits (10 ^ dropped) = true) :
    Decimal.position f ⟨digits, dropped - f.unitExponent⟩ = target := by
  simp only [readsBack, Nat.pow_eq, beq_iff_eq] at h
  rw [← h]
  refine f.nearest_eq_of_mul_eq (Nat.pow_pos (by omega)) (Nat.pow_pos (by omega)) ?_
  have hexp : ((dropped : Int) - f.unitExponent).toNat + f.unitExponent =
      dropped + (-((dropped : Int) - f.unitExponent)).toNat := by omega
  calc digits * 10 ^ ((dropped : Int) - f.unitExponent).toNat * 2 ^ f.unitExponent * 5 ^ f.unitExponent
      = digits * 10 ^ ((dropped : Int) - f.unitExponent).toNat * (2 * 5) ^ f.unitExponent := by
        rw [Nat.mul_pow, Nat.mul_assoc _ (2 ^ _)]
    _ = digits * 10 ^ (((dropped : Int) - f.unitExponent).toNat + f.unitExponent) := by
        rw [Nat.pow_add, Nat.mul_assoc]
    _ = digits * 10 ^ dropped * 10 ^ (-((dropped : Int) - f.unitExponent)).toNat := by
        rw [hexp, Nat.pow_add, Nat.mul_assoc]

/-- What a neighbour is: it reads back, and its digits are some of those of the expansion or one more
than that. -/
theorem neighbour?_eq_some {target count : Nat} {d : Decimal} (h : f.neighbour? target count = some d) :
    ∃ dropped : Nat, d.exponent = dropped - f.unitExponent ∧
      dropped ≤ (decimalDigits (f.expansion target)).length ∧
      d.digits ≤ f.expansion target + 1 ∧ d.position f = target := by
  simp only [neighbour?, Nat.pow_eq] at h
  generalize hdropped : (decimalDigits (f.expansion target)).length - count = dropped at h
  have hle := Nat.div_le_self (f.expansion target) (10 ^ dropped)
  split at h
  · next hread =>
    cases h
    rw [Bool.and_eq_true] at hread
    exact ⟨dropped, rfl, by omega, Nat.le_succ_of_le hle, position_of_readsBack hread.1⟩
  · split at h
    · next hread =>
      cases h
      exact ⟨dropped, rfl, by omega, Nat.succ_le_succ hle, position_of_readsBack hread⟩
    · cases h

theorem shortest_spec (f : FloatFormat) (target : Nat) :
    ∃ dropped : Nat, (f.shortest target).exponent = dropped - f.unitExponent ∧
      dropped ≤ (decimalDigits (f.expansion target)).length ∧
      (f.shortest target).digits ≤ f.expansion target + 1 ∧ (f.shortest target).position f = target := by
  cases hfound : (List.range' 1 17).findSome? (f.neighbour? target) with
  | some d =>
      obtain ⟨count, _, hcount⟩ := List.exists_of_findSome?_eq_some hfound
      simp only [shortest, hfound, Option.getD_some]
      exact neighbour?_eq_some hcount
  | none =>
      simp only [shortest, hfound, Option.getD_none]
      refine ⟨0, by simp, by omega, by omega, ?_⟩
      have hback : f.readsBack target (f.expansion target) (10 ^ 0) = true := by
        simp only [readsBack, Nat.pow_eq, beq_iff_eq, Nat.pow_zero, Nat.mul_one]
        exact f.nearest_eq_of_units_mul (Nat.pow_pos (by omega)) rfl
      simpa using position_of_readsBack hback

theorem position_shortest (f : FloatFormat) (target : Nat) : (f.shortest target).position f = target := by
  obtain ⟨_, _, _, _, h⟩ := f.shortest_spec target
  exact h

theorem digits_shortest_ne_zero {target : Nat} (h : target ≠ 0) : (f.shortest target).digits ≠ 0 := by
  intro h0
  have hpos := f.position_shortest target
  rw [show f.shortest target = ⟨0, (f.shortest target).exponent⟩ by rw [← h0],
    Decimal.position_of_zero] at hpos
  exact h hpos.symm

end FloatFormat

end SerialContract
