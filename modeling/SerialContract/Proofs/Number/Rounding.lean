import Mathlib.Tactic.Ring
import SerialContract.Number.Floating

/-!
# Rounding

The position that a quotient is rounded to depends on the quotient alone, and the value of a position
is rounded to that position. So a number narrowed without loss widens to itself, and a number is that
of its bit pattern.
-/

namespace SerialContract.FloatFormat

variable (f : FloatFormat)

/-! ## Halves to even -/

theorem roundHalfEven_mul_right (num den : Nat) {k : Nat} (hk : 0 < k) :
    roundHalfEven (num * k) (den * k) = roundHalfEven num den := by
  have htwice : 2 * (num * k % (den * k)) = 2 * (num % den) * k := by
    rw [Nat.mul_mod_mul_right, Nat.mul_assoc]
  simp only [roundHalfEven, Nat.mul_div_mul_right _ _ hk, htwice, Nat.mul_lt_mul_right hk,
    Nat.mul_left_inj hk.ne']

theorem roundHalfEven_mul_self (n : Nat) {k : Nat} (hk : 0 < k) : roundHalfEven (n * k) k = n := by
  simp [roundHalfEven, Nat.mul_div_cancel _ hk, hk.ne']

theorem div_le_roundHalfEven (num den : Nat) : num / den ≤ roundHalfEven num den := by
  simp only [roundHalfEven]
  split <;> omega

theorem roundHalfEven_eq_zero {num den : Nat} (h : 2 * num < den) : roundHalfEven num den = 0 := by
  have hlt : num < den := by omega
  have htwice : ¬ den < 2 * num := by omega
  have hne : ¬ den = 2 * num := by omega
  simp [roundHalfEven, Nat.div_eq_of_lt hlt, Nat.mod_eq_of_lt hlt, htwice, hne]

/-! ## Nearest positions -/

theorem nearest_mul_right (num den : Nat) {k : Nat} (hk : 0 < k) :
    f.nearest (num * k) (den * k) = f.nearest num den := by
  simp only [nearest, Nat.mul_div_mul_right _ _ hk]
  rw [Nat.mul_right_comm, roundHalfEven_mul_right _ _ hk]

/-- Quotients of the same value have the same nearest position. -/
theorem nearest_eq_of_mul_eq {a b c d : Nat} (hb : 0 < b) (hd : 0 < d) (h : a * d = c * b) :
    f.nearest a b = f.nearest c d := by
  rw [← f.nearest_mul_right a b hd, ← f.nearest_mul_right c d hb, h, Nat.mul_comm b d]

theorem log2_row_mul {r k : Nat} (h : r < 2 ^ f.fractionBits) :
    ((2 ^ f.fractionBits + r) * 2 ^ k).log2 = f.fractionBits + k := by
  have hpos : 0 < 2 ^ f.fractionBits := Nat.two_pow_pos _
  rw [Nat.log2_eq_iff (Nat.mul_ne_zero (by omega) (Nat.two_pow_pos k).ne')]
  constructor
  · rw [Nat.pow_add]
    exact Nat.mul_le_mul_right _ (by omega)
  · rw [show f.fractionBits + k + 1 = (f.fractionBits + 1) + k by omega, Nat.pow_add, Nat.pow_succ]
    exact Nat.mul_lt_mul_of_pos_right (by omega) (Nat.two_pow_pos k)

/-- The value of a position is rounded to the position. -/
theorem nearest_units (position : Nat) : f.nearest (f.units position) 1 = position := by
  have hrow : 0 < 2 ^ f.fractionBits := Nat.two_pow_pos _
  simp only [nearest, units, Nat.pow_eq, Nat.div_one, Nat.one_mul]
  by_cases h : position < 2 ^ f.fractionBits
  · have hshift : position.log2 - f.fractionBits = 0 := by
      by_cases h0 : position = 0
      · simp [h0]
      · have := (Nat.log2_lt h0).2 h
        omega
    simp only [h, ↓reduceIte, hshift, Nat.zero_mul, Nat.zero_add, Nat.pow_zero]
    simpa using roundHalfEven_mul_self position Nat.one_pos
  · have hmod := Nat.mod_lt position hrow
    have hdiv : 1 ≤ position / 2 ^ f.fractionBits := (Nat.one_le_div_iff hrow).2 (by omega)
    have hsplit := Nat.div_add_mod position (2 ^ f.fractionBits)
    simp only [h, ↓reduceIte, f.log2_row_mul hmod, Nat.add_sub_cancel_left]
    rw [roundHalfEven_mul_self _ (Nat.two_pow_pos _), Nat.sub_mul, Nat.one_mul,
      Nat.mul_comm (position / _)]
    have hle := Nat.mul_le_mul_left (2 ^ f.fractionBits) hdiv
    omega

theorem nearest_eq_of_units_mul {position num den : Nat} (hden : 0 < den)
    (h : num = f.units position * den) : f.nearest num den = position := by
  rw [f.nearest_eq_of_mul_eq hden Nat.one_pos (c := f.units position) (by omega), nearest_units]

/-- A quotient of at least two to the power of `m` is rounded past the rows of smaller powers. -/
theorem le_nearest {m num den : Nat} (hm : f.fractionBits ≤ m) (h : 2 ^ m ≤ num / den) :
    (m + 1 - f.fractionBits) * 2 ^ f.fractionBits ≤ f.nearest num den := by
  have hne : num / den ≠ 0 := by have := Nat.two_pow_pos m; omega
  have hlog : m ≤ (num / den).log2 := (Nat.le_log2 hne).2 h
  simp only [nearest, Nat.pow_eq]
  generalize hs : (num / den).log2 - f.fractionBits = shift
  have hround : 2 ^ f.fractionBits ≤ roundHalfEven num (den * 2 ^ shift) := by
    refine Nat.le_trans ?_ (div_le_roundHalfEven _ _)
    rw [← Nat.div_div_eq_div_mul, Nat.le_div_iff_mul_le (Nat.two_pow_pos shift), ← Nat.pow_add,
      show f.fractionBits + shift = (num / den).log2 by omega]
    exact Nat.log2_self_le hne
  calc (m + 1 - f.fractionBits) * 2 ^ f.fractionBits
      ≤ (shift + 1) * 2 ^ f.fractionBits := Nat.mul_le_mul_right _ (by omega)
    _ = shift * 2 ^ f.fractionBits + 2 ^ f.fractionBits := by rw [Nat.succ_mul]
    _ ≤ _ := Nat.add_le_add_left hround _

theorem nearest_eq_zero {num den : Nat} (h : 2 * num < den) : f.nearest num den = 0 := by
  have hlt : num < den := by omega
  simp [nearest, Nat.div_eq_of_lt hlt, roundHalfEven_eq_zero h, Nat.log2_zero]

end SerialContract.FloatFormat

namespace SerialContract.FloatNumber

/-! ## Widths and bit patterns -/

theorem ofPosition_of_lt {f : FloatFormat} (negative : Bool) {position : Nat} (h : position < f.magnitudes) :
    ofPosition f negative position = .finite negative ⟨position, h⟩ := by
  simp only [ofPosition, h, ↓reduceDIte]

/-- A number that 32 bits hold exactly is finite and widens to itself. -/
theorem widen_of_narrow? {x : Double} {y : Single} (h : x.narrow? = some y) :
    y.widen = x ∧ y.isFinite = true := by
  cases x with
  | nan => simp [narrow?] at h
  | infinite _ => simp [narrow?] at h
  | finite negative position =>
      simp only [narrow?] at h
      split at h
      · split at h
        · next heq =>
          cases h
          have hnear := FloatFormat.double.nearest_eq_of_units_mul Nat.one_pos
            (heq.trans (Nat.mul_one _).symm)
          simp only [widen, hnear]
          exact ⟨ofPosition_of_lt negative position.2, rfl⟩
        · cases h
      · cases h

theorem ofBits_toBits {f : FloatFormat} {x : FloatNumber f} (h : x.isFinite = true)
    (hf : f.magnitudes ≤ f.signPlace) : ofBits f x.toBits = x := by
  cases x with
  | nan => cases h
  | infinite _ => cases h
  | finite negative position =>
      have hlt := position.2
      have hdiv : (negative.toNat * f.signPlace + position.val) / f.signPlace = negative.toNat := by
        rw [Nat.add_comm, Nat.add_mul_div_right _ _ (by omega), Nat.div_eq_of_lt (by omega), Nat.zero_add]
      have hmod : (negative.toNat * f.signPlace + position.val) % f.signPlace = position.val := by
        rw [Nat.add_comm, Nat.add_mul_mod_self_right, Nat.mod_eq_of_lt (by omega)]
      have hle : ¬ f.magnitudes < position.val := by omega
      simp only [ofBits, toBits, hdiv, hmod, hle, ↓reduceIte, ofPosition_of_lt _ hlt]
      cases negative <;> rfl

theorem toBits_lt {f : FloatFormat} {x : FloatNumber f} (h : x.isFinite = true)
    (hf : f.magnitudes ≤ f.signPlace) : x.toBits < 2 * f.signPlace := by
  cases x with
  | nan => cases h
  | infinite _ => cases h
  | finite negative position =>
      have hlt := position.2
      cases negative <;> simp only [toBits, Bool.toNat_false, Bool.toNat_true] <;> omega

theorem magnitudes_le_signPlace (f : FloatFormat) : f.magnitudes ≤ f.signPlace := by
  simp only [FloatFormat.magnitudes, FloatFormat.signPlace, Nat.pow_eq, Nat.pow_add]
  exact Nat.mul_le_mul_right _ (Nat.sub_le _ _)

end SerialContract.FloatNumber
