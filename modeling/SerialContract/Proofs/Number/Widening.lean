import SerialContract.Proofs.Number.FloatText

/-!
# Widening without loss

Doubling the value of a position leads to another position, so a format holds every number whose digits in
base two fit its fraction. The numbers of 32 bits are among those of 64 bits: widening keeps their value, and
narrowing gives them back.
-/

namespace SerialContract.FloatFormat

variable (f : FloatFormat)

/-! ## Doubling -/

/-- The position of twice the value. -/
def doubled (position : Nat) : Nat :=
  if position < 2 ^ f.fractionBits then 2 * position else position + 2 ^ f.fractionBits

theorem units_of_lt {n : Nat} (h : n < 2 ^ f.fractionBits) : f.units n = n := by
  simp only [units, Nat.pow_eq, h, ↓reduceIte]

/-- The second row still counts in units. -/
theorem units_of_lt_two_mul {n : Nat} (h : n < 2 * 2 ^ f.fractionBits) : f.units n = n := by
  by_cases hrow : n < 2 ^ f.fractionBits
  · exact f.units_of_lt hrow
  · have hdiv : n / 2 ^ f.fractionBits = 1 := Nat.div_eq_of_lt_le (by omega) (by omega)
    have hsplit := Nat.div_add_mod n (2 ^ f.fractionBits)
    simp only [units, Nat.pow_eq, hrow, ↓reduceIte, hdiv]
    rw [hdiv] at hsplit
    omega

theorem units_doubled (position : Nat) : f.units (f.doubled position) = 2 * f.units position := by
  have hpos : 0 < 2 ^ f.fractionBits := Nat.two_pow_pos _
  by_cases hrow : position < 2 ^ f.fractionBits
  · rw [doubled, if_pos hrow, f.units_of_lt_two_mul (by omega), f.units_of_lt hrow]
  · have hdiv : 1 ≤ position / 2 ^ f.fractionBits := (Nat.one_le_div_iff hpos).2 (by omega)
    have hnext : ¬ position + 2 ^ f.fractionBits < 2 ^ f.fractionBits := by omega
    have hexp : position / 2 ^ f.fractionBits + 1 - 1 = position / 2 ^ f.fractionBits - 1 + 1 := by omega
    simp only [doubled, units, Nat.pow_eq, hrow, hnext, ↓reduceIte, Nat.add_mod_right, Nat.add_div_right _ hpos,
      hexp]
    rw [Nat.pow_succ, Nat.mul_comm _ 2, Nat.mul_left_comm]

/-- A number whose leading digits fit the fraction stands at a position. -/
theorem exists_units_eq {n : Nat} (h : n < 2 * 2 ^ f.fractionBits) (power : Nat) :
    ∃ position, f.units position = n * 2 ^ power := by
  induction power with
  | zero => exact ⟨n, by rw [f.units_of_lt_two_mul h, Nat.pow_zero, Nat.mul_one]⟩
  | succ power ih =>
      obtain ⟨position, hposition⟩ := ih
      exact ⟨f.doubled position, by rw [f.units_doubled, hposition, Nat.pow_succ, Nat.mul_comm 2, Nat.mul_assoc]⟩

theorem units_eq_mul_two_pow (position : Nat) :
    ∃ n power, n < 2 * 2 ^ f.fractionBits ∧ f.units position = n * 2 ^ power := by
  have hpos : 0 < 2 ^ f.fractionBits := Nat.two_pow_pos _
  by_cases hrow : position < 2 ^ f.fractionBits
  · exact ⟨position, 0, by omega, by rw [f.units_of_lt hrow, Nat.pow_zero, Nat.mul_one]⟩
  · have hmod := Nat.mod_lt position hpos
    refine ⟨2 ^ f.fractionBits + position % 2 ^ f.fractionBits, position / 2 ^ f.fractionBits - 1, by omega, ?_⟩
    simp only [units, Nat.pow_eq, hrow, ↓reduceIte]

/-- Positions past the last magnitude have at least this value. -/
theorem le_units {position : Nat} (h : f.magnitudes ≤ position) (hf : 2 ≤ 2 ^ f.exponentBits) :
    2 ^ (f.fractionBits + (2 ^ f.exponentBits - 2)) ≤ f.units position := by
  have hpos : 0 < 2 ^ f.fractionBits := Nat.two_pow_pos _
  simp only [magnitudes, Nat.pow_eq] at h
  have hdiv : 2 ^ f.exponentBits - 1 ≤ position / 2 ^ f.fractionBits := (Nat.le_div_iff_mul_le hpos).2 h
  have hrow : ¬ position < 2 ^ f.fractionBits := by
    rw [← Nat.div_eq_zero_iff_lt hpos]
    omega
  simp only [units, Nat.pow_eq, hrow, ↓reduceIte, Nat.pow_add]
  exact Nat.mul_le_mul (Nat.le_add_right _ _) (Nat.pow_le_pow_right (by omega) (by omega))

/-- A format of longer fractions and a wider range holds the magnitudes of another, in smaller units. -/
theorem exists_units_mul_two_pow {f g : FloatFormat} {power : Nat} (hfraction : f.fractionBits ≤ g.fractionBits)
    (hg : 2 ≤ 2 ^ g.exponentBits)
    (hrange : f.fractionBits + 2 ^ f.exponentBits + power ≤ g.fractionBits + (2 ^ g.exponentBits - 2))
    {position : Nat} (h : position < f.magnitudes) :
    ∃ wide < g.magnitudes, g.units wide = f.units position * 2 ^ power := by
  obtain ⟨n, shift, hn, hunits⟩ := f.units_eq_mul_two_pow position
  have hfits : n < 2 * 2 ^ g.fractionBits :=
    Nat.lt_of_lt_of_le hn (Nat.mul_le_mul_left 2 (Nat.pow_le_pow_right (by omega) hfraction))
  obtain ⟨wide, hwide⟩ := g.exists_units_eq hfits (shift + power)
  have hvalue : g.units wide = f.units position * 2 ^ power := by
    rw [hwide, hunits, Nat.pow_add, Nat.mul_assoc]
  refine ⟨wide, ?_, hvalue⟩
  by_contra hlarge
  have hle := g.le_units (Nat.le_of_not_lt hlarge) hg
  have hlt : f.units position * 2 ^ power < 2 ^ (f.fractionBits + 2 ^ f.exponentBits + power) := by
    rw [Nat.pow_add _ _ power]
    exact Nat.mul_lt_mul_of_pos_right (units_lt h) (Nat.two_pow_pos _)
  have hpower := Nat.pow_le_pow_right (n := 2) (by omega) hrange
  omega

theorem unitRatio_eq_two_pow : ∃ power ≤ 925, unitRatio = 2 ^ power := by
  have hle : double.unitExponent - single.unitExponent ≤ 925 := by decide
  unfold unitRatio
  -- a power of this size must not be computed
  generalize double.unitExponent - single.unitExponent = power at hle ⊢
  exact ⟨power, hle, Nat.pow_eq⟩

theorem unitRatio_pos : 0 < unitRatio := by
  obtain ⟨power, _, hratio⟩ := unitRatio_eq_two_pow
  rw [hratio]
  exact Nat.two_pow_pos power

theorem exists_widened (position : Fin single.magnitudes) :
    ∃ wide < double.magnitudes, double.units wide = single.units position * unitRatio := by
  obtain ⟨power, hle, hratio⟩ := unitRatio_eq_two_pow
  rw [hratio]
  have hrange : single.fractionBits + 2 ^ single.exponentBits + power ≤
      double.fractionBits + (2 ^ double.exponentBits - 2) :=
    Nat.le_trans (Nat.add_le_add_left hle _) (by decide)
  exact exists_units_mul_two_pow (by decide) (by decide) hrange position.2

end SerialContract.FloatFormat

namespace SerialContract.FloatNumber

theorem widen_finite {position : Fin FloatFormat.single.magnitudes} {wide : Nat}
    (hlt : wide < FloatFormat.double.magnitudes)
    (h : FloatFormat.double.units wide = FloatFormat.single.units position * unitRatio) (negative : Bool) :
    (finite negative position : Single).widen = .finite negative ⟨wide, hlt⟩ := by
  have hnear : FloatFormat.double.nearest (FloatFormat.single.units position * unitRatio) 1 = wide := by
    rw [← h]
    exact FloatFormat.double.nearest_units wide
  rw [widen, hnear, ofPosition_of_lt]

theorem isFinite_widen (x : Single) : x.widen.isFinite = x.isFinite := by
  cases x with
  | nan => rfl
  | infinite _ => rfl
  | finite negative position =>
      obtain ⟨wide, hlt, hunits⟩ := FloatFormat.exists_widened position
      rw [widen_finite hlt hunits, isFinite, isFinite]

/-- What has been widened is narrowed to what it was. -/
theorem narrow?_widen {x : Single} (h : x.isFinite = true) : x.widen.narrow? = some x := by
  cases x with
  | nan => cases h
  | infinite _ => cases h
  | finite negative position =>
      obtain ⟨wide, hlt, hunits⟩ := FloatFormat.exists_widened position
      have hback : FloatFormat.single.nearest (FloatFormat.single.units position * unitRatio) unitRatio =
          position := FloatFormat.single.nearest_eq_of_units_mul FloatFormat.unitRatio_pos rfl
      rw [widen_finite hlt hunits]
      simp only [narrow?, hunits, hback, position.2, ↓reduceDIte, ↓reduceIte]

theorem narrow?_of_not_finite {x : Double} (h : x.isFinite = false) : x.narrow? = none := by
  cases x with
  | nan => rfl
  | infinite _ => rfl
  | finite _ _ => cases h

/-- A bit pattern of a finite number is that of the number it stands for. -/
theorem toBits_ofBits {f : FloatFormat} {bits : Nat} (hlt : bits < 2 * f.signPlace)
    (h : (ofBits f bits).isFinite = true) : (ofBits f bits).toBits = bits := by
  simp only [ofBits] at h ⊢
  split at h
  · cases h
  · next hle =>
    by_cases hin : bits % f.signPlace < f.magnitudes
    · simp only [hle, ↓reduceIte, ofPosition_of_lt _ hin, toBits]
      have hsplit := Nat.div_add_mod bits f.signPlace
      have hsign : bits / f.signPlace < 2 := Nat.div_lt_of_lt_mul (by omega)
      have hcases : bits / f.signPlace = 0 ∨ bits / f.signPlace = 1 := by
        generalize bits / f.signPlace = sign at hsign
        omega
      rcases hcases with h0 | h1
      · rw [h0] at hsplit ⊢
        simpa using hsplit
      · rw [h1] at hsplit ⊢
        simpa using hsplit
    · simp only [ofPosition, hin, ↓reduceDIte, isFinite, Bool.false_eq_true] at h

end SerialContract.FloatNumber
