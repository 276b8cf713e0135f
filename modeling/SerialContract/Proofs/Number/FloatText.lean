import SerialContract.Proofs.Number.Decimal

/-!
# Texts of floating-point numbers

Every text that a style gives to a finite number spells a decimal that rounds to this number, so reading
the text gives the number again. Such a text has digits, a point, a sign and the letter of the power of
ten, and nothing else.
-/

namespace SerialContract

/-! ## Spelled decimals -/

/-- Digits, perhaps a point and more digits, and perhaps a power of ten. -/
def spelled (whole : List Char) (fraction : Option (List Char)) (power : Option Int) : List Char :=
  whole ++ (fraction.elim [] ('.' :: ·) ++ power.elim [] fun n => 'e' :: (signedText n).toList)

/-- A text that spells a decimal, with a power of ten small enough to be counted. -/
def Spells (text : List Char) (d : Decimal) : Prop :=
  ∃ whole fraction power, text = spelled whole fraction power ∧ whole ≠ [] ∧
    (∀ c ∈ whole, c.isDigit) ∧ (∀ c ∈ fraction.getD [], c.isDigit) ∧
    (power.getD 0).natAbs < UInt16.size ∧
    d = ⟨Nat.ofDigitChars 10 (whole ++ fraction.getD []) 0, power.getD 0 - (fraction.getD []).length⟩

theorem takeDigits_append {digits rest : List Char} (hd : ∀ c ∈ digits, c.isDigit)
    (hr : ∀ c ∈ rest.head?, ¬ c.isDigit) : takeDigits (digits ++ rest) = (digits, rest) := by
  simp only [takeDigits]
  rw [List.takeWhile_append_of_pos hd, List.dropWhile_append_of_pos hd]
  cases rest with
  | nil => simp
  | cons c rest =>
      have hc := hr c rfl
      simp [hc]

theorem le_ofDigitChars (digits : List Char) (high : Nat) : high ≤ Nat.ofDigitChars 10 digits high := by
  rw [Nat.ofDigitChars_eq_ofDigitChars_zero]
  have := Nat.le_mul_of_pos_left high (Nat.pow_pos (n := digits.length) (show 0 < 10 by omega))
  omega

theorem readPowerFrom_eq_ofDigitChars {digits : List Char} (hd : ∀ c ∈ digits, c.isDigit) {high : Nat}
    (h : Nat.ofDigitChars 10 digits high < UInt16.size) :
    readPowerFrom high digits = some (Nat.ofDigitChars 10 digits high) := by
  induction digits generalizing high with
  | nil => rfl
  | cons c rest ih =>
      have hc := hd c (by simp)
      have hhigh : high < UInt16.size := Nat.lt_of_le_of_lt (le_ofDigitChars (c :: rest) high) h
      rw [Nat.ofDigitChars_cons] at h ⊢
      simp only [readPowerFrom, digitValue_of_isDigit hc, digit_lt_ten hc, hhigh, ↓reduceIte]
      exact ih (fun c h => hd c (by simp [h])) h

theorem readPower_signedText {n : Int} (h : n.natAbs < UInt16.size) :
    readPower ('e' :: (signedText n).toList) = some n := by
  have hread : readPowerFrom 0 (decimalDigits n.natAbs) = some n.natAbs := by
    rw [readPowerFrom_eq_ofDigitChars (fun _ => isDigit_of_mem_decimalDigits)
      (by rwa [ofDigitChars_decimalDigits]), ofDigitChars_decimalDigits]
  simp only [readPower, true_or, ↓reduceIte, splitSign_signedText, List.isEmpty_iff,
    decimalDigits_ne_nil, hread, Option.bind_eq_bind, Option.bind_some, Option.pure_def, Option.map_some,
    Option.some.injEq, decide_eq_true_eq]
  split <;> omega

theorem takeFraction_of_head {rest : List Char} (h : rest.head? ≠ some '.') :
    takeFraction rest = ([], rest) := by
  unfold takeFraction
  split
  · exact absurd rfl h
  · rfl

theorem readDecimal_of_fraction {whole rest fraction tail : List Char} {power : Int} (hne : whole ≠ [])
    (hw : ∀ c ∈ whole, c.isDigit) (hr : ∀ c ∈ rest.head?, ¬ c.isDigit)
    (hrest : takeFraction rest = (fraction, tail)) (hf : ∀ c ∈ fraction, c.isDigit)
    (hp : readPower tail = some power) :
    readDecimal (whole ++ rest) =
      some ⟨Nat.ofDigitChars 10 (whole ++ fraction) 0, power - fraction.length⟩ := by
  have hdigits : ∀ c ∈ whole ++ fraction, c.isDigit := by
    simp only [List.mem_append]
    rintro c (h | h)
    · exact hw c h
    · exact hf c h
  have hread := readDigits_eq_ofDigitChars (by simp [hne]) hdigits
  simp only [readDecimal, takeDigits_append hw hr, hrest, hread, hp]

theorem Spells.readDecimal_eq {text : List Char} {d : Decimal} (h : Spells text d) :
    readDecimal text = some d := by
  obtain ⟨whole, fraction, power, rfl, hne, hw, hf, hp, rfl⟩ := h
  have htail : ∃ tail, power.elim [] (fun n => 'e' :: (signedText n).toList) = tail ∧
      (∀ c ∈ tail.head?, ¬ c.isDigit) ∧ tail.head? ≠ some '.' ∧ readPower tail = some (power.getD 0) := by
    refine ⟨_, rfl, ?_⟩
    cases power with
    | none => exact ⟨by simp, by simp, rfl⟩
    | some n => exact ⟨by simp, by simp, readPower_signedText hp⟩
  obtain ⟨tail, htail, hhead, hdot, hpower⟩ := htail
  simp only [spelled, htail]
  cases fraction with
  | none => exact readDecimal_of_fraction hne hw hhead (takeFraction_of_head hdot) hf hpower
  | some digits =>
      have hpoint : ∀ c ∈ ('.' :: digits ++ tail).head?, ¬ c.isDigit := by
        rintro c hc
        cases hc
        decide
      exact readDecimal_of_fraction hne hw hpoint (takeDigits_append hf hhead) hf hpower

theorem Spells.exists_head {text : List Char} {d : Decimal} (h : Spells text d) :
    ∃ c rest, text = c :: rest ∧ c.isDigit := by
  obtain ⟨whole, fraction, power, rfl, hne, hw, _⟩ := h
  obtain ⟨c, rest, rfl⟩ := List.exists_cons_of_ne_nil hne
  exact ⟨c, _, rfl, hw c (by simp)⟩

def decimalMarks : List Char := ['-', '.', 'e']

theorem Spells.mem_text {text : List Char} {d : Decimal} (h : Spells text d) {c : Char} (hc : c ∈ text) :
    c.isDigit ∨ c ∈ decimalMarks := by
  obtain ⟨whole, fraction, power, rfl, _, hw, hf, _⟩ := h
  simp only [spelled, List.mem_append] at hc
  rcases hc with hc | hc | hc
  · exact .inl (hw c hc)
  · cases fraction with
    | none => simp at hc
    | some digits =>
        rcases List.mem_cons.1 hc with rfl | hc
        · exact .inr (by decide)
        · exact .inl (hf c hc)
  · cases power with
    | none => simp at hc
    | some n =>
        simp only [Option.elim, toList_signedText, List.mem_cons, List.mem_append] at hc
        rcases hc with rfl | hc | hc
        · exact .inr (by decide)
        · split at hc
          · exact .inr (List.mem_singleton.1 hc ▸ by decide)
          · simp at hc
        · exact .inl (isDigit_of_mem_decimalDigits hc)

/-! ## Laying out digits -/

namespace FloatStyle

variable (style : FloatStyle)

theorem ofDigitChars_append_zeros (digits : List Char) (count : Nat) :
    Nat.ofDigitChars 10 (digits ++ List.replicate count '0') 0 =
      Nat.ofDigitChars 10 digits 0 * 10 ^ count := by
  rw [Nat.ofDigitChars_append, Nat.ofDigitChars_replicate_zero, Nat.mul_comm]

theorem ofDigitChars_zeros_append (digits : List Char) (count : Nat) :
    Nat.ofDigitChars 10 (List.replicate count '0' ++ digits) 0 = Nat.ofDigitChars 10 digits 0 := by
  rw [Nat.ofDigitChars_append, Nat.ofDigitChars_replicate_zero, Nat.mul_zero]

theorem isDigit_of_mem_zeros {count : Nat} {c : Char} (h : c ∈ List.replicate count '0') : c.isDigit := by
  rw [List.eq_of_mem_replicate h]
  decide

section LayOut

variable {digits : List Char} {place : Int}

theorem layOut_spells_below (hd : ∀ c ∈ digits, c.isDigit) (hplace : place ≤ 0) :
    Spells (style.layOut digits place)
      (Decimal.padded ⟨Nat.ofDigitChars 10 digits 0, place - digits.length⟩ 0) := by
  refine ⟨['0'], some (List.replicate place.natAbs '0' ++ digits), none, by simp [layOut, spelled, hplace],
    by simp, fun c h => @isDigit_of_mem_zeros 1 c h, ?_, Nat.succ_pos _, ?_⟩
  · simp only [Option.getD_some, List.mem_append]
    rintro c (h | h)
    · exact isDigit_of_mem_zeros h
    · exact hd c h
  · have hvalue := ofDigitChars_zeros_append digits (place.natAbs + 1)
    rw [List.replicate_succ, List.cons_append] at hvalue
    simp only [Decimal.padded, Option.getD_some, List.singleton_append, hvalue, Nat.pow_zero, Nat.mul_one,
      Option.getD_none, List.length_append, List.length_replicate, Decimal.mk.injEq, true_and]
    omega

theorem layOut_spells_within (hd : ∀ c ∈ digits, c.isDigit) (hplace : ¬ place ≤ 0)
    (hshort : ¬ digits.length ≤ place.toNat) :
    Spells (style.layOut digits place)
      (Decimal.padded ⟨Nat.ofDigitChars 10 digits 0, place - digits.length⟩ 0) := by
  have hne : digits ≠ [] := by
    rintro rfl
    exact hshort (Nat.zero_le _)
  refine ⟨digits.take place.toNat, some (digits.drop place.toNat), none,
    by simp [layOut, spelled, hplace, hshort], ?_, fun c h => hd c (List.mem_of_mem_take h),
    fun c h => hd c (List.mem_of_mem_drop h), Nat.succ_pos _, ?_⟩
  · simp only [ne_eq, List.take_eq_nil_iff, hne, or_false]
    omega
  · simp only [Decimal.padded, Option.getD_some, List.take_append_drop, Nat.pow_zero, Nat.mul_one,
      Option.getD_none, List.length_drop, Decimal.mk.injEq, true_and]
    omega

theorem layOut_spells_beyond (hne : digits ≠ []) (hd : ∀ c ∈ digits, c.isDigit) (hplace : ¬ place ≤ 0)
    (hlong : digits.length ≤ place.toNat) :
    ∃ count, Spells (style.layOut digits place)
      (Decimal.padded ⟨Nat.ofDigitChars 10 digits 0, place - digits.length⟩ count) := by
  have hwhole : ∀ c ∈ digits ++ List.replicate (place.toNat - digits.length) '0', c.isDigit := by
    simp only [List.mem_append]
    rintro c (h | h)
    · exact hd c h
    · exact isDigit_of_mem_zeros h
  have hvalue := ofDigitChars_append_zeros digits (place.toNat - digits.length)
  cases hpoint : style.keepsPoint with
  | false =>
      refine ⟨place.toNat - digits.length, _, none, none, by simp [layOut, spelled, hpoint, hplace, hlong],
        by simp [hne], hwhole, by simp, Nat.succ_pos _, ?_⟩
      simp only [Decimal.padded, Option.getD_none, List.append_nil, hvalue, List.length_nil,
        Decimal.mk.injEq, true_and]
      omega
  | true =>
      -- The zero behind the point is one more digit than the decimal has.
      refine ⟨place.toNat - digits.length + 1, _, some ['0'], none, by simp [layOut, spelled, hpoint, hplace, hlong],
        by simp [hne], hwhole, fun c h => @isDigit_of_mem_zeros 1 c h, Nat.succ_pos _, ?_⟩
      have hmore := ofDigitChars_append_zeros (digits ++ List.replicate (place.toNat - digits.length) '0') 1
      simp only [List.replicate_one] at hmore
      simp only [Decimal.padded, Option.getD_some, Option.getD_none, hmore, hvalue, Nat.pow_succ,
        Nat.pow_zero, Nat.one_mul, Nat.mul_assoc, List.length_singleton, Decimal.mk.injEq, true_and]
      omega

/-- Digits with a point at its place spell the decimal, perhaps with more zeros behind it. -/
theorem layOut_spells (hne : digits ≠ []) (hd : ∀ c ∈ digits, c.isDigit) (place : Int) :
    ∃ count, Spells (style.layOut digits place)
      (Decimal.padded ⟨Nat.ofDigitChars 10 digits 0, place - digits.length⟩ count) := by
  by_cases hplace : place ≤ 0
  · exact ⟨0, style.layOut_spells_below hd hplace⟩
  · by_cases hlong : digits.length ≤ place.toNat
    · exact style.layOut_spells_beyond hne hd hplace hlong
    · exact ⟨0, style.layOut_spells_within hd hplace hlong⟩

end LayOut

theorem layOutPower_spells {digits : List Char} (hne : digits ≠ []) (hd : ∀ c ∈ digits, c.isDigit)
    {place : Int} (hp : (place - 1).natAbs < UInt16.size) :
    Spells (layOutPower digits place) ⟨Nat.ofDigitChars 10 digits 0, place - digits.length⟩ := by
  obtain ⟨c, rest, rfl⟩ := List.exists_cons_of_ne_nil hne
  have hc : ∀ d ∈ [c], d.isDigit := fun d h => hd d (by simp_all)
  cases rest with
  | nil =>
      refine ⟨[c], none, some (place - 1), by simp [spelled, layOutPower], by simp, hc, by simp, hp, ?_⟩
      simp
  | cons d rest =>
      refine ⟨[c], some (d :: rest), some (place - 1), by simp [spelled, layOutPower], by simp, hc,
        fun d h => hd d (List.mem_cons_of_mem _ h), hp, ?_⟩
      simp only [Option.getD_some, List.singleton_append, List.length_cons, Decimal.mk.injEq, true_and]
      omega

end FloatStyle

/-! ## Significant digits -/

namespace Decimal

theorem decimalDigits_eq_significant (d : Decimal) :
    ∃ count, decimalDigits d.digits = d.significant ++ List.replicate count '0' := by
  refine ⟨((decimalDigits d.digits).reverse.takeWhile (· == '0')).length, ?_⟩
  have hzeros : ((decimalDigits d.digits).reverse.takeWhile (· == '0')).reverse =
      List.replicate ((decimalDigits d.digits).reverse.takeWhile (· == '0')).length '0' := by
    rw [List.eq_replicate_iff]
    refine ⟨by simp, fun c h => ?_⟩
    have hall := List.all_takeWhile (p := (· == '0')) (l := (decimalDigits d.digits).reverse)
    rw [List.all_eq_true] at hall
    exact eq_of_beq (hall c (List.mem_reverse.1 h))
  rw [significant, ← hzeros, ← List.reverse_append, List.takeWhile_append_dropWhile, List.reverse_reverse]

theorem isDigit_of_mem_significant {d : Decimal} {c : Char} (h : c ∈ d.significant) : c.isDigit := by
  obtain ⟨count, hcount⟩ := d.decimalDigits_eq_significant
  exact isDigit_of_mem_decimalDigits (n := d.digits) (by simp [hcount, h])

/-- A decimal is its significant digits at its point, with zeros behind them. -/
theorem eq_padded_significant (d : Decimal) :
    ∃ count, d = padded ⟨Nat.ofDigitChars 10 d.significant 0, d.pointPlace - d.significant.length⟩ count := by
  obtain ⟨count, hcount⟩ := d.decimalDigits_eq_significant
  have hvalue := ofDigitChars_decimalDigits d.digits
  have hwidth : d.width = d.significant.length + count := by
    simp only [width, hcount, List.length_append, List.length_replicate]
  rw [hcount, FloatStyle.ofDigitChars_append_zeros] at hvalue
  refine ⟨count, ?_⟩
  simp only [padded, hvalue, pointPlace, hwidth]
  cases d with
  | mk digits exponent =>
      simp only [mk.injEq, true_and]
      omega

theorem significant_ne_nil {d : Decimal} (h : d.digits ≠ 0) : d.significant ≠ [] := by
  intro hnil
  obtain ⟨count, hcount⟩ := d.eq_padded_significant
  rw [hnil] at hcount
  exact h (by rw [hcount]; simp [padded])

theorem position_significant (f : FloatFormat) (d : Decimal) (count : Nat) :
    position f (padded ⟨Nat.ofDigitChars 10 d.significant 0, d.pointPlace - d.significant.length⟩ count) =
      d.position f := by
  obtain ⟨zeros, hzeros⟩ := d.eq_padded_significant
  conv_rhs => rw [hzeros]
  rw [position_padded, position_padded]

end Decimal

/-! ## Magnitudes -/

namespace FloatFormat

/-- How many digits the expansion of a magnitude has at most. -/
def expansionWidth (f : FloatFormat) : Nat := f.fractionBits + 2 ^ f.exponentBits + f.unitExponent

theorem units_lt {f : FloatFormat} {position : Nat} (h : position < f.magnitudes) :
    f.units position < 2 ^ (f.fractionBits + 2 ^ f.exponentBits) := by
  have hrow : 0 < 2 ^ f.fractionBits := Nat.two_pow_pos _
  have hrows : 0 < 2 ^ f.exponentBits := Nat.two_pow_pos _
  simp only [units, Nat.pow_eq]
  split
  · next hlt =>
    rw [Nat.pow_add]
    exact Nat.lt_of_lt_of_le hlt (Nat.le_mul_of_pos_right _ (Nat.two_pow_pos _))
  · have hmod := Nat.mod_lt position hrow
    have hdiv : position / 2 ^ f.fractionBits < 2 ^ f.exponentBits - 1 :=
      (Nat.div_lt_iff_lt_mul hrow).2 (by simpa [magnitudes] using h)
    calc (2 ^ f.fractionBits + position % 2 ^ f.fractionBits) * 2 ^ (position / 2 ^ f.fractionBits - 1)
        < 2 ^ (f.fractionBits + 1) * 2 ^ (position / 2 ^ f.fractionBits - 1) :=
          Nat.mul_lt_mul_of_pos_right (by rw [Nat.pow_succ]; omega) (Nat.two_pow_pos _)
      _ = 2 ^ (f.fractionBits + 1 + (position / 2 ^ f.fractionBits - 1)) := (Nat.pow_add _ _ _).symm
      _ ≤ 2 ^ (f.fractionBits + 2 ^ f.exponentBits) := Nat.pow_le_pow_right (by omega) (by omega)

theorem expansion_lt {f : FloatFormat} {position : Nat} (h : position < f.magnitudes) :
    f.expansion position < 10 ^ f.expansionWidth := by
  simp only [expansion, expansionWidth, Nat.pow_eq]
  calc f.units position * 5 ^ f.unitExponent
      < 2 ^ (f.fractionBits + 2 ^ f.exponentBits) * 5 ^ f.unitExponent :=
        Nat.mul_lt_mul_of_pos_right (units_lt h) (Nat.pow_pos (by omega))
    _ ≤ 10 ^ (f.fractionBits + 2 ^ f.exponentBits) * 10 ^ f.unitExponent :=
        Nat.mul_le_mul (Nat.pow_le_pow_left (by omega) _) (Nat.pow_le_pow_left (by omega) _)
    _ = 10 ^ (f.fractionBits + 2 ^ f.exponentBits + f.unitExponent) := (Nat.pow_add _ _ _).symm

/-- The point of the shortest decimal stands within twice the width of the longest expansion. -/
theorem natAbs_pointPlace_shortest_le {f : FloatFormat} {position : Nat} (h : position < f.magnitudes) :
    ((f.shortest position).pointPlace - 1).natAbs ≤ 2 * f.expansionWidth + 2 := by
  obtain ⟨dropped, hexp, hdropped, hdigits, _⟩ := f.shortest_spec position
  have hlt := expansion_lt h
  have hpos : 0 < 10 ^ f.expansionWidth := Nat.pow_pos (by omega)
  have hwhole : (decimalDigits (f.expansion position)).length ≤ f.expansionWidth + 1 :=
    (Nat.length_toDigits_le_iff (by omega) (by omega)).2 (by rw [Nat.pow_succ]; omega)
  have hwidth : (f.shortest position).width ≤ f.expansionWidth + 1 :=
    (Nat.length_toDigits_le_iff (by omega) (by omega)).2 (by rw [Nat.pow_succ]; omega)
  have hunit : f.unitExponent ≤ f.expansionWidth := by simp [expansionWidth]
  simp only [Decimal.pointPlace, hexp]
  omega

end FloatFormat

/-! ## Reading what has been written -/

namespace FloatStyle

variable (style : FloatStyle)

theorem magnitude_spells {f : FloatFormat} {position : Nat} (h : position < f.magnitudes)
    (hf : 2 * f.expansionWidth + 2 < UInt16.size) :
    ∃ d, Spells (style.magnitude f position) d ∧ d.position f = position := by
  simp only [magnitude]
  by_cases h0 : position = 0
  · obtain ⟨count, hspells⟩ := style.layOut_spells (List.cons_ne_nil '0' [])
      (fun c h => @isDigit_of_mem_zeros 1 c h) 1
    refine ⟨_, by simpa [h0] using hspells, ?_⟩
    rw [Decimal.position_padded, h0]
    exact Decimal.position_of_zero f _
  · have hne := Decimal.significant_ne_nil (FloatFormat.digits_shortest_ne_zero (f := f) h0)
    have hd : ∀ c ∈ (f.shortest position).significant, c.isDigit := fun _ =>
      Decimal.isDigit_of_mem_significant
    simp only [h0, ↓reduceIte]
    split
    · obtain ⟨count, hspells⟩ := style.layOut_spells hne hd (f.shortest position).pointPlace
      exact ⟨_, hspells, by rw [Decimal.position_significant, FloatFormat.position_shortest]⟩
    · have hplace := FloatFormat.natAbs_pointPlace_shortest_le h
      refine ⟨_, layOutPower_spells hne hd (by omega), ?_⟩
      have hpos := Decimal.position_significant f (f.shortest position) 0
      rw [Decimal.position_padded] at hpos
      rw [hpos, FloatFormat.position_shortest]

theorem toList_text_finite {f : FloatFormat} (negative : Bool) (position : Fin f.magnitudes) :
    (style.text (.finite negative position)).toList =
      (if negative then ['-'] else []) ++ style.magnitude f position := by
  simp only [text, String.toList_ofList]

theorem expansionWidth_double : 2 * FloatFormat.double.expansionWidth + 2 < UInt16.size := by
  have hsize : UInt16.size = 65536 := rfl
  simp only [FloatFormat.expansionWidth, FloatFormat.unitExponent, FloatFormat.double, Nat.pow_eq, hsize]
  omega

theorem toLower_of_isDigit {c : Char} (h : c.isDigit) : c.toLower = c := by
  simp only [Char.isDigit, Bool.and_eq_true, decide_eq_true_eq, UInt32.le_iff_toNat_le] at h
  have h9 : c.val.toNat ≤ 57 := h.2
  refine dif_neg ?_
  rintro ⟨hA, _⟩
  have hA : 65 ≤ c.val.toNat := UInt32.le_iff_toNat_le.1 hA
  omega

/-- A text that starts with a digit is none of the words for what is not a decimal. -/
theorem lowered_ne_of_isDigit {c w : Char} (hc : c.isDigit) (rest : List Char) (hw : ¬ w.isDigit)
    (word : List Char) :
    String.ofList ((c :: rest).map Char.toLower) ≠ String.ofList (w :: word) := by
  intro h
  have hlist := String.ofList_inj.1 h
  rw [List.map_cons, List.cons.injEq, toLower_of_isDigit hc] at hlist
  exact hw (hlist.1 ▸ hc)

theorem readFloat_decimal {f : FloatFormat} {text : List Char} {negative : Bool} {d : Decimal}
    (h : Spells text d) :
    readFloat f ((if negative then ['-'] else []) ++ text) = some (d.toFloat f negative) := by
  obtain ⟨c, rest, rfl, hc⟩ := h.exists_head
  have hsign : splitSign ((if negative then ['-'] else []) ++ c :: rest) = (negative, c :: rest) := by
    cases negative with
    | false => exact splitSign_of_isDigit fun d hd => by cases hd; exact hc
    | true => rfl
  have hnan := lowered_ne_of_isDigit hc rest (w := 'n') (by decide) ['a', 'n']
  have hinf := lowered_ne_of_isDigit hc rest (w := 'i') (by decide) ['n', 'f']
  have hinfinity := lowered_ne_of_isDigit hc rest (w := 'i') (by decide) ['n', 'f', 'i', 'n', 'i', 't', 'y']
  simp only [readFloat, hsign, h.readDecimal_eq]
  rw [if_neg hnan, if_neg (not_or.2 ⟨hinf, hinfinity⟩), Option.map_some]

/-- Reading the text of a finite number gives the number, with the sign of a zero. -/
theorem readFloat_text {x : Double} (h : x.isFinite = true) :
    readFloat .double (style.text x).toList = some x := by
  cases x with
  | nan => cases h
  | infinite _ => cases h
  | finite negative position =>
      obtain ⟨d, hspells, hpos⟩ := style.magnitude_spells position.2 expansionWidth_double
      rw [toList_text_finite, readFloat_decimal hspells, Decimal.toFloat_eq_ofPosition, hpos,
        FloatNumber.ofPosition_of_lt negative position.2]

theorem mem_text {x : Double} (h : x.isFinite = true) {c : Char} (hc : c ∈ (style.text x).toList) :
    c.isDigit ∨ c ∈ decimalMarks := by
  cases x with
  | nan => cases h
  | infinite _ => cases h
  | finite negative position =>
      obtain ⟨d, hspells, _⟩ := style.magnitude_spells position.2 expansionWidth_double
      rw [toList_text_finite, List.mem_append] at hc
      rcases hc with hc | hc
      · split at hc
        · exact .inr (List.mem_singleton.1 hc ▸ by decide)
        · simp at hc
      · exact hspells.mem_text hc

end FloatStyle

end SerialContract
