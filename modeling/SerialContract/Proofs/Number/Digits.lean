import SerialContract.Number.Digits

/-!
# Digits read back

The decimal texts of whole numbers consist of digits, with a sign in front of negative ones, and
reading one gives the number again.
-/

namespace SerialContract

/-! ## Runs of digits -/

theorem digitValue_of_isDigit {c : Char} (h : c.isDigit) : digitValue c = some (c.toNat - '0'.toNat) := by
  simp only [digitValue, h, ↓reduceIte]

theorem digit_lt_ten {c : Char} (h : c.isDigit) : c.toNat - '0'.toNat < 10 := by
  simp only [Char.isDigit, Bool.and_eq_true, decide_eq_true_eq, UInt32.le_iff_toNat_le] at h
  have h9 : c.toNat ≤ 57 := h.2
  have h0 : '0'.toNat = 48 := rfl
  omega

theorem readDigitsFrom_eq_ofDigitChars {digits : List Char} (hd : ∀ c ∈ digits, c.isDigit) (high : Nat) :
    readDigitsFrom 10 high digits = some (Nat.ofDigitChars 10 digits high) := by
  induction digits generalizing high with
  | nil => rfl
  | cons c rest ih =>
      have hc := hd c (by simp)
      simp only [readDigitsFrom, digitValue_of_isDigit hc, digit_lt_ten hc, ↓reduceIte,
        Nat.ofDigitChars_cons]
      exact ih (fun c h => hd c (by simp [h])) _

theorem readDigits_eq_ofDigitChars {digits : List Char} (hne : digits ≠ [])
    (hd : ∀ c ∈ digits, c.isDigit) : readDigits 10 digits = some (Nat.ofDigitChars 10 digits 0) := by
  simp only [readDigits, List.isEmpty_iff, hne, ↓reduceIte, readBlocks_eq, Nat.zero_mul, Nat.zero_add]
  exact readDigitsFrom_eq_ofDigitChars hd 0

/-! ## Decimal digits -/

theorem isDigit_of_mem_decimalDigits {n : Nat} {c : Char} (h : c ∈ decimalDigits n) : c.isDigit :=
  Nat.isDigit_of_mem_toDigits (by omega) (by omega) h

theorem decimalDigits_ne_nil (n : Nat) : decimalDigits n ≠ [] :=
  Nat.toDigits_ne_nil

theorem ofDigitChars_decimalDigits (n : Nat) : Nat.ofDigitChars 10 (decimalDigits n) 0 = n :=
  Nat.ofDigitChars_ten_toDigits

theorem readDigits_decimalDigits (n : Nat) : readDigits 10 (decimalDigits n) = some n := by
  rw [readDigits_eq_ofDigitChars (decimalDigits_ne_nil n) (fun _ => isDigit_of_mem_decimalDigits),
    ofDigitChars_decimalDigits]

/-- No zero stands in front of other digits. -/
theorem head?_decimalDigits {n : Nat} (h : 0 < n) : (decimalDigits n).head? ≠ some '0' := by
  have hdigit : ∀ k < 10, 0 < k → k.digitChar ≠ '0' := by decide
  induction n using Nat.strongRecOn with
  | ind n ih =>
      rw [decimalDigits, Nat.toDigits_eq_if (by decide)]
      split
      · next hlt => exact fun heq => hdigit n hlt h (Option.some.inj heq)
      · next hle =>
        obtain ⟨c, more, hdigits⟩ := List.exists_cons_of_ne_nil (decimalDigits_ne_nil (n / 10))
        have hhead := ih (n / 10) (Nat.div_lt_self h (by decide)) (Nat.div_pos (Nat.le_of_not_lt hle) (by decide))
        rw [hdigits] at hhead
        rw [decimalDigits] at hdigits
        rw [hdigits]
        exact hhead

/-! ## Digits of base sixteen -/

theorem readDigitsFrom_append (base high : Nat) (front back : List Char) :
    readDigitsFrom base high (front ++ back) =
      (readDigitsFrom base high front).bind fun n => readDigitsFrom base n back := by
  induction front generalizing high with
  | nil => rfl
  | cons c front ih =>
      rw [List.cons_append, readDigitsFrom, readDigitsFrom]
      cases digitValue c with
      | none => rfl
      | some value =>
          by_cases hlt : value < base
          · simp only [hlt, ↓reduceIte, ih]
          · simp only [hlt, ↓reduceIte, Option.bind_none]

theorem digitValue_digitChar : ∀ n < 16, digitValue n.digitChar = some n := by
  decide

theorem mem_toDigits_sixteen {n : Nat} {c : Char} (h : c ∈ Nat.toDigits 16 n) : ∃ k < 16, c = k.digitChar := by
  induction n using Nat.strongRecOn with
  | ind n ih =>
      rw [Nat.toDigits_eq_if (by decide)] at h
      split at h
      · next hlt => exact ⟨n, hlt, List.mem_singleton.1 h⟩
      · next hle =>
        rcases List.mem_append.1 h with h | h
        · exact ih (n / 16) (Nat.div_lt_self (by omega) (by decide)) h
        · exact ⟨n % 16, Nat.mod_lt n (by decide), List.mem_singleton.1 h⟩

theorem readDigits_toDigits_sixteen (n : Nat) : readDigits 16 (Nat.toDigits 16 n) = some n := by
  have hread : readDigitsFrom 16 0 (Nat.toDigits 16 n) = some n := by
    induction n using Nat.strongRecOn with
    | ind n ih =>
        rw [Nat.toDigits_eq_if (by decide)]
        split
        · next hlt => simp only [readDigitsFrom, digitValue_digitChar n hlt, hlt, ↓reduceIte, Nat.mul_zero, Nat.zero_add]
        · next hle =>
          have hmod := Nat.mod_lt n (show 0 < 16 by decide)
          rw [readDigitsFrom_append, ih (n / 16) (Nat.div_lt_self (by omega) (by decide))]
          simp only [Option.bind_some, readDigitsFrom, digitValue_digitChar _ hmod, hmod, ↓reduceIte,
            Nat.div_add_mod]
  simp only [readDigits, List.isEmpty_iff, Nat.toDigits_ne_nil, ↓reduceIte, readBlocks_eq, Nat.zero_mul, Nat.add_zero,
    hread]

/-! ## Signs -/

/-- A text that starts with a digit has no sign. -/
theorem splitSign_of_isDigit {text : List Char} (h : ∀ c ∈ text.head?, c.isDigit) :
    splitSign text = (false, text) := by
  unfold splitSign
  split
  · exact absurd (h '-' rfl) (by decide)
  · exact absurd (h '+' rfl) (by decide)
  · rfl

theorem splitSign_decimalDigits (n : Nat) : splitSign (decimalDigits n) = (false, decimalDigits n) :=
  splitSign_of_isDigit fun _ h => isDigit_of_mem_decimalDigits (List.mem_of_mem_head? h)

theorem toList_signedText (n : Int) :
    (signedText n).toList = (if n < 0 then ['-'] else []) ++ decimalDigits n.natAbs := by
  unfold signedText
  split <;> simp [decimalText]

theorem splitSign_signedText (n : Int) :
    splitSign (signedText n).toList = (decide (n < 0), decimalDigits n.natAbs) := by
  rw [toList_signedText]
  by_cases h : n < 0
  · simp only [h, ↓reduceIte, List.cons_append, List.nil_append, decide_true]
    rfl
  · simp only [h, ↓reduceIte, List.nil_append, decide_false]
    exact splitSign_decimalDigits _

/-! ## Numbers of 64 bits -/

theorem readInt64_int64Text (n : Int64) : readInt64 (int64Text n).toList = some n := by
  have hvalue : (if decide (n.toInt < 0) then -(n.toInt.natAbs : Int) else n.toInt.natAbs) = n.toInt := by
    by_cases h : n.toInt < 0
    · simp only [h, decide_true, ↓reduceIte]; omega
    · simp only [h, decide_false, Bool.false_eq_true, ↓reduceIte]; omega
  simp only [readInt64, int64Text, splitSign_signedText, readDigits_decimalDigits, hvalue]
  rw [if_pos ⟨n.minValue_le_toInt, n.toInt_le⟩, Int64.ofInt_toInt]

theorem mem_int64Text {n : Int64} {c : Char} (h : c ∈ (int64Text n).toList) : c = '-' ∨ c.isDigit := by
  rw [int64Text, toList_signedText, List.mem_append] at h
  rcases h with h | h
  · split at h
    · exact .inl (List.mem_singleton.1 h)
    · simp at h
  · exact .inr (isDigit_of_mem_decimalDigits h)

end SerialContract
