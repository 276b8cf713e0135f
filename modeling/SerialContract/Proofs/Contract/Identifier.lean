import SerialContract.Contract.Exchange

/-!
# The characters of identifiers

An identifier is made of letters, digits and underscores, and so are its snake case and its camel case.
-/

namespace SerialContract

theorem isIdentifierPart_of_mem {name : String} (h : isIdentifier name = true) {c : Char} (hc : c ∈ name.toList) :
    isIdentifierPart c = true := by
  rw [isIdentifier] at h
  cases hname : name.toList with
  | nil =>
      rw [hname] at hc
      cases hc
  | cons first rest =>
      rw [hname] at h hc
      simp only [isIdentifierSpelling, isIdentifierStart, Bool.and_eq_true, List.all_eq_true] at h
      rcases List.mem_cons.1 hc with rfl | hc
      · simp only [isIdentifierPart, Char.isAlphanum, Bool.or_eq_true] at h ⊢
        exact h.1.imp_left Or.inl
      · exact h.2 c hc

theorem notMem_of_isIdentifierPart {text : List Char} (h : ∀ c ∈ text, isIdentifierPart c = true) {d : Char}
    (hd : isIdentifierPart d = false) : d ∉ text :=
  fun hmem => Bool.false_ne_true (hd.symm.trans (h d hmem))

theorem isIdentifierPart_of_mem_messageName {e : Exchange} (h : isIdentifier e.name = true) (direction : Direction) :
    ∀ c ∈ (e.messageName direction).toList, isIdentifierPart c = true := by
  intro c hc
  rw [Exchange.messageName, String.toList_append, List.mem_append] at hc
  rcases hc with hc | hc
  · exact isIdentifierPart_of_mem h hc
  · have hsuffix : isIdentifier direction.suffix = true := by cases direction <;> decide
    exact isIdentifierPart_of_mem hsuffix hc

/-! ## Letters -/

/-- What holds of the first code points holds of the ASCII characters. -/
theorem forall_ascii (P : Char → Prop) (h : ∀ n < 128, P (Char.ofNat n)) {c : Char} (hc : c.toNat < 128) : P c := by
  rw [← Char.ofNat_toNat c]
  exact h c.toNat hc

theorem lt_of_isAlpha {c : Char} (h : c.isAlpha = true) : c.toNat < 128 := by
  change c.val.toNat < 128
  have hcases : (c.isUpper || c.isLower) = true := h
  rcases Bool.or_eq_true_iff.1 hcases with hupper | hlower
  · have hle : 'A'.val ≤ c.val ∧ c.val ≤ 'Z'.val := of_decide_eq_true hupper
    have hZ : c.val.toNat ≤ 90 := UInt32.le_iff_toNat_le.1 hle.2
    omega
  · have hle := Bool.and_eq_true_iff.1 hlower
    have hz : c.val.toNat ≤ 122 := UInt32.le_iff_toNat_le.1 (of_decide_eq_true hle.2)
    omega

theorem lt_of_isDigit {c : Char} (h : c.isDigit = true) : c.toNat < 128 := by
  change c.val.toNat < 128
  simp only [Char.isDigit, Bool.and_eq_true, decide_eq_true_eq, UInt32.le_iff_toNat_le] at h
  have h9 : c.val.toNat ≤ 57 := h.2
  omega

theorem lt_of_isIdentifierPart {c : Char} (h : isIdentifierPart c = true) : c.toNat < 128 := by
  simp only [isIdentifierPart, Char.isAlphanum, Bool.or_eq_true, beq_iff_eq] at h
  rcases h with (h | h) | rfl
  · exact lt_of_isAlpha h
  · exact lt_of_isDigit h
  · decide

/-- The small and the capital letter stay characters of identifiers. -/
theorem isIdentifierPart_toLower_and_toUpper {c : Char} (h : isIdentifierPart c = true) :
    isIdentifierPart c.toLower = true ∧ isIdentifierPart c.toUpper = true := by
  exact forall_ascii (fun d => isIdentifierPart d = true →
    isIdentifierPart d.toLower = true ∧ isIdentifierPart d.toUpper = true)
    (by decide +kernel) (lt_of_isIdentifierPart h) h

/-! ## Snake case and camel case -/

section Words

variable {text : List Char}

theorem isIdentifierPart_of_mem_snakeFrom (h : ∀ c ∈ text, isIdentifierPart c = true) {before : Option Char} :
    ∀ c ∈ snakeFrom before text, isIdentifierPart c = true := by
  induction text generalizing before with
  | nil => exact List.forall_mem_nil _
  | cons c rest ih =>
      rw [List.forall_mem_cons] at h
      have hlowered : ∀ d ∈ c.toLower :: snakeFrom (some c) rest, isIdentifierPart d = true :=
        List.forall_mem_cons.2 ⟨(isIdentifierPart_toLower_and_toUpper h.1).1, ih h.2⟩
      rw [snakeFrom]
      split
      · exact List.forall_mem_cons.2 ⟨rfl, hlowered⟩
      · exact hlowered

theorem isIdentifierPart_of_mem_joinFrom (h : ∀ c ∈ text, isIdentifierPart c = true) {raise : Bool} :
    ∀ c ∈ joinFrom raise text, isIdentifierPart c = true := by
  induction text generalizing raise with
  | nil => exact List.forall_mem_nil _
  | cons c rest ih =>
      rw [List.forall_mem_cons] at h
      rw [joinFrom]
      split
      · exact ih h.2
      · refine List.forall_mem_cons.2 ⟨?_, ih h.2⟩
        cases raise with
        | false => exact h.1
        | true => exact (isIdentifierPart_toLower_and_toUpper h.1).2

theorem isIdentifierPart_of_mem_camelSpelling (h : ∀ c ∈ text, isIdentifierPart c = true) :
    ∀ c ∈ camelSpelling text, isIdentifierPart c = true := by
  cases text with
  | nil => exact List.forall_mem_nil _
  | cons c rest =>
      rw [List.forall_mem_cons] at h
      exact List.forall_mem_cons.2 ⟨h.1, isIdentifierPart_of_mem_joinFrom h.2⟩

end Words

theorem isIdentifierPart_of_mem_camelCase {name : String} (h : isIdentifier name = true) :
    ∀ c ∈ (camelCase name).toList, isIdentifierPart c = true := by
  rw [camelCase, String.toList_ofList]
  exact isIdentifierPart_of_mem_camelSpelling
    (isIdentifierPart_of_mem_snakeFrom fun c hc => isIdentifierPart_of_mem h hc)

end SerialContract
