import SerialContract.Proofs.Contract.CamelCase

/-!
# Snake case and camel case of names

Snake case has no capitals and is its own snake case; but for underscores it is the name in small letters. Snake
case and camel case of an identifier are identifiers, and camel case can be made of the snake case as well.
-/

namespace SerialContract

/-! ## Characters -/

theorem isIdentifierStart_toLower {c : Char} (h : isIdentifierStart c = true) : isIdentifierStart c.toLower = true := by
  have hascii : c.toNat < 128 := by
    rw [isIdentifierStart, Bool.or_eq_true, beq_iff_eq] at h
    rcases h with halpha | rfl
    · exact lt_of_isAlpha halpha
    · decide
  exact forall_ascii (fun d => isIdentifierStart d = true → isIdentifierStart d.toLower = true) (by decide) hascii h

theorem toUpper_ne_underscore {c : Char} (h : c ≠ '_') : c.toUpper ≠ '_' := by
  cases hsmall : c.isLower with
  | true =>
      intro heq
      have hupper := (isUpper_toUpper hsmall).1
      rw [heq] at hupper
      exact absurd hupper (by decide)
  | false => rwa [toUpper_of_not_isLower hsmall]

/-! ## Spellings -/

section Spellings

variable {text : List Char} {before : Option Char}

/-- Where there are no capitals, no word starts and nothing is lowered. -/
theorem snakeFrom_of_not_isUpper (h : ∀ c ∈ text, c.isUpper = false) : snakeFrom before text = text := by
  induction text generalizing before with
  | nil => rfl
  | cons c rest ih =>
      rw [List.forall_mem_cons] at h
      have hword : startsWord before c = false := by rw [startsWord, h.1, Bool.false_and]
      rw [snakeFrom, hword, ih h.2, toLower_of_not_isUpper h.1, if_neg Bool.false_ne_true]

theorem snakeFrom_snakeFrom (before before' : Option Char) (text : List Char) :
    snakeFrom before (snakeFrom before' text) = snakeFrom before' text :=
  snakeFrom_of_not_isUpper isUpper_of_mem_snakeFrom

/-- Snake case adds underscores and nothing else. -/
theorem filter_snakeFrom (before : Option Char) (text : List Char) :
    (snakeFrom before text).filter (· ≠ '_') = (text.map Char.toLower).filter (· ≠ '_') := by
  induction text generalizing before with
  | nil => rfl
  | cons c rest ih =>
      have hlowered : (c.toLower :: snakeFrom (some c) rest).filter (· ≠ '_') =
          ((c :: rest).map Char.toLower).filter (· ≠ '_') := by
        rw [List.map_cons, List.filter_cons, List.filter_cons, ih]
      rw [snakeFrom]
      split
      · rw [List.filter_cons_of_neg (by decide), hlowered]
      · exact hlowered

/-- No word starts at the first character. -/
theorem snakeFrom_none_cons (c : Char) (rest : List Char) :
    snakeFrom none (c :: rest) = c.toLower :: snakeFrom (some c) rest := by
  have hword : startsWord none c = false := Bool.and_false _
  rw [snakeFrom, hword, if_neg Bool.false_ne_true]

theorem isIdentifierSpelling_cons {c : Char} {rest : List Char} : isIdentifierSpelling (c :: rest) = true ↔
    isIdentifierStart c = true ∧ ∀ d ∈ rest, isIdentifierPart d = true := by
  rw [isIdentifierSpelling, Bool.and_eq_true, List.all_eq_true]

theorem isIdentifierSpelling_snakeFrom (h : isIdentifierSpelling text = true) :
    isIdentifierSpelling (snakeFrom none text) = true := by
  cases text with
  | nil => exact h
  | cons c rest =>
      rw [isIdentifierSpelling_cons] at h
      rw [snakeFrom_none_cons, isIdentifierSpelling_cons]
      exact ⟨isIdentifierStart_toLower h.1, isIdentifierPart_of_mem_snakeFrom h.2⟩

theorem isIdentifierSpelling_camelSpelling (h : isIdentifierSpelling text = true) :
    isIdentifierSpelling (camelSpelling text) = true := by
  cases text with
  | nil => exact h
  | cons c rest =>
      rw [isIdentifierSpelling_cons] at h
      rw [camelSpelling, isIdentifierSpelling_cons]
      exact ⟨h.1, isIdentifierPart_of_mem_joinFrom h.2⟩

theorem underscore_notMem_joinFrom (raise : Bool) (text : List Char) : '_' ∉ joinFrom raise text := by
  induction text generalizing raise with
  | nil => exact List.not_mem_nil
  | cons c rest ih =>
      rw [joinFrom]
      split
      · exact ih true
      · next hkept =>
        rw [List.mem_cons, not_or]
        refine ⟨?_, ih false⟩
        cases raise with
        | false => exact Ne.symm hkept
        | true => exact (toUpper_ne_underscore hkept).symm

end Spellings

/-! ## Names -/

/-- A text without its underscores. -/
def withoutUnderscores (text : String) : String :=
  String.ofList (text.toList.filter (· ≠ '_'))

theorem snakeCase_snakeCase (name : String) : snakeCase (snakeCase name) = snakeCase name := by
  rw [snakeCase, snakeCase, String.toList_ofList, snakeFrom_snakeFrom]

theorem camelCase_snakeCase (name : String) : camelCase (snakeCase name) = camelCase name := by
  rw [camelCase, camelCase, snakeCase, String.toList_ofList, snakeFrom_snakeFrom]

theorem withoutUnderscores_snakeCase (name : String) :
    withoutUnderscores (snakeCase name) = withoutUnderscores name.toLower := by
  have hlower : name.toLower = name.map Char.toLower := rfl
  rw [withoutUnderscores, withoutUnderscores, snakeCase, String.toList_ofList, filter_snakeFrom, hlower,
    String.toList_map]

theorem isIdentifier_snakeCase {name : String} (h : isIdentifier name = true) : isIdentifier (snakeCase name) = true := by
  rw [isIdentifier, snakeCase, String.toList_ofList]
  exact isIdentifierSpelling_snakeFrom h

theorem isIdentifier_camelCase {name : String} (h : isIdentifier name = true) : isIdentifier (camelCase name) = true := by
  rw [isIdentifier, camelCase, String.toList_ofList]
  exact isIdentifierSpelling_camelSpelling (isIdentifierSpelling_snakeFrom h)

theorem underscore_notMem_tail_camelCase (name : String) : '_' ∉ (camelCase name).toList.tail := by
  rw [camelCase, String.toList_ofList]
  cases snakeFrom none name.toList with
  | nil => exact List.not_mem_nil
  | cons c rest => exact underscore_notMem_joinFrom false rest

/-- Snake case of any text is its own snake case, has no capitals and is the text in small letters but for
underscores. Of an identifier, snake case and camel case are identifiers, camel case has no underscore but at its
front, and it is the camel case of the snake case. -/
theorem case_conversion_stable (name : String) :
    snakeCase (snakeCase name) = snakeCase name ∧ (∀ c ∈ (snakeCase name).toList, c.isUpper = false) ∧
      withoutUnderscores (snakeCase name) = withoutUnderscores name.toLower ∧
      (isIdentifier name = true → isIdentifier (snakeCase name) = true ∧ isIdentifier (camelCase name) = true ∧
        '_' ∉ (camelCase name).toList.tail ∧ camelCase (snakeCase name) = camelCase name) := by
  refine ⟨snakeCase_snakeCase name, ?_, withoutUnderscores_snakeCase name, fun hname => ?_⟩
  · rw [snakeCase, String.toList_ofList]
    exact isUpper_of_mem_snakeFrom
  · exact ⟨isIdentifier_snakeCase hname, isIdentifier_camelCase hname, underscore_notMem_tail_camelCase name,
      camelCase_snakeCase name⟩

theorem case_conversion_stable_underscores : isIdentifier "__HTTPServer2Go_" = true ∧
    snakeCase "__HTTPServer2Go_" = "__httpserver2_go_" ∧ camelCase "__HTTPServer2Go_" = "_Httpserver2Go" ∧
    camelCase "__httpserver2_go_" = "_Httpserver2Go" ∧ isIdentifier "_Httpserver2Go" = true := by
  have hname : isIdentifier "__HTTPServer2Go_" = true := by decide
  have hsnake : snakeCase "__HTTPServer2Go_" = "__httpserver2_go_" := by decide
  have hcamel : camelCase "__HTTPServer2Go_" = "_Httpserver2Go" := by decide
  obtain ⟨_, hidentifier, _, hsame⟩ := (case_conversion_stable "__HTTPServer2Go_").2.2.2 hname
  rw [hsnake, hcamel] at hsame
  rw [hcamel] at hidentifier
  exact ⟨hname, hsnake, hcamel, hsame, hidentifier⟩

end SerialContract
