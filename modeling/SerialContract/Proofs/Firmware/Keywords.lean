import SerialContract.Firmware.Bundle
import SerialContract.Proofs.Contract.CaseConversion
import SerialContract.Proofs.Contract.WellFormed
import SerialContract.Proofs.Firmware.Handler

/-!
# Methods and the words of the language

A name is checked against the words of the firmware's language in snake case, but a method is named by the camel
case. What camel case forgets can lie between the two: a handler is named by such a word if and only if the snake
case is the word up to underscores that leave no trace. The name of a wrapper is never one.
-/

namespace SerialContract

/-- Two names have the same camel case if and only if one has the words of the other, which is in camel case. -/
theorem camelCase_eq_iff_of_camelCase {name word : String} (h : camelCase word = word) :
    camelCase name = word ↔ tidySnakeCase name = tidySnakeCase word := by
  rw [← camelCase_eq_iff, h]

/-- What the words of the language are made of: no word has this capital, those with an underscore are no camel case,
and all others are the camel case of themselves. -/
theorem keyword_spelling : ∀ word ∈ cppKeywords.map String.toList, 'W' ∉ word ∧ ('_' ∈ word.tail ∨
    '_' ∉ word ∧ camelSpelling (snakeFrom none word) = word ∧ tidySpelling (snakeFrom none word) = word) := by
  simp only [cppKeywords, List.map_cons, List.map_nil]
  repeat rw [String.toList_ofList]
  decide

theorem camelCase_keyword : ∀ word ∈ cppKeywords, '_' ∈ word.toList.tail ∨
    '_' ∉ word.toList ∧ camelCase word = word ∧ tidySnakeCase word = word := by
  intro word hword
  rcases (keyword_spelling _ (List.mem_map_of_mem hword)).2 with hunderscore | ⟨hplain, hcamel, htidy⟩
  · exact .inl hunderscore
  · refine .inr ⟨hplain, ?_, ?_⟩
    · rw [camelCase, hcamel, String.ofList_toList]
    · rw [tidySnakeCase, htidy, String.ofList_toList]

theorem camelCase_mem_cppKeywords {name : String} : camelCase name ∈ cppKeywords ↔
    ∃ word ∈ cppKeywords, '_' ∉ word.toList ∧ tidySnakeCase name = word := by
  constructor
  · intro hmem
    rcases camelCase_keyword _ hmem with hunderscore | ⟨hplain, hcamel, htidy⟩
    · exact absurd hunderscore (underscore_notMem_tail_camelCase name)
    · rw [camelCase_eq_iff, htidy] at hcamel
      exact ⟨camelCase name, hmem, hplain, hcamel.symm⟩
  · rintro ⟨word, hmem, hplain, htidy⟩
    rcases camelCase_keyword _ hmem with hunderscore | ⟨_, hcamel, hword⟩
    · exact absurd (List.mem_of_mem_tail hunderscore) hplain
    · rw [(camelCase_eq_iff_of_camelCase hcamel).2 (htidy.trans hword.symm)]
      exact hmem

namespace Firmware

variable {e : Exchange}

theorem wrapperName_notMem_cppKeywords (h : Handler) : h.wrapperName ∉ cppKeywords := by
  intro hmem
  refine (keyword_spelling _ (List.mem_map_of_mem hmem)).1 ?_
  rw [Handler.wrapperName, String.toList_append, List.mem_append]
  exact .inr (by decide)

/-- Of an exchange whose name is not reserved, the handler is named by a word of the language if and only if the
snake case has the letters of the word and, besides, underscores that camel case forgets. If camel case forgets none,
it is not. The wrapper never is. -/
theorem method_name_keyword_iff (hfree : isReservedExchangeName e.name = false) :
    (camelCase e.name ∈ cppKeywords ↔ ∃ word ∈ cppKeywords, '_' ∉ word.toList ∧ tidySnakeCase e.name = word ∧
      snakeCase e.name ≠ word) ∧
    (Tidy e.name → camelCase e.name ∉ cppKeywords) ∧
    ∀ mapping h, Handler.ofExchange mapping e = .ok h → h.name = camelCase e.name ∧ h.wrapperName ∉ cppKeywords := by
  have hsnake : snakeCase e.name ∉ cppKeywords := (isReservedExchangeName_eq_false.1 hfree).2
  refine ⟨?_, fun htidy hmem => ?_, fun mapping h hok => ?_⟩
  · rw [camelCase_mem_cppKeywords]
    refine exists_congr fun word => and_congr_right fun hmem => and_congr_right fun _ => ?_
    exact ⟨fun htidy => ⟨htidy, fun heq => hsnake (heq ▸ hmem)⟩, And.left⟩
  · obtain ⟨word, hmem, _, hword⟩ := camelCase_mem_cppKeywords.1 hmem
    rw [tidy_iff.1 htidy] at hword
    exact hsnake (hword ▸ hmem)
  · rw [Handler.name, (handles_of_ofExchange hok).exchange]
    exact ⟨rfl, wrapperName_notMem_cppKeywords h⟩

end Firmware

namespace Bench

/-- An exchange whose name is a word of the language but for an underscore. -/
def int : Exchange := ⟨"int_", none, [], []⟩

/-- An exchange whose name only begins with a word of the language. -/
def intRange : Exchange := ⟨"IntRange", none, [], []⟩

end Bench

namespace Firmware

theorem method_name_keyword_range : isReservedExchangeName Bench.intRange.name = false ∧
    camelCase Bench.intRange.name = "intRange" ∧ "intRange" ∉ cppKeywords := by
  have hfree : isReservedExchangeName Bench.intRange.name = false := by decide
  have hcamel : camelCase Bench.intRange.name = "intRange" := by decide
  have hkeyword := (method_name_keyword_iff hfree).2.1 (by decide)
  rw [hcamel] at hkeyword
  exact ⟨hfree, hcamel, hkeyword⟩

/-- The name is an identifier that is not reserved, and the handler is named by a word of the language. -/
theorem method_named_by_keyword : isIdentifier Bench.int.name = true ∧ isReservedExchangeName Bench.int.name = false ∧
    camelCase Bench.int.name = "int" ∧ "int" ∈ cppKeywords ∧
    ∃ c handlers, (ContractDeclaration.empty.addExchange Bench.int.declaration).load = .ok c ∧
      Firmware.handlers c = .ok handlers ∧
      handlers.map Handler.declaration = ["    virtual void int() const = 0;\n"] := by
  have hload : (ContractDeclaration.empty.addExchange Bench.int.declaration).load =
      .ok ⟨[Bench.int], .text, ⟨.usual, ""⟩, .standard⟩ := by
    decide
  exact ⟨by decide, by decide, by decide, by decide, _, _, hload, rfl, by decide⟩

end Firmware

end SerialContract
