import SerialContract.Proofs.Dialect.Rewriting

/-!
# Rules that change nothing

A rule whose replacement is its pattern puts back what it finds: a match is the pattern filled with what the
placeholders capture, and so is what replaces it.
-/

namespace SerialContract

namespace CompiledRule

/-- A rule that replaces a pattern by itself, in which no placeholder stands twice. -/
structure Noop (rule : CompiledRule) : Prop where
  same : rule.replacement = rule.pattern
  apart : (rule.pattern.filterMap Template.Part.name?).Nodup

variable {rule : CompiledRule}

theorem Noop.closed (h : rule.Noop) : rule.Closed := by
  intro name hname
  rwa [h.same] at hname

theorem Noop.turned_eq (h : rule.Noop) {text : List Char} :
    ∀ stretch ∈ Pattern.stretches rule.pattern text, rule.turned stretch = stretch.text := by
  intro stretch hstretch
  cases stretch with
  | kept c => rfl
  | found m =>
      obtain ⟨_, expressions, hmatch, rfl⟩ := Pattern.matchAt_of_mem_stretchesAfter hstretch
      have hapart := h.apart
      rw [← Pattern.names_of_matched hmatch] at hapart
      have hfill := Template.written_eq_fill (Pattern.length_of_matchAt hmatch) fun name captured hmem =>
        NameMap.get?_ofList_of_mem hapart hmem
      rw [turned, h.same, ← hfill]
      rfl

theorem Noop.apply_eq (h : rule.Noop) (text : String) : rule.apply text = .ok text := by
  rw [h.closed.apply_eq, List.flatMap_congr h.turned_eq, Pattern.flatMap_text_stretches, String.ofList_toList]

theorem applyAll_eq_self {rules : List CompiledRule} {text : String} (h : ∀ rule ∈ rules, rule.apply text = .ok text) :
    applyAll rules text = .ok text := by
  rw [applyAll]
  induction rules with
  | nil => rfl
  | cons rule rules ih =>
      rw [List.forall_mem_cons] at h
      rw [List.foldlM_cons, h.1]
      exact ih h.2

end CompiledRule

namespace Rule

theorem noop_of_compile {template : String} {compiled : CompiledRule}
    (h : (⟨template, template⟩ : Rule).compile = .ok compiled) : compiled.Noop := by
  have hapart := nodup_of_compile h
  obtain ⟨_, rfl⟩ := compile_eq_ok h
  exact ⟨rfl, hapart⟩

/-- Rules that replace a template by itself leave every text as it is, each for itself and one after the other. -/
theorem noop_rules_identity {noops : List CompiledRule}
    (hnoops : ∀ noop ∈ noops, ∃ template, (⟨template, template⟩ : Rule).compile = .ok noop) (text : String) :
    (∀ noop ∈ noops, noop.apply text = .ok text) ∧ CompiledRule.applyAll noops text = .ok text := by
  have hself : ∀ noop ∈ noops, noop.apply text = .ok text := by
    intro noop hnoop
    obtain ⟨template, hcompile⟩ := hnoops noop hnoop
    exact (noop_of_compile hcompile).apply_eq text
  exact ⟨hself, CompiledRule.applyAll_eq_self hself⟩

end Rule

namespace Bench

/-- A template of characters that could mean something to a search. -/
def metacharacters : String := "é.*[\x7b\x7bx\x7d\x7d](\x7b\x7by\x7d\x7d)?"

end Bench

namespace Rule

/-- The empty template, and one whose match is the whole text. -/
theorem noop_rules_identity_metacharacters : ∃ noops : List CompiledRule,
    noops.map CompiledRule.pattern = [[], Template.parts Bench.metacharacters] ∧
      (∀ noop ∈ noops, ∃ template, (⟨template, template⟩ : Rule).compile = .ok noop) ∧
      Pattern.matchAt (Template.parts Bench.metacharacters) "é.*[a+b](c (d))?".toList =
        some ["a+b".toList, "c (d)".toList] ∧
      CompiledRule.applyAll noops "é.*[a+b](c (d))?" = .ok "é.*[a+b](c (d))?" := by
  have hempty : (⟨"", ""⟩ : Rule).compile = .ok ⟨[], []⟩ := by decide
  have hmeta : (⟨Bench.metacharacters, Bench.metacharacters⟩ : Rule).compile =
      .ok ⟨Template.parts Bench.metacharacters, Template.parts Bench.metacharacters⟩ := by decide
  have hnoops : ∀ noop ∈ [⟨[], []⟩, ⟨Template.parts Bench.metacharacters, Template.parts Bench.metacharacters⟩],
      ∃ template, (⟨template, template⟩ : Rule).compile = .ok noop := by
    intro noop hnoop
    simp only [List.mem_cons, List.not_mem_nil, or_false] at hnoop
    rcases hnoop with rfl | rfl
    · exact ⟨_, hempty⟩
    · exact ⟨_, hmeta⟩
  exact ⟨_, rfl, hnoops, by decide, (noop_rules_identity hnoops _).2⟩

end Rule

end SerialContract
