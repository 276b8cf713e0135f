import SerialContract.Proofs.Dialect.Rewriting
import SerialContract.Proofs.Template.Population

/-!
# Which rules are ready

A rule is rejected for a placeholder that its pattern names twice, for one of its replacement that the pattern lacks,
and for a pattern that cannot be searched for. Every other rule is ready, and what is ready turns every text.
-/

namespace SerialContract

open Template (FirstUses)

/-! ## Names that stand there twice -/

/-- Of the names in order, this is the first that has stood there before. -/
def FirstRepeat (names : List String) (name : String) : Prop :=
  ∃ before after, names = before ++ name :: after ∧ before.Nodup ∧ name ∈ before

theorem FirstRepeat.not_nodup {names : List String} {name : String} (h : FirstRepeat names name) : ¬ names.Nodup := by
  obtain ⟨before, after, rfl, _, hmem⟩ := h
  intro hnodup
  exact (List.nodup_append.1 hnodup).2.2 name hmem name List.mem_cons_self rfl

theorem firstRepeated?_eq_some {earlier names : List String} {name : String}
    (h : firstRepeated? earlier names = some name) : ∃ before after, names = before ++ name :: after ∧ before.Nodup ∧
      (∀ other ∈ before, other ∉ earlier) ∧ (name ∈ earlier ∨ name ∈ before) := by
  induction names generalizing earlier with
  | nil => cases h
  | cons other names ih =>
      rw [firstRepeated?] at h
      split at h
      · next hmem =>
        cases h
        exact ⟨[], names, rfl, List.nodup_nil, List.forall_mem_nil _, .inl hmem⟩
      · next hnew =>
        obtain ⟨before, after, rfl, hnodup, hothers, hname⟩ := ih h
        have hfresh : other ∉ before := fun hmem => hothers other hmem List.mem_cons_self
        refine ⟨other :: before, after, rfl, List.nodup_cons.2 ⟨hfresh, hnodup⟩, ?_, ?_⟩
        · exact List.forall_mem_cons.2 ⟨hnew, fun n hn hmem => hothers n hn (List.mem_cons_of_mem _ hmem)⟩
        · rw [List.mem_cons] at hname
          rw [List.mem_cons]
          tauto

theorem firstRepeat_of_firstRepeated? {names : List String} {name : String}
    (h : firstRepeated? [] names = some name) : FirstRepeat names name := by
  obtain ⟨before, after, hnames, hnodup, _, hname⟩ := firstRepeated?_eq_some h
  exact ⟨before, after, hnames, hnodup, hname.resolve_left List.not_mem_nil⟩

namespace Rule

/-! ## What a rule is rejected for -/

/-- The names of the placeholders that the pattern captures, from left to right. -/
def captured (rule : Rule) : List String :=
  (Template.markers rule.pattern).map Template.Marker.name

/-- The names of the placeholders that the replacement asks for, from left to right. -/
def wanted (rule : Rule) : List String :=
  (Template.markers rule.replacement).map Template.Marker.name

/-- The errors with which a search for a pattern is refused. -/
inductive Refuses (pattern : String) : TemplateError → Prop where
  | unusableName {m : Template.Marker} (marker : m ∈ Template.markers pattern)
      (unusable : isCaptureName m.name = false) : Refuses pattern .unusableName
  | tooLarge (size : footprintLimit < Template.footprint (Template.parts pattern)) : Refuses pattern .tooLarge

/-- What keeps a rule from being ready, or nothing. -/
inductive Judged (rule : Rule) : Option TemplateError → Prop where
  | repeated {name : String} (first : FirstRepeat rule.captured name) :
      Judged rule (some (.repeatedPlaceholder name rule.pattern))
  | uncaptured {lacking : List String} (apart : rule.captured.Nodup)
      (lacks : ∃ name ∈ rule.wanted, name ∉ rule.captured)
      (uses : FirstUses (· ∉ rule.captured) rule.wanted lacking) : Judged rule (some (.missingReplacements lacking))
  | refused {fault : TemplateError} (apart : rule.captured.Nodup) (covered : ∀ name ∈ rule.wanted, name ∈ rule.captured)
      (refuses : Refuses rule.pattern fault) : Judged rule (some fault)
  | ready (apart : rule.captured.Nodup) (covered : ∀ name ∈ rule.wanted, name ∈ rule.captured)
      (searched : ∀ fault, ¬ Refuses rule.pattern fault) : Judged rule none

theorem contains_captured {rule : Rule} {name : String} :
    (Template.names rule.pattern).contains name = true ↔ name ∈ rule.captured := by
  rw [captured, Template.map_name_markers, List.contains_iff_mem]

theorem firstUses_uncaptured (rule : Rule) : FirstUses (· ∉ rule.captured) rule.wanted
    (Template.missing (Template.names rule.pattern).contains (Template.names rule.replacement)) := by
  obtain ⟨hmem, hordered⟩ := Template.firstUses_missing (Template.names rule.pattern).contains
    (Template.names rule.replacement)
  rw [wanted, Template.map_name_markers]
  refine ⟨fun name => ?_, hordered⟩
  rw [hmem, ← contains_captured, Bool.not_eq_true]

theorem covered_of_missing_eq_nil {rule : Rule} (h : Template.missing (Template.names rule.pattern).contains
    (Template.names rule.replacement) = []) : ∀ name ∈ rule.wanted, name ∈ rule.captured := by
  intro name hname
  by_contra hlacks
  have uses := rule.firstUses_uncaptured
  rw [h] at uses
  exact List.not_mem_nil ((uses.mem_iff name).2 ⟨hname, hlacks⟩)

theorem usable_iff {rule : Rule} : (Template.names rule.pattern).all isCaptureName = true ↔
    ∀ m ∈ Template.markers rule.pattern, isCaptureName m.name = true := by
  rw [List.all_eq_true, ← Template.map_name_markers, List.forall_mem_map]

theorem judged_fault? (rule : Rule) : rule.Judged rule.fault? := by
  rw [fault?]
  split
  · next name hrepeated =>
    refine .repeated ?_
    rw [captured, Template.map_name_markers]
    exact firstRepeat_of_firstRepeated? hrepeated
  · next hnone =>
    have apart : rule.captured.Nodup := by
      rw [captured, Template.map_name_markers]
      exact (firstRepeated?_eq_none hnone).1
    split
    · next hmissing =>
      have covered := covered_of_missing_eq_nil hmissing
      split
      · next hunusable =>
        rw [Bool.not_eq_true', ← Bool.not_eq_true, usable_iff] at hunusable
        push Not at hunusable
        obtain ⟨m, hm, hunusable⟩ := hunusable
        exact .refused apart covered (.unusableName hm (eq_false_of_ne_true hunusable))
      · next husable =>
        rw [Bool.not_eq_true', Bool.not_eq_false, usable_iff] at husable
        split
        · next hsize => exact .refused apart covered (.tooLarge hsize)
        · next hsize =>
          refine .ready apart covered fun fault hrefuses => ?_
          cases hrefuses with
          | unusableName marker unusable => exact Bool.false_ne_true (unusable.symm.trans (husable _ marker))
          | tooLarge size => exact hsize size
    · next lacking hne =>
      have uses := rule.firstUses_uncaptured
      obtain ⟨name, hname⟩ := List.exists_mem_of_ne_nil _ hne
      exact .uncaptured apart ⟨name, (uses.mem_iff name).1 hname⟩ uses

/-! ## Ready or rejected -/

section Compile

variable {rule : Rule} {fault : TemplateError}

theorem compile_eq_error : rule.compile = .error fault ↔ rule.fault? = some fault := by
  rw [compile]
  cases rule.fault? <;> simp

theorem judged_of_compile (h : rule.compile = .error fault) : rule.Judged (some fault) :=
  compile_eq_error.1 h ▸ rule.judged_fault?

theorem firstRepeat_of_compile {name template : String}
    (h : rule.compile = .error (.repeatedPlaceholder name template)) :
    FirstRepeat rule.captured name ∧ template = rule.pattern := by
  cases judged_of_compile h with
  | repeated first => exact ⟨first, rfl⟩
  | refused _ _ refuses => cases refuses

theorem firstUses_of_compile {lacking : List String} (h : rule.compile = .error (.missingReplacements lacking)) :
    (∃ name ∈ rule.wanted, name ∉ rule.captured) ∧ FirstUses (· ∉ rule.captured) rule.wanted lacking := by
  cases judged_of_compile h with
  | uncaptured _ lacks uses => exact ⟨lacks, uses⟩
  | refused _ _ refuses => cases refuses

theorem refuses_of_compile (apart : rule.captured.Nodup) (covered : ∀ name ∈ rule.wanted, name ∈ rule.captured)
    (h : rule.compile = .error fault) : Refuses rule.pattern fault := by
  cases judged_of_compile h with
  | repeated first => exact absurd apart first.not_nodup
  | uncaptured _ lacks _ =>
      obtain ⟨name, hname, hlacks⟩ := lacks
      exact absurd (covered name hname) hlacks
  | refused _ _ refuses => exact refuses

theorem exists_repeated_iff :
    (∃ name template, rule.compile = .error (.repeatedPlaceholder name template)) ↔ ¬ rule.captured.Nodup := by
  constructor
  · rintro ⟨name, template, h⟩
    exact (firstRepeat_of_compile h).1.not_nodup
  · intro h
    have hjudged := rule.judged_fault?
    generalize hfault : rule.fault? = fault? at hjudged
    cases hjudged with
    | repeated _ => exact ⟨_, _, compile_eq_error.2 hfault⟩
    | uncaptured apart _ _ => exact absurd apart h
    | refused apart _ _ => exact absurd apart h
    | ready apart _ _ => exact absurd apart h

theorem exists_uncaptured_iff (apart : rule.captured.Nodup) :
    (∃ lacking, rule.compile = .error (.missingReplacements lacking)) ↔
      ∃ name ∈ rule.wanted, name ∉ rule.captured := by
  constructor
  · rintro ⟨lacking, h⟩
    exact (firstUses_of_compile h).1
  · rintro ⟨name, hname, hlacks⟩
    have hjudged := rule.judged_fault?
    generalize hfault : rule.fault? = fault? at hjudged
    cases hjudged with
    | repeated first => exact absurd apart first.not_nodup
    | uncaptured _ _ _ => exact ⟨_, compile_eq_error.2 hfault⟩
    | refused _ covered _ => exact absurd (covered name hname) hlacks
    | ready _ covered _ => exact absurd (covered name hname) hlacks

theorem exists_compile_iff : (∃ compiled, rule.compile = .ok compiled) ↔
    rule.captured.Nodup ∧ (∀ name ∈ rule.wanted, name ∈ rule.captured) ∧ ∀ fault, ¬ Refuses rule.pattern fault := by
  constructor
  · rintro ⟨compiled, h⟩
    have hjudged := rule.judged_fault?
    rw [(compile_eq_ok h).1] at hjudged
    cases hjudged with
    | ready apart covered searched => exact ⟨apart, covered, searched⟩
  · rintro ⟨apart, covered, searched⟩
    cases hcompile : rule.compile with
    | ok compiled => exact ⟨compiled, rfl⟩
    | error fault => exact absurd (refuses_of_compile apart covered hcompile) (searched fault)

end Compile

/-- A rule is rejected for the first placeholder that its pattern repeats, else for the placeholders of its
replacement that the pattern lacks, else only if the pattern cannot be searched for. A rule that is not rejected turns
every text into another, and so do the rules of a dialect. -/
theorem compile_rejects_exactly :
    (∀ rule : Rule,
      ((∃ name template, rule.compile = .error (.repeatedPlaceholder name template)) ↔ ¬ rule.captured.Nodup) ∧
      (∀ name template, rule.compile = .error (.repeatedPlaceholder name template) →
        FirstRepeat rule.captured name ∧ template = rule.pattern) ∧
      (rule.captured.Nodup → ((∃ lacking, rule.compile = .error (.missingReplacements lacking)) ↔
        ∃ name ∈ rule.wanted, name ∉ rule.captured)) ∧
      (∀ lacking, rule.compile = .error (.missingReplacements lacking) →
        FirstUses (· ∉ rule.captured) rule.wanted lacking) ∧
      (rule.captured.Nodup → (∀ name ∈ rule.wanted, name ∈ rule.captured) →
        ∀ fault, rule.compile = .error fault → Refuses rule.pattern fault) ∧
      ((∃ compiled, rule.compile = .ok compiled) ↔ rule.captured.Nodup ∧
        (∀ name ∈ rule.wanted, name ∈ rule.captured) ∧ ∀ fault, ¬ Refuses rule.pattern fault) ∧
      ∀ compiled, rule.compile = .ok compiled → ∀ text, ∃ turned, compiled.apply text = .ok turned) ∧
    ∀ (dialect : Dialect) (compiled : CompiledDialect), dialect.compile = .ok compiled →
      ∀ text, ∃ turned, compiled.apply text = .ok turned := by
  refine ⟨fun rule => ⟨exists_repeated_iff, fun _ _ => firstRepeat_of_compile, exists_uncaptured_iff,
    fun _ h => (firstUses_of_compile h).2, fun apart covered _ => refuses_of_compile apart covered,
    exists_compile_iff, ?_⟩, ?_⟩
  · intro compiled h text
    exact ⟨_, (closed_of_compile h).apply_eq text⟩
  · intro dialect compiled h
    exact Dialect.apply_of_compile h

/-- A placeholder that stands twice counts before one that the pattern lacks. -/
example : (⟨"f(\x7b\x7bx\x7d\x7d, \x7b\x7bx\x7d\x7d)", "\x7b\x7by\x7d\x7d"⟩ : Rule).compile =
    .error (.repeatedPlaceholder "x" "f(\x7b\x7bx\x7d\x7d, \x7b\x7bx\x7d\x7d)") := by decide

end Rule

end SerialContract
