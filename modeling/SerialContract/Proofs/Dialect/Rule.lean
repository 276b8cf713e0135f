import SerialContract.Dialect.Dialect
import SerialContract.Proofs.NameMap
import SerialContract.Proofs.Results
import SerialContract.Proofs.Template.Lines

/-!
# Rules that are ready apply

A rule is made ready only if its replacement names no placeholder that its pattern lacks. Every match of the
pattern captures something for every placeholder of it, so that a rule which is ready turns every text into
another.
-/

namespace SerialContract

open Template (Part)

/-! ## What a match captures -/

namespace Pattern

theorem length_of_matchAt {parts : List Part} {text : List Char} {expressions : List (List Char)}
    (h : matchAt parts text = some expressions) : expressions.length = (parts.filterMap Part.name?).length := by
  induction parts generalizing text expressions with
  | nil =>
      cases h
      rfl
  | cons part parts ih =>
      cases part with
      | plain c =>
          cases text with
          | nil => cases h
          | cons d rest =>
              rw [matchAt] at h
              split at h
              · exact ih h
              · cases h
      | placeholder name =>
          rw [matchAt] at h
          obtain ⟨⟨expression, more⟩, hcapture, rfl⟩ := Option.map_eq_some_iff.1 h
          obtain ⟨_, _, rest, _, hmore⟩ := capture_eq_some hcapture
          exact congrArg Nat.succ (ih hmore)

/-- A match captures something for every placeholder of the pattern. -/
theorem names_of_matched {parts : List Part} {text : List Char} {expressions : List (List Char)}
    (h : matchAt parts text = some expressions) :
    (matched parts expressions).captures.map Prod.fst = parts.filterMap Part.name? := by
  rw [matched, List.map_fst_zip]
  rw [List.length_map, length_of_matchAt h]

theorem matchAt_of_mem_stretchesAfter {parts : List Part} {skipped : Nat} {text : List Char} {m : Match}
    (h : .found m ∈ stretchesAfter parts skipped text) :
    ∃ rest expressions, matchAt parts rest = some expressions ∧ m = matched parts expressions := by
  fun_induction stretchesAfter parts skipped text with
  | case1 => cases h
  | case2 _ _ _ ih => exact ih h
  | case3 =>
      rw [Option.mem_toList, Option.map_eq_some_iff] at h
      obtain ⟨expressions, hmatch, hfound⟩ := h
      cases hfound
      exact ⟨[], expressions, hmatch, rfl⟩
  | case4 c rest hnone ih =>
      rcases List.mem_cons.1 h with hkept | hrest
      · cases hkept
      · exact ih hrest
  | case5 c rest m' hfound hlength ih =>
      obtain ⟨expressions, hmatch, hmatched⟩ := Option.map_eq_some_iff.1 hfound
      rcases List.mem_cons.1 h with hm | hrest
      · cases hm
        exact ⟨c :: rest, expressions, hmatch, hmatched.symm⟩
      · rcases List.mem_cons.1 hrest with hkept | hrest
        · cases hkept
        · exact ih hrest
  | case6 c rest m' hfound more hlength ih =>
      obtain ⟨expressions, hmatch, hmatched⟩ := Option.map_eq_some_iff.1 hfound
      rcases List.mem_cons.1 h with hm | hrest
      · cases hm
        exact ⟨c :: rest, expressions, hmatch, hmatched.symm⟩
      · exact ih hrest

end Pattern

/-- A match is its pattern filled with what is captured. -/
theorem Template.written_eq_fill {parts : List Part} {expressions : List (List Char)}
    {replacements : Template.Replacements} (hcount : expressions.length = (parts.filterMap Part.name?).length)
    (hcaptures : ∀ name captured, (name, captured) ∈ (Pattern.matched parts expressions).captures →
      replacements.get? name = some captured) :
    Pattern.written parts expressions = Template.fill replacements parts := by
  induction parts generalizing expressions with
  | nil => rfl
  | cons part parts ih =>
      cases part with
      | plain c => exact congrArg (c :: ·) (ih hcount hcaptures)
      | placeholder name =>
          obtain ⟨expression, more, rfl⟩ := List.exists_cons_of_length_eq_add_one hcount
          have hhere := hcaptures _ _ List.mem_cons_self
          have hbehind := ih (Nat.succ.inj hcount) fun name captured hmem =>
            hcaptures name captured (List.mem_cons_of_mem _ hmem)
          rw [Pattern.written, hbehind, Template.fill, Template.fill, List.flatMap_cons, Part.filled, hhere,
            Option.getD_some, String.toList_ofList]

/-! ## Rules -/

/-- A rule whose replacement names placeholders of its pattern only. -/
def CompiledRule.Closed (rule : CompiledRule) : Prop :=
  ∀ name ∈ rule.replacement.filterMap Part.name?, name ∈ rule.pattern.filterMap Part.name?

theorem Rule.compile_eq_ok {rule : Rule} {compiled : CompiledRule} (h : rule.compile = .ok compiled) :
    rule.fault? = none ∧ compiled = ⟨Template.parts rule.pattern, Template.parts rule.replacement⟩ := by
  rw [Rule.compile] at h
  split at h
  · cases h
  · next hfault =>
    cases h
    exact ⟨hfault, rfl⟩

theorem Rule.closed_of_compile {rule : Rule} {compiled : CompiledRule} (h : rule.compile = .ok compiled) :
    compiled.Closed := by
  obtain ⟨hfault, rfl⟩ := Rule.compile_eq_ok h
  rw [Rule.fault?] at hfault
  split at hfault
  · cases hfault
  · split at hfault
    · next hmissing =>
      intro name hname
      exact List.contains_iff_mem.1 (Template.missing_eq_nil.1 hmissing name hname)
    · cases hfault

namespace CompiledRule

variable {rule : CompiledRule}

/-- A match captures what the replacement asks for. -/
theorem Closed.contains_captures (h : rule.Closed) {text : List Char} {expressions : List (List Char)}
    (hmatch : Pattern.matchAt rule.pattern text = some expressions) :
    ∀ name ∈ rule.replacement.filterMap Part.name?,
      (NameMap.ofList (Pattern.matched rule.pattern expressions).captures).contains name = true := by
  intro name hname
  rw [NameMap.contains_ofList, Pattern.names_of_matched hmatch]
  exact h name hname

/-- What a stretch of a text becomes where the replacement has no placeholder that captures nothing. -/
def turned (rule : CompiledRule) : Pattern.Stretch → List Char
  | .kept c => [c]
  | .found m => Template.fill (NameMap.ofList m.captures) rule.replacement

theorem Closed.apply_eq (h : rule.Closed) (text : String) :
    rule.apply text = .ok (String.ofList ((Pattern.stretches rule.pattern text.toList).flatMap rule.turned)) := by
  have hpieces : ∀ stretch ∈ Pattern.stretches rule.pattern text.toList,
      rule.replaced stretch = .ok (rule.turned stretch) := by
    intro stretch hstretch
    cases stretch with
    | kept c => rfl
    | found m =>
        obtain ⟨_, expressions, hmatch, rfl⟩ := Pattern.matchAt_of_mem_stretchesAfter hstretch
        rw [replaced, Template.populateParts_eq_ok (h.contains_captures hmatch)]
        rfl
  rw [CompiledRule.apply, Pattern.search_eq, mapM_eq_ok_map hpieces]
  rfl

theorem applyAll_eq_ok {rules : List CompiledRule} (h : ∀ rule ∈ rules, rule.Closed) (text : String) :
    ∃ turned, applyAll rules text = .ok turned := by
  rw [applyAll]
  induction rules generalizing text with
  | nil => exact ⟨text, rfl⟩
  | cons rule rules ih =>
      rw [List.forall_mem_cons] at h
      obtain ⟨turned, hturned⟩ := ih h.2 _
      exact ⟨turned, by rw [List.foldlM_cons, h.1.apply_eq]; exact hturned⟩

end CompiledRule

/-- A dialect that is ready turns every text. -/
theorem Dialect.apply_of_compile {dialect : Dialect} {compiled : CompiledDialect} (h : dialect.compile = .ok compiled)
    (text : String) : ∃ turned, compiled.apply text = .ok turned := by
  rw [Dialect.compile] at h
  cases hrules : dialect.rules.mapM Rule.compile with
  | error fault =>
      rw [hrules] at h
      cases h
  | ok rules =>
      rw [hrules] at h
      cases h
      refine CompiledRule.applyAll_eq_ok (fun rule hrule => ?_) text
      obtain ⟨_, _, hcompiled⟩ := exists_left_of_forall₂ (mapM_eq_ok_iff.1 hrules) hrule
      exact Rule.closed_of_compile hcompiled

end SerialContract
