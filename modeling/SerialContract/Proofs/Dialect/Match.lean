import Mathlib.Data.List.Basic
import SerialContract.Dialect.Pattern

/-!
# What a pattern matches

A pattern matches a text whose placeholders can capture expressions of it. Of all ways to do so the
greedy one is found: the first placeholder captures as much as it can, then the second, and so on.
-/

namespace SerialContract.Pattern

open Template (Part)

/-- One or more of the characters that are captured. -/
def IsExpression (expression : List Char) : Prop :=
  expression ≠ [] ∧ ∀ c ∈ expression, isExpressionChar c = true

/-- Expressions that the placeholders of a pattern can capture at the front of a text. -/
structure Fits (parts : List Part) (text : List Char) (expressions : List (List Char)) : Prop where
  count : expressions.length = (parts.filterMap Part.name?).length
  each : ∀ expression ∈ expressions, IsExpression expression
  front : written parts expressions <+: text

/-- Of the expressions that fit those whose lengths come last in the order of dictionaries. -/
structure Greedy (parts : List Part) (text : List Char) (expressions : List (List Char)) : Prop where
  fits : Fits parts text expressions
  longest : ∀ others, Fits parts text others → others ≠ expressions →
    List.Lex (· < ·) (others.map List.length) (expressions.map List.length)

/-! ## Expressions that fit, part by part -/

section Parts

variable {parts : List Part} {text : List Char} {expressions : List (List Char)}

theorem fits_nil : Fits [] text expressions ↔ expressions = [] := by
  constructor
  · intro h
    exact List.eq_nil_of_length_eq_zero h.count
  · rintro rfl
    exact ⟨rfl, List.forall_mem_nil _, List.nil_prefix⟩

theorem not_fits_plain_nil {c : Char} : ¬ Fits (.plain c :: parts) [] expressions := by
  intro h
  cases List.prefix_nil.1 h.front

theorem fits_plain_cons {c d : Char} :
    Fits (.plain c :: parts) (d :: text) expressions ↔ c = d ∧ Fits parts text expressions := by
  constructor
  · intro h
    obtain ⟨hsame, hfront⟩ := List.cons_prefix_cons.1 h.front
    exact ⟨hsame, h.count, h.each, hfront⟩
  · rintro ⟨hsame, h⟩
    exact ⟨h.count, h.each, List.cons_prefix_cons.2 ⟨hsame, h.front⟩⟩

theorem fits_placeholder {name : List Char} : Fits (.placeholder name :: parts) text expressions ↔
    ∃ expression rest more, expressions = expression :: more ∧ text = expression ++ rest ∧
      IsExpression expression ∧ Fits parts rest more := by
  constructor
  · intro h
    obtain ⟨expression, more, rfl⟩ := List.exists_cons_of_length_eq_add_one h.count
    obtain ⟨rest, rfl⟩ := (List.prefix_append _ _).trans h.front
    obtain ⟨hfirst, hmore⟩ := List.forall_mem_cons.1 h.each
    exact ⟨expression, rest, more, rfl, rfl, hfirst, Nat.succ.inj h.count, hmore,
      (List.prefix_append_right_inj expression).1 h.front⟩
  · rintro ⟨expression, rest, more, rfl, rfl, hfirst, h⟩
    exact ⟨congrArg Nat.succ h.count, List.forall_mem_cons.2 ⟨hfirst, h.each⟩,
      (List.prefix_append_right_inj expression).2 h.front⟩

end Parts

/-! ## Captures -/

section Captures

variable {α : Type} {next : List Char → Option α} {text expression rest : List Char}

theorem IsExpression.of_cons {c : Char} (h : IsExpression (c :: expression)) (hne : expression ≠ []) :
    IsExpression expression :=
  ⟨hne, (List.forall_mem_cons.1 h.2).2⟩

theorem isExpression_singleton {c : Char} (h : isExpressionChar c = true) : IsExpression [c] :=
  ⟨List.cons_ne_nil c [], List.forall_mem_singleton.2 h⟩

theorem IsExpression.cons {c : Char} (hc : isExpressionChar c = true) (h : IsExpression expression) :
    IsExpression (c :: expression) :=
  ⟨List.cons_ne_nil c expression, List.forall_mem_cons.2 ⟨hc, h.2⟩⟩

/-- Nothing is captured if and only if `next` succeeds behind no expression. -/
theorem capture_eq_none : capture next text = none ↔
    ∀ expression rest, IsExpression expression → text = expression ++ rest → next rest = none := by
  induction text with
  | nil =>
      constructor
      · intro _ expression rest hexpression heq
        exact absurd (List.append_eq_nil_iff.1 heq.symm).1 hexpression.1
      · intro _
        rfl
  | cons c text ih =>
      rw [capture]
      by_cases hc : isExpressionChar c = true
      · rw [if_pos hc]
        constructor
        · intro h expression rest hexpression heq
          obtain ⟨d, expression, rfl⟩ := List.exists_cons_of_ne_nil hexpression.1
          rw [List.cons_append, List.cons.injEq] at heq
          obtain ⟨rfl, rfl⟩ := heq
          cases hlonger : capture next (expression ++ rest) with
          | some captured =>
              rw [hlonger] at h
              cases h
          | none =>
              rw [hlonger] at h
              cases expression with
              | nil => exact Option.map_eq_none_iff.1 h
              | cons e expression => exact ih.1 hlonger _ _ (hexpression.of_cons (List.cons_ne_nil _ _)) rfl
        · intro h
          have hlonger : capture next text = none := ih.2 fun expression rest hexpression heq =>
            h (c :: expression) rest (hexpression.cons hc) (congrArg (c :: ·) heq)
          rw [hlonger, h [c] text (isExpression_singleton hc) rfl]
          rfl
      · rw [if_neg hc]
        refine ⟨fun _ expression rest hexpression heq => ?_, fun _ => rfl⟩
        obtain ⟨d, expression, rfl⟩ := List.exists_cons_of_ne_nil hexpression.1
        obtain ⟨rfl, _⟩ := List.cons.inj heq
        exact absurd (hexpression.2 c List.mem_cons_self) hc

/-- What is captured is at least as long as every expression behind which `next` succeeds. -/
theorem length_le_of_capture {captured : List Char} {result : α} (h : capture next text = some (captured, result))
    (hexpression : IsExpression expression) (htext : text = expression ++ rest) (hnext : next rest ≠ none) :
    expression.length ≤ captured.length := by
  induction text generalizing expression captured with
  | nil => cases h
  | cons c text ih =>
      obtain ⟨d, expression, rfl⟩ := List.exists_cons_of_ne_nil hexpression.1
      rw [List.cons_append, List.cons.injEq] at htext
      obtain ⟨rfl, rfl⟩ := htext
      rw [capture, if_pos (hexpression.2 c List.mem_cons_self)] at h
      cases hlonger : capture next (expression ++ rest) with
      | some longer =>
          rw [hlonger] at h
          cases h
          cases expression with
          | nil => exact Nat.succ_le_succ (Nat.zero_le _)
          | cons e expression =>
              exact Nat.succ_le_succ (ih hlonger (hexpression.of_cons (List.cons_ne_nil _ _)) rfl)
      | none =>
          rw [hlonger] at h
          obtain ⟨_, _, hcaptured⟩ := Option.map_eq_some_iff.1 h
          cases hcaptured
          cases expression with
          | nil => exact Nat.le_refl _
          | cons e expression =>
              have hnone := capture_eq_none.1 hlonger _ _ (hexpression.of_cons (List.cons_ne_nil _ _)) rfl
              exact absurd hnone hnext

end Captures

/-! ## What is found -/

theorem matchAt_eq_none {parts : List Part} {text : List Char} :
    matchAt parts text = none ↔ ∀ expressions, ¬ Fits parts text expressions := by
  induction parts generalizing text with
  | nil => exact ⟨fun h => (by cases h), fun h => absurd (fits_nil.2 rfl) (h [])⟩
  | cons part parts ih =>
      cases part with
      | plain c =>
          cases text with
          | nil => exact ⟨fun _ _ => not_fits_plain_nil, fun _ => rfl⟩
          | cons d text =>
              rw [matchAt]
              by_cases hsame : c = d
              · rw [if_pos hsame, ih]
                simp only [fits_plain_cons, hsame, true_and]
              · rw [if_neg hsame]
                simp only [fits_plain_cons, hsame, false_and, not_false_eq_true, implies_true]
      | placeholder name =>
          rw [matchAt, Option.map_eq_none_iff, capture_eq_none]
          simp only [ih, fits_placeholder]
          constructor
          · rintro h _ ⟨expression, rest, more, rfl, htext, hexpression, hfits⟩
            exact h expression rest hexpression htext more hfits
          · intro h expression rest hexpression htext more hfits
            exact h _ ⟨expression, rest, more, rfl, htext, hexpression, hfits⟩

theorem fits_of_matchAt {parts : List Part} {text : List Char} {expressions : List (List Char)}
    (h : matchAt parts text = some expressions) : Fits parts text expressions := by
  induction parts generalizing text expressions with
  | nil =>
      cases h
      exact fits_nil.2 rfl
  | cons part parts ih =>
      cases part with
      | plain c =>
          cases text with
          | nil => cases h
          | cons d text =>
              rw [matchAt] at h
              split at h
              · next hsame => exact fits_plain_cons.2 ⟨hsame, ih h⟩
              · cases h
      | placeholder name =>
          rw [matchAt] at h
          obtain ⟨⟨expression, more⟩, hcapture, rfl⟩ := Option.map_eq_some_iff.1 h
          obtain ⟨hne, hall, rest, htext, hmore⟩ := capture_eq_some hcapture
          exact fits_placeholder.2
            ⟨expression, rest, more, rfl, htext, ⟨hne, List.all_eq_true.1 hall⟩, ih hmore⟩

theorem longest_of_matchAt {parts : List Part} {text : List Char} {expressions others : List (List Char)}
    (h : matchAt parts text = some expressions) (hothers : Fits parts text others) (hne : others ≠ expressions) :
    List.Lex (· < ·) (others.map List.length) (expressions.map List.length) := by
  induction parts generalizing text expressions others with
  | nil =>
      cases h
      exact absurd (fits_nil.1 hothers) hne
  | cons part parts ih =>
      cases part with
      | plain c =>
          cases text with
          | nil => cases h
          | cons d text =>
              rw [matchAt] at h
              split at h
              · exact ih h (fits_plain_cons.1 hothers).2 hne
              · cases h
      | placeholder name =>
          rw [matchAt] at h
          obtain ⟨⟨captured, found⟩, hcapture, rfl⟩ := Option.map_eq_some_iff.1 h
          obtain ⟨expression, rest, more, rfl, htext, hexpression, hmore⟩ := fits_placeholder.1 hothers
          obtain ⟨_, _, behind, hbehind, hfound⟩ := capture_eq_some hcapture
          have hnext : matchAt parts rest ≠ none := fun hnone => matchAt_eq_none.1 hnone more hmore
          rw [List.map_cons, List.map_cons, List.cons_lex_cons_iff]
          rcases Nat.lt_or_eq_of_le (length_le_of_capture hcapture hexpression htext hnext) with hlt | heq
          · exact .inl hlt
          · -- expressions of the same length at one place are the same, and so are the texts behind them
            obtain ⟨rfl, rfl⟩ := List.append_inj (htext.symm.trans hbehind) heq
            exact .inr ⟨rfl, ih hfound hmore fun hsame => hne (by rw [hsame])⟩

/-- The greedy expressions are found, and nothing else. -/
theorem matchAt_eq_some {parts : List Part} {text : List Char} {expressions : List (List Char)} :
    matchAt parts text = some expressions ↔ Greedy parts text expressions := by
  constructor
  · intro h
    exact ⟨fits_of_matchAt h, fun _ => longest_of_matchAt h⟩
  · intro h
    obtain ⟨found, hfound⟩ := Option.ne_none_iff_exists'.1 fun hnone => matchAt_eq_none.1 hnone expressions h.fits
    by_cases hsame : found = expressions
    · rw [hfound, hsame]
    · have hlonger := h.longest found (fits_of_matchAt hfound) hsame
      have hshorter := longest_of_matchAt hfound h.fits (Ne.symm hsame)
      exact absurd hshorter (List.lex_asymm Nat.lt_asymm hlonger)

end SerialContract.Pattern
