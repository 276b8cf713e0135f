import SerialContract.Proofs.Dialect.Clearing
import SerialContract.Proofs.Text.Replacing

/-!
# Rules that replace words

A rule without placeholders replaces every occurrence of a word, and a rule does nothing to a text in which the
beginning of its pattern does not occur. In programs that call nothing of what the rules for Arduino boards convert,
these rules come to the replacement of two words.
-/

namespace SerialContract

open Template (Part)

namespace Pattern

theorem written_plain_append (front : List Char) (behind : List Part) (expressions : List (List Char)) :
    written (front.map .plain ++ behind) expressions = front ++ written behind expressions := by
  induction front with
  | nil => rfl
  | cons c front ih => rw [List.map_cons, List.cons_append, written, ih, List.cons_append]

theorem written_plain (word : List Char) (expressions : List (List Char)) :
    written (word.map .plain) expressions = word := by
  rw [← List.append_nil (word.map Part.plain), written_plain_append]
  exact List.append_nil word

/-- Characters at which the pattern does not fit are kept. -/
theorem replaceEvery_kept {old new kept behind : List Char}
    (h : ∀ place, place <:+ kept → place ≠ [] → ∀ others, ¬ Fits (old.map .plain) (place ++ behind) others) :
    replaceEvery old new (kept ++ behind) = kept ++ replaceEvery old new behind := by
  induction kept with
  | nil => rfl
  | cons c kept ih =>
      have hhere : ¬ old <+: c :: (kept ++ behind) := by
        rintro ⟨rest, hrest⟩
        have hfits := fits_plain old rest
        rw [hrest] at hfits
        exact h (c :: kept) List.suffix_rfl (List.cons_ne_nil _ _) [] hfits
      rw [List.cons_append, replaceEvery_cons hhere,
        ih fun place hplace => h place (hplace.trans (List.suffix_cons c kept)), List.cons_append]

theorem Found.replaceEvery_eq {old new text tail : List Char} {pieces : List Piece} (hne : old ≠ [])
    (h : Found (old.map .plain) text pieces tail) :
    replaceEvery old new text = pieces.flatMap (fun p => p.kept ++ new) ++ tail := by
  induction h with
  | @done tail hnowhere =>
      have hkept : replaceEvery old new (tail ++ []) = tail ++ replaceEvery old new [] := by
        refine replaceEvery_kept fun place hplace _ others => ?_
        rw [List.append_nil]
        exact hnowhere place hplace others
      rw [List.append_nil, replaceEvery_nil, List.append_nil] at hkept
      exact hkept
  | next hnowhere _ _ ih =>
      rw [replaceEvery_kept hnowhere, written_plain, replaceEvery_append hne, ih, List.flatMap_cons, List.append_assoc,
        List.append_assoc]

theorem Found.eq_nil_of_absent {front : List Char} {behind : List Part} {text tail : List Char}
    {pieces : List Piece} (hfront : ¬ front <:+: text) (h : Found (front.map .plain ++ behind) text pieces tail) :
    pieces = [] ∧ tail = text := by
  cases h with
  | done => exact ⟨rfl, rfl⟩
  | @next kept rest _ expressions pieces _ hgreedy _ =>
      rw [written_plain_append, List.append_assoc] at hfront
      exact absurd ((List.prefix_append front _).isInfix.trans (List.suffix_append kept _).isInfix) hfront

end Pattern

namespace CompiledRule

variable {rule : CompiledRule}

theorem rewrite_plain {old new : List Char} (hpattern : rule.pattern = old.map .plain)
    (hreplacement : rule.replacement = new.map .plain) (hne : old ≠ []) (text : List Char) :
    rule.rewrite text = replaceEvery old new text := by
  have hparts : rule.pattern ≠ [] := hpattern ▸ mt List.map_eq_nil_iff.1 hne
  obtain ⟨pieces, tail, hfound, hrewrite⟩ := exists_rewrite hparts text
  have hinsertion : ∀ p, rule.insertion p = new := by
    intro p
    rw [insertion, turned, hreplacement, Template.fill_plain]
  rw [hpattern] at hfound
  simp only [hrewrite, hinsertion, hfound.replaceEvery_eq hne]

theorem rewrite_of_absent (hne : rule.pattern ≠ []) {front : List Char} {behind : List Part}
    (hpattern : rule.pattern = front.map .plain ++ behind) {text : List Char} (h : ¬ front <:+: text) :
    rule.rewrite text = text := by
  obtain ⟨pieces, tail, hfound, hrewrite⟩ := exists_rewrite hne text
  rw [hpattern] at hfound
  obtain ⟨rfl, rfl⟩ := hfound.eq_nil_of_absent h
  exact hrewrite

/-- A pattern that begins with a word. -/
def Begins (rule : CompiledRule) (word : List Char) : Prop :=
  ∃ behind, rule.pattern = word.map .plain ++ behind

theorem rewriteAll_of_absent {rules : List CompiledRule} {text : List Char}
    (h : ∀ rule ∈ rules, rule.pattern ≠ [] ∧ ∃ word, rule.Begins word ∧ ¬ word <:+: text) :
    rewriteAll rules text = text := by
  induction rules with
  | nil => rfl
  | cons rule rules ih =>
      rw [List.forall_mem_cons] at h
      obtain ⟨hne, word, ⟨behind, hpattern⟩, hword⟩ := h.1
      rw [rewriteAll, List.foldl_cons, rewrite_of_absent hne hpattern hword]
      exact ih h.2

end CompiledRule

namespace Target

open CompiledRule

/-- The directive that includes strings, in plain C++. -/
def stringDirective : List Char :=
  ['#', 'i', 'n', 'c', 'l', 'u', 'd', 'e', ' ', '<', 's', 't', 'r', 'i', 'n', 'g', '>']

/-- The directive that includes strings, for Arduino boards. -/
def boardDirective : List Char :=
  ['#', 'i', 'n', 'c', 'l', 'u', 'd', 'e', ' ', '<', 'W', 'S', 't', 'r', 'i', 'n', 'g', '.', 'h', '>']

/-- The name of the type of strings, in plain C++. -/
def stringType : List Char := ['s', 't', 'd', ':', ':', 's', 't', 'r', 'i', 'n', 'g']

/-- The name of the type of strings, for Arduino boards. -/
def boardType : List Char := ['S', 't', 'r', 'i', 'n', 'g']

/-- How the calls begin that make numbers of strings. -/
def numberCall : List Char := ['s', 't', 'd', ':', ':', 's', 't', 'o']

/-- How the calls begin that the rules for Arduino boards convert. -/
def convertedCalls : List (List Char) := [
  numberCall,
  ['.', 's', 'u', 'b', 's', 't', 'r', '('],
  ['.', 'f', 'i', 'n', 'd', '(']]

/-- A text in which no call is converted. -/
def Uncalled (text : List Char) : Prop :=
  ∀ call ∈ convertedCalls, ¬ call <:+: text

instance (text : List Char) : Decidable (Uncalled text) :=
  inferInstanceAs (Decidable (∀ _ ∈ _, _))

/-- The text with every directive that includes strings replaced. -/
def includeReplaced (text : List Char) : List Char :=
  replaceEvery stringDirective boardDirective text

/-- The text with every name of the type of strings replaced. -/
def typeReplaced (text : List Char) : List Char :=
  replaceEvery stringType boardType text

/-- The first rule for Arduino boards. -/
def includeRule : CompiledRule := ⟨Template.parts "#include <string>", Template.parts "#include <WString.h>"⟩

/-- The rule for Arduino boards between those that convert calls. -/
def typeRule : CompiledRule := ⟨Template.parts "std::string", Template.parts "String"⟩

theorem readyRules_eq : readyRules =
    [includeRule] ++ ((readyRules.drop 1).take 3 ++ ([typeRule] ++ readyRules.drop 5)) := rfl

theorem rewrite_includeRule (text : List Char) : includeRule.rewrite text = includeReplaced text :=
  rewrite_plain (Template.parts_of_chars rfl) (Template.parts_of_chars rfl) (by decide) text

theorem rewrite_typeRule (text : List Char) : typeRule.rewrite text = typeReplaced text :=
  rewrite_plain (Template.parts_of_chars rfl) (Template.parts_of_chars rfl) (by decide) text

theorem includeRule_spares : ∀ call ∈ convertedCalls, includeRule.Spares call := by
  simp only [convertedCalls, List.forall_mem_cons]
  refine ⟨?_, ?_, ?_, List.forall_mem_nil _⟩
  · exact spares_of_split [] '#' _ (Template.parts_of_chars rfl) (by decide) (by decide) (by decide)
  · exact spares_of_split ("#include <WString.h".toList.map .plain) '>' _ (Template.parts_of_chars rfl) (by decide)
      (by decide) (by decide)
  · exact spares_of_split ("#include <WString.h".toList.map .plain) '>' _ (Template.parts_of_chars rfl) (by decide)
      (by decide) (by decide)

theorem typeRule_spares : ∀ call ∈ convertedCalls.drop 1, typeRule.Spares call := by
  simp only [convertedCalls, List.drop_succ_cons, List.drop_zero, List.forall_mem_cons]
  refine ⟨?_, ?_, List.forall_mem_nil _⟩
  all_goals exact spares_of_split [] 'S' _ (Template.parts_of_chars rfl) (by decide) (by decide) (by decide)

theorem begins_of_mem_take : ∀ rule ∈ (readyRules.drop 1).take 3, rule.Begins (convertedCalls[0]) := by
  simp only [readyRules, arduinoRules, List.map_cons, List.map_nil, List.drop_succ_cons, List.drop_zero,
    List.take_succ_cons, List.take_zero, List.forall_mem_cons]
  refine ⟨?_, ?_, ?_, List.forall_mem_nil _⟩
  all_goals exact ⟨_, Template.parts_of_chars rfl⟩

theorem begins_of_mem_drop : ∀ rule ∈ readyRules.drop 5, ∃ call ∈ convertedCalls.drop 1, rule.Begins call := by
  simp only [readyRules, arduinoRules, List.map_cons, List.map_nil, List.drop_succ_cons, List.drop_zero,
    List.forall_mem_cons]
  refine ⟨⟨convertedCalls[1], by decide, ?_⟩, ⟨convertedCalls[1], by decide, ?_⟩, ⟨convertedCalls[2], by decide, ?_⟩,
    List.forall_mem_nil _⟩
  all_goals exact ⟨_, Template.parts_of_chars rfl⟩

/-- Where no call is converted, the rules for Arduino boards replace the directive that includes strings, and then the
name of their type. -/
theorem rewriteAll_readyRules {text : List Char} (h : Uncalled text) :
    rewriteAll readyRules text = typeReplaced (includeReplaced text) := by
  have hne := pattern_ne_nil_of_mem_readyRules
  have hinclude : ∀ call ∈ convertedCalls, ¬ call <:+: includeReplaced text := by
    intro call hcall hoccurs
    rw [← rewrite_includeRule] at hoccurs
    exact h call hcall ((includeRule_spares call hcall).infix_of_rewrite (hne _ List.mem_cons_self) hoccurs)
  have htype : ∀ call ∈ convertedCalls.drop 1, ¬ call <:+: typeReplaced (includeReplaced text) := by
    intro call hcall hoccurs
    rw [← rewrite_typeRule] at hoccurs
    have hmem : typeRule ∈ readyRules := by rw [readyRules_eq]; simp
    exact hinclude call (List.mem_of_mem_drop hcall) ((typeRule_spares call hcall).infix_of_rewrite (hne _ hmem) hoccurs)
  have hconversions : rewriteAll ((readyRules.drop 1).take 3) (includeReplaced text) = includeReplaced text :=
    rewriteAll_of_absent fun rule hrule => ⟨hne rule (List.mem_of_mem_drop (List.mem_of_mem_take hrule)), _,
      begins_of_mem_take rule hrule, hinclude _ List.mem_cons_self⟩
  have hcalls : rewriteAll (readyRules.drop 5) (typeReplaced (includeReplaced text)) =
      typeReplaced (includeReplaced text) := by
    refine rewriteAll_of_absent fun rule hrule => ⟨hne rule (List.mem_of_mem_drop hrule), ?_⟩
    obtain ⟨call, hcall, hbegins⟩ := begins_of_mem_drop rule hrule
    exact ⟨_, hbegins, htype call hcall⟩
  rw [readyRules_eq, rewriteAll_append, rewriteAll_append, rewriteAll_append, rewriteAll_singleton,
    rewriteAll_singleton, rewrite_includeRule, hconversions, rewrite_typeRule, hcalls]

end Target

end SerialContract
