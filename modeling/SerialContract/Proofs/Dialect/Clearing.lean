import SerialContract.Proofs.Dialect.Parentheses
import SerialContract.Proofs.Text.Apart

/-!
# Words that rules clear away

A rule whose pattern is a word replaces every occurrence of it, and none comes back where the replacement meets what
is kept, if the word keeps clear of the replacement. What is captured consists of the characters of expressions, so
that this can be told of replacements with placeholders too.
-/

namespace SerialContract

open Template (Part)

/-! ## Characters of filled templates -/

namespace NameMap

theorem mem_of_get?_insertAll {α : Type} {map : NameMap α} {entries : List (String × α)} {name : String} {value : α}
    (h : (map.insertAll entries).get? name = some value) : map.get? name = some value ∨ (name, value) ∈ entries := by
  induction entries generalizing map with
  | nil => exact .inl h
  | cons entry rest ih =>
      rw [insertAll_cons] at h
      rcases ih h with hfirst | hrest
      · rw [get?_insert] at hfirst
        split at hfirst
        · next heq =>
          cases hfirst
          exact .inr (heq ▸ List.mem_cons_self)
        · exact .inl hfirst
      · exact .inr (List.mem_cons_of_mem _ hrest)

theorem mem_of_get?_ofList {α : Type} {entries : List (String × α)} {name : String} {value : α}
    (h : (ofList entries).get? name = some value) : (name, value) ∈ entries :=
  (mem_of_get?_insertAll h).resolve_left (by simp)

end NameMap

namespace Template

/-- What stands in the place of every placeholder consists of characters of expressions. -/
def Expressive (replacements : Replacements) : Prop :=
  ∀ name value, replacements.get? name = some value → ∀ c ∈ value.toList, isExpressionChar c = true

theorem expressive_captures {parts : List Part} {expressions : List (List Char)}
    (h : ∀ expression ∈ expressions, Pattern.IsExpression expression) :
    Expressive (.ofList (Pattern.matched parts expressions).captures) := by
  intro name value hvalue c hc
  have hmem := (List.of_mem_zip (NameMap.mem_of_get?_ofList hvalue)).2
  obtain ⟨expression, hexpression, rfl⟩ := List.mem_map.1 hmem
  rw [String.toList_ofList] at hc
  exact (h expression hexpression).2 c hc

/-- Whether a part filled with an expression may hold a character. -/
def Part.mayHold (c : Char) : Part → Bool
  | .plain d => c == d
  | .placeholder _ => isExpressionChar c

theorem any_mayHold_of_mem_fill {replacements : Replacements} (hexpressive : Expressive replacements)
    {parts : List Part} {c : Char} (h : c ∈ fill replacements parts) : parts.any (Part.mayHold c) = true := by
  obtain ⟨part, hpart, hc⟩ := List.mem_flatMap.1 h
  refine List.any_eq_true.2 ⟨part, hpart, ?_⟩
  cases part with
  | plain d => exact beq_iff_eq.2 (List.mem_singleton.1 hc)
  | placeholder name =>
      rw [Part.filled] at hc
      cases hget : replacements.get? (String.ofList name) with
      | none => simp [hget] at hc
      | some value =>
          rw [hget, Option.getD_some] at hc
          exact hexpressive _ value hget c hc

end Template

/-! ## What replacements keep clear of -/

namespace CompiledRule

variable {rule : CompiledRule} {word : List Char}

/-- The word keeps clear of the replacement, whatever is captured. -/
def Spares (rule : CompiledRule) (word : List Char) : Prop :=
  ∀ replacements, Template.Expressive replacements → Apart word (Template.fill replacements rule.replacement)

theorem spares_of_split (front : List Part) (c : Char) (back : List Part)
    (hreplacement : rule.replacement = front ++ .plain c :: back) (hc : c ∉ word)
    (hlast : (word.getLast?.any fun d => front.any (Part.mayHold d)) = false)
    (hfirst : (word.head?.any fun d => back.any (Part.mayHold d)) = false) : rule.Spares word := by
  intro replacements hexpressive
  have hfill : Template.fill replacements rule.replacement =
      Template.fill replacements front ++ c :: Template.fill replacements back := by
    rw [hreplacement, Template.fill_append]
    rfl
  rw [hfill]
  refine apart_of_split hc (fun d hd hmem => ?_) (fun d hd hmem => ?_)
  · have hheld := Template.any_mayHold_of_mem_fill hexpressive hmem
    rw [Option.mem_def.1 hd, Option.any_some, hheld] at hlast
    cases hlast
  · have hheld := Template.any_mayHold_of_mem_fill hexpressive hmem
    rw [Option.mem_def.1 hd, Option.any_some, hheld] at hfirst
    cases hfirst

/-- The replacement begins and ends with characters that the word lacks, and lacks one of the word between them. -/
theorem spares_of_enclosed (c : Char) (middle : List Part) (d : Char)
    (hreplacement : rule.replacement = .plain c :: (middle ++ [.plain d])) (hc : c ∉ word) (hd : d ∉ word) (e : Char)
    (he : e ∈ word) (hmiddle : middle.any (Part.mayHold e) = false) : rule.Spares word := by
  intro replacements hexpressive
  have hfill : Template.fill replacements rule.replacement =
      c :: (Template.fill replacements middle ++ [d]) := by
    rw [hreplacement, Template.fill, List.flatMap_cons, ← Template.fill, Template.fill_append]
    rfl
  rw [hfill]
  refine apart_of_enclosed hc hd fun hoccurs => ?_
  rw [Template.any_mayHold_of_mem_fill hexpressive (hoccurs.subset he)] at hmiddle
  cases hmiddle

end CompiledRule

/-! ## Where words stand in what rules make of a text -/

namespace Pattern

variable {parts : List Part} {word : List Char}

/-- A word that keeps clear of what stands between kept characters stands in kept characters. -/
theorem exists_kept_of_infix {insertion : Piece → List Char} {pieces : List Piece} {tail : List Char}
    (hapart : ∀ p ∈ pieces, Apart word (insertion p))
    (h : word <:+: pieces.flatMap (fun p => p.kept ++ insertion p) ++ tail) :
    (∃ p ∈ pieces, word <:+: p.kept) ∨ word <:+: tail := by
  induction pieces with
  | nil => exact .inr h
  | cons p pieces ih =>
      rw [List.forall_mem_cons] at hapart
      rw [List.flatMap_cons, List.append_assoc, List.append_assoc] at h
      rcases hapart.1 _ _ h with hkept | hlater
      · exact .inl ⟨p, List.mem_cons_self, hkept⟩
      · refine (ih hapart.2 hlater).imp_left ?_
        rintro ⟨q, hq, hkept⟩
        exact ⟨q, List.mem_cons_of_mem _ hq, hkept⟩

theorem infix_of_mem_pieces {pieces : List Piece} {p : Piece} (hp : p ∈ pieces) (tail : List Char) :
    p.kept <:+: pieces.flatMap (Piece.covered parts) ++ tail := by
  have hcovered : Piece.covered parts p <:+: pieces.flatMap (Piece.covered parts) := by
    obtain ⟨front, back, rfl⟩ := List.append_of_mem hp
    rw [List.flatMap_append, List.flatMap_cons]
    exact List.infix_append' _ _ _
  exact ((List.prefix_append _ _).isInfix.trans hcovered).trans (List.prefix_append _ _).isInfix

theorem fits_plain (word rest : List Char) : Fits (word.map .plain) (word ++ rest) [] := by
  induction word with
  | nil => exact fits_nil.2 rfl
  | cons c word ih => exact fits_plain_cons.2 ⟨rfl, ih⟩

/-- No word stands in characters at which its pattern does not fit. -/
theorem Found.absent {text tail : List Char} {pieces : List Piece} (hne : word ≠ [])
    (h : Found (word.map .plain) text pieces tail) : (∀ p ∈ pieces, ¬ word <:+: p.kept) ∧ ¬ word <:+: tail := by
  induction h with
  | done hnowhere =>
      refine ⟨List.forall_mem_nil _, ?_⟩
      rintro ⟨before, after, rfl⟩
      have hsuffix : word ++ after <:+ before ++ word ++ after := ⟨before, (List.append_assoc _ _ _).symm⟩
      exact hnowhere _ hsuffix [] (fits_plain word after)
  | @next kept rest tail expressions pieces hnowhere _ _ ih =>
      refine ⟨List.forall_mem_cons.2 ⟨?_, ih.1⟩, ih.2⟩
      rintro ⟨before, after, rfl⟩
      have hsuffix : word ++ after <:+ before ++ word ++ after := ⟨before, (List.append_assoc _ _ _).symm⟩
      have hfits := fits_plain word (after ++ (written (word.map .plain) expressions ++ rest))
      rw [← List.append_assoc] at hfits
      exact hnowhere _ hsuffix (List.append_ne_nil_of_left_ne_nil hne _) [] hfits

end Pattern

namespace CompiledRule

open Pattern (Piece Found)

variable {rule : CompiledRule} {word : List Char}

/-- What a match becomes. -/
def insertion (rule : CompiledRule) (p : Piece) : List Char :=
  rule.turned (.found (Pattern.matched rule.pattern p.expressions))

theorem exists_rewrite (hne : rule.pattern ≠ []) (text : List Char) : ∃ pieces tail,
    Found rule.pattern text pieces tail ∧
      rule.rewrite text = pieces.flatMap (fun p => p.kept ++ rule.insertion p) ++ tail := by
  obtain ⟨pieces, tail, hfound, hstretches⟩ := Pattern.exists_found hne text
  have hkept : ∀ chars : List Char, (chars.map .kept).flatMap rule.turned = chars := by
    intro chars
    rw [List.flatMap_map]
    exact List.flatMap_singleton' chars
  have hpiece : ∀ p : Piece, (Piece.stretches rule.pattern p).flatMap rule.turned = p.kept ++ rule.insertion p := by
    intro p
    rw [Piece.stretches, List.flatMap_append, hkept, List.flatMap_singleton, insertion]
  refine ⟨pieces, tail, hfound, ?_⟩
  rw [rewrite, hstretches, List.flatMap_append, List.flatMap_assoc, hkept]
  simp only [hpiece]

theorem Spares.apart (h : rule.Spares word) {text tail : List Char} {pieces : List Piece}
    (hfound : Found rule.pattern text pieces tail) : ∀ p ∈ pieces, Apart word (rule.insertion p) := by
  intro p hp
  obtain ⟨_, hgreedy⟩ := hfound.greedy p hp
  exact h _ (Template.expressive_captures hgreedy.fits.each)

/-- A rule that spares a word does not bring it into a text. -/
theorem Spares.infix_of_rewrite (h : rule.Spares word) (hne : rule.pattern ≠ []) {text : List Char}
    (hoccurs : word <:+: rule.rewrite text) : word <:+: text := by
  obtain ⟨pieces, tail, hfound, hrewrite⟩ := exists_rewrite hne text
  rw [hrewrite] at hoccurs
  rw [hfound.text_eq]
  rcases Pattern.exists_kept_of_infix (h.apart hfound) hoccurs with ⟨p, hp, hkept⟩ | htail
  · exact hkept.trans (Pattern.infix_of_mem_pieces hp tail)
  · exact htail.trans (List.suffix_append _ _).isInfix

/-- A rule that spares its own pattern leaves nothing of it. -/
theorem Spares.absent_rewrite (h : rule.Spares word) (hpattern : rule.pattern = word.map .plain) (hne : word ≠ [])
    (text : List Char) : ¬ word <:+: rule.rewrite text := by
  intro hoccurs
  have hparts : rule.pattern ≠ [] := hpattern ▸ mt List.map_eq_nil_iff.1 hne
  obtain ⟨pieces, tail, hfound, hrewrite⟩ := exists_rewrite hparts text
  rw [hrewrite] at hoccurs
  have happart := h.apart hfound
  rw [hpattern] at hfound
  obtain ⟨hkept, htail⟩ := hfound.absent hne
  rcases Pattern.exists_kept_of_infix happart hoccurs with ⟨p, hp, hoccurs⟩ | hoccurs
  · exact hkept p hp hoccurs
  · exact htail hoccurs

/-! ## Rules in order -/

/-- A text rewritten by one rule after the other. -/
def rewriteAll (rules : List CompiledRule) (text : List Char) : List Char :=
  rules.foldl (fun text rule => rule.rewrite text) text

theorem rewriteAll_append (front back : List CompiledRule) (text : List Char) :
    rewriteAll (front ++ back) text = rewriteAll back (rewriteAll front text) :=
  List.foldl_append

theorem rewriteAll_singleton (rule : CompiledRule) (text : List Char) : rewriteAll [rule] text = rule.rewrite text :=
  rfl

theorem applyAll_eq {rules : List CompiledRule} (h : ∀ rule ∈ rules, rule.Closed) (text : String) :
    applyAll rules text = .ok (String.ofList (rewriteAll rules text.toList)) := by
  induction rules generalizing text with
  | nil =>
      rw [rewriteAll, List.foldl_nil, String.ofList_toList]
      rfl
  | cons rule rules ih =>
      rw [List.forall_mem_cons] at h
      have happly : rule.apply text = .ok (String.ofList (rule.rewrite text.toList)) := h.1.apply_eq text
      have hrest := ih h.2 (String.ofList (rule.rewrite text.toList))
      rw [String.toList_ofList] at hrest
      rw [applyAll, List.foldlM_cons, happly]
      exact hrest

theorem infix_of_rewriteAll {rules : List CompiledRule}
    (h : ∀ rule ∈ rules, rule.pattern ≠ [] ∧ rule.Spares word) {text : List Char}
    (hoccurs : word <:+: rewriteAll rules text) : word <:+: text := by
  induction rules generalizing text with
  | nil => exact hoccurs
  | cons rule rules ih =>
      rw [List.forall_mem_cons] at h
      exact h.1.2.infix_of_rewrite h.1.1 (ih h.2 hoccurs)

/-- A word that one rule replaces and no rule from there on brings in is gone. -/
theorem not_infix_rewriteAll {front back : List CompiledRule} (hpattern : rule.pattern = word.map .plain)
    (hne : word ≠ []) (h : ∀ other ∈ rule :: back, other.pattern ≠ [] ∧ other.Spares word) (text : List Char) :
    ¬ word <:+: rewriteAll (front ++ rule :: back) text := by
  rw [List.forall_mem_cons] at h
  rw [← List.singleton_append, rewriteAll_append, rewriteAll_append, rewriteAll_singleton]
  exact fun hoccurs => h.1.2.absent_rewrite hpattern hne _ (infix_of_rewriteAll h.2 hoccurs)

end CompiledRule

namespace Template

theorem parts_ne_nil {text : String} (h : text ≠ "") : parts text ≠ [] := by
  intro hnil
  have hspelling := flatMap_spelling_parts text
  rw [hnil] at hspelling
  exact h (String.toList_eq_nil_iff.1 hspelling.symm)

end Template

/-! ## The rules for Arduino boards -/

namespace Target

open CompiledRule

theorem closed_of_mem_readyRules : ∀ rule ∈ readyRules, rule.Closed :=
  fun rule hrule => (orderly_of_mem_readyRules rule hrule).closed

theorem pattern_ne_nil_of_mem_readyRules : ∀ rule ∈ readyRules, rule.pattern ≠ [] := by
  have hne : ∀ rule ∈ arduinoRules, rule.pattern ≠ "" := by decide
  intro ready hready
  obtain ⟨rule, hrule, rfl⟩ := List.mem_map.1 hready
  exact Template.parts_ne_nil (hne rule hrule)

/-- No expression begins or ends the directive, and every replacement has a character that it lacks. -/
theorem spares_include : ∀ rule ∈ readyRules, rule.Spares "#include <string>".toList := by
  simp only [readyRules, arduinoRules, List.map_cons, List.map_nil, List.forall_mem_cons]
  refine ⟨?_, ?_, ?_, ?_, ?_, ?_, ?_, ?_, List.forall_mem_nil _⟩
  · exact spares_of_split ("#include <".toList.map .plain) 'W' _ (Template.parts_of_chars rfl) (by decide)
      (by decide) (by decide)
  · exact spares_of_split [.placeholder "expr".toList] '.' _ (Template.parts_of_chars rfl) (by decide) (by decide)
      (by decide)
  · exact spares_of_split [.placeholder "expr".toList] '.' _ (Template.parts_of_chars rfl) (by decide) (by decide)
      (by decide)
  · exact spares_of_split [.placeholder "expr".toList] '.' _ (Template.parts_of_chars rfl) (by decide) (by decide)
      (by decide)
  · exact spares_of_split [] 'S' _ (Template.parts_of_chars rfl) (by decide) (by decide) (by decide)
  · exact spares_of_split [] '.' _ (Template.parts_of_chars rfl) (by decide) (by decide) (by decide)
  · exact spares_of_split [] '.' _ (Template.parts_of_chars rfl) (by decide) (by decide) (by decide)
  · exact spares_of_split [] '.' _ (Template.parts_of_chars rfl) (by decide) (by decide) (by decide)

/-- The calls with expressions begin with a point and end with a parenthesis, and no colon stands between them. -/
theorem spares_string : ∀ rule ∈ readyRules.drop 4, rule.Spares "std::string".toList := by
  simp only [readyRules, arduinoRules, List.map_cons, List.map_nil, List.drop_succ_cons, List.drop_zero,
    List.forall_mem_cons]
  refine ⟨?_, ?_, ?_, ?_, List.forall_mem_nil _⟩
  · exact spares_of_split [] 'S' _ (Template.parts_of_chars rfl) (by decide) (by decide) (by decide)
  · exact spares_of_enclosed '.' ("substring(".toList.map .plain ++ .placeholder "expr1".toList ::
      (", ".toList.map .plain ++ .placeholder "expr1".toList :: (" + ".toList.map .plain ++
        [.placeholder "expr2".toList]))) ')' (by decide +kernel) (by decide) (by decide) ':' (by decide) (by decide +kernel)
  · exact spares_of_enclosed '.' ("substring(".toList.map .plain ++ [.placeholder "expr".toList]) ')'
      (by decide +kernel) (by decide) (by decide) ':' (by decide) (by decide)
  · exact spares_of_split [] '.' _ (Template.parts_of_chars rfl) (by decide) (by decide) (by decide)

theorem spares_find : ∀ rule ∈ readyRules.drop 7, rule.Spares ".find(".toList := by
  simp only [readyRules, arduinoRules, List.map_cons, List.map_nil, List.drop_succ_cons, List.drop_zero,
    List.forall_mem_cons]
  refine ⟨?_, List.forall_mem_nil _⟩
  exact spares_of_split (".index".toList.map .plain) 'O' _ (Template.parts_of_chars rfl) (by decide) (by decide)
    (by decide)

/-- A word that is the pattern of a rule and that the rules from there on spare is gone from what they make of a
text. -/
theorem not_infix_of_spares (position : Nat) {word replacement : String}
    (hrule : arduinoRules[position]? = some ⟨word, replacement⟩)
    (hparts : Template.parts word = word.toList.map .plain) (hne : word ≠ "")
    (hspares : ∀ rule ∈ readyRules.drop position, rule.Spares word.toList) (text : List Char) :
    ¬ word.toList <:+: rewriteAll readyRules text := by
  have hready : readyRules[position]? = some ⟨Template.parts word, Template.parts replacement⟩ := by
    rw [readyRules, List.getElem?_map, hrule]
    rfl
  obtain ⟨hlt, hget⟩ := List.getElem?_eq_some_iff.1 hready
  have hdrop := List.drop_eq_getElem_cons hlt
  rw [hget] at hdrop
  have hsplit := List.take_append_drop position readyRules
  rw [hdrop] at hspares hsplit
  rw [← hsplit]
  refine not_infix_rewriteAll hparts (mt String.toList_eq_nil_iff.1 hne)
    (fun rule hrule => ⟨?_, hspares rule hrule⟩) text
  refine pattern_ne_nil_of_mem_readyRules rule ?_
  rw [← hsplit]
  exact List.mem_append_right _ hrule

/-- The dialect of Arduino boards is ready and turns every text into one in which none of the words occurs that its
rules without placeholders replace. -/
theorem apply_arduino_clears_words : ∃ compiled, arduino.dialect.compile = .ok compiled ∧
    ∀ text, ∃ turned, compiled.apply text = .ok turned ∧
      ∀ word ∈ ["#include <string>", "std::string", ".find("], ¬ word.toList <:+: turned.toList := by
  refine ⟨_, compile_arduino, fun text => ⟨_, applyAll_eq closed_of_mem_readyRules text, ?_⟩⟩
  simp only [List.forall_mem_cons, String.toList_ofList]
  refine ⟨?_, ?_, ?_, List.forall_mem_nil _⟩
  · exact not_infix_of_spares 0 rfl (Template.parts_plain_of_chars rfl rfl) (by decide) spares_include _
  · exact not_infix_of_spares 4 rfl (Template.parts_plain_of_chars rfl rfl) (by decide) spares_string _
  · exact not_infix_of_spares 7 rfl (Template.parts_plain_of_chars rfl rfl) (by decide) spares_find _

end Target

end SerialContract
