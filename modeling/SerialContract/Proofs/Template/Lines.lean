import Mathlib.Data.List.TakeWhile
import SerialContract.Proofs.Text.Cut
import SerialContract.Template.Part
import SerialContract.Text.Lines

/-!
# Templates line by line

The name of a placeholder has no line break in it. So no placeholder begins in one line and ends in
another, and a template that is made of lines is filled line by line.
-/

namespace SerialContract

theorem infix_join_of_mem {texts : List String} {text : String} (h : text ∈ texts) :
    text.toList <:+: (String.join texts).toList := by
  rw [String.toList_join, List.flatMap_def]
  exact List.infix_of_mem_flatten (List.mem_map_of_mem h)

theorem lines_cons (text : String) (texts : List String) : lines (text :: texts) = line text ++ lines texts := by
  rw [lines, List.map_cons, String.join_cons, lines]

theorem lines_append (front back : List String) : lines (front ++ back) = lines front ++ lines back := by
  induction front with
  | nil => exact String.empty_append.symm
  | cons text front ih => rw [List.cons_append, lines_cons, lines_cons, ih, String.append_assoc]

/-- The lines of a text that is made of texts with lines of their own. -/
theorem splitOn_lines (texts : List String) (rest : List Char) : ((lines texts).toList ++ rest).splitOn '\n' =
    (texts.flatMap fun text => text.toList.splitOn '\n') ++ rest.splitOn '\n' := by
  induction texts with
  | nil => rfl
  | cons text texts ih =>
      have hcons : (lines (text :: texts)).toList ++ rest = text.toList ++ '\n' :: ((lines texts).toList ++ rest) := by
        simp [lines_cons, line]
      rw [hcons, List.splitOn_append_cons_self, ih, List.flatMap_cons, List.append_assoc]

theorem splitOn_toList_lines (texts : List String) : (lines texts).toList.splitOn '\n' =
    (texts.flatMap fun text => text.toList.splitOn '\n') ++ [[]] := by
  have h := splitOn_lines texts []
  rwa [List.append_nil, List.splitOn_nil] at h

/-- Texts without line breaks are lines. -/
theorem splitOn_lines_eq_map {texts : List String} (h : ∀ text ∈ texts, '\n' ∉ text.toList) :
    texts.flatMap (fun text => text.toList.splitOn '\n') = texts.map String.toList := by
  rw [List.map_eq_flatMap]
  exact List.flatMap_congr fun text htext => List.splitOn_eq_singleton (h text htext)

theorem lines_flatMap {α : Type} (items : List α) (f : α → List String) :
    lines (items.flatMap f) = String.join (items.map fun item => lines (f item)) := by
  rw [← String.toList_inj]
  simp only [lines, String.toList_join, List.flatMap_map, List.map_flatMap, List.flatMap_assoc]

namespace Template

/-! ## Names of placeholders -/

theorem leadingName?_eq_some {text name : List Char} : leadingName? text = some name ↔
    name ≠ [] ∧ (∀ c ∈ name, isNameChar c = true) ∧ Part.spelling (.placeholder name) <+: text := by
  constructor
  · intro h
    obtain ⟨rest, hrest⟩ := spelling_eq_of_leadingName? h
    unfold leadingName? at h
    split at h
    · next inner =>
      split at h
      · next c name after hname _ =>
        cases h
        refine ⟨List.cons_ne_nil c name, fun d hd => ?_, ⟨rest, hrest.symm⟩⟩
        rw [← hname] at hd
        exact List.mem_takeWhile_imp hd
      · cases h
    · cases h
  · rintro ⟨hne, hname, rest, rfl⟩
    have hbrace : ¬ isNameChar '}' = true := by decide
    obtain ⟨c, more, rfl⟩ := List.exists_cons_of_ne_nil hne
    simp only [Part.spelling, opening, closing, List.append_assoc, List.cons_append, List.nil_append, leadingName?]
    rw [← List.cons_append, List.takeWhile_append_of_pos hname, List.dropWhile_append_of_pos hname,
      List.takeWhile_cons_of_neg hbrace, List.dropWhile_cons_of_neg hbrace, List.append_nil]
    rfl

theorem newline_notMem_spelling {name : List Char} (h : ∀ c ∈ name, isNameChar c = true) :
    '\n' ∉ Part.spelling (.placeholder name) := by
  have hnewline : '\n' ∉ name := fun hmem => absurd (h _ hmem) (by decide)
  simp [Part.spelling, opening, closing, hnewline]

theorem leadingName?_append_newline (front rest : List Char) :
    leadingName? (front ++ '\n' :: rest) = leadingName? front := by
  ext name
  simp only [leadingName?_eq_some, and_congr_right_iff]
  intro _ hname
  constructor
  · exact prefix_of_prefix_append_cons (newline_notMem_spelling hname)
  · exact fun h => h.trans (List.prefix_append _ _)

/-! ## Lines -/

/-- A text is taken apart in two if what stands behind the cut changes nothing of what begins in front of it. -/
theorem partsAfter_append {skipped : Nat} {front rest : List Char} (h : skipped ≤ front.length)
    (hsame : ∀ place, place <:+ front → place ≠ [] → leadingName? (place ++ rest) = leadingName? place) :
    partsAfter skipped (front ++ rest) = partsAfter skipped front ++ partsAfter 0 rest := by
  induction front generalizing skipped with
  | nil =>
      obtain rfl := Nat.le_zero.1 h
      rfl
  | cons c front ih =>
      have hlater : ∀ place, place <:+ front → place ≠ [] → leadingName? (place ++ rest) = leadingName? place :=
        fun place hplace => hsame place (hplace.trans (List.suffix_cons c front))
      cases skipped with
      | succ skipped => exact ih (Nat.le_of_succ_le_succ h) hlater
      | zero =>
          have hhere := hsame (c :: front) (List.suffix_refl _) (List.cons_ne_nil _ _)
          rw [List.cons_append] at hhere
          simp only [List.cons_append, partsAfter, hhere]
          cases hname : leadingName? (c :: front) with
          | none => rw [ih (Nat.zero_le _) hlater, List.cons_append]
          | some name =>
              -- the placeholder ends before the cut
              obtain ⟨_, hspelling⟩ := spelling_eq_of_leadingName? hname
              have hlength := congrArg List.length hspelling
              simp only [Part.spelling, opening, closing, List.length_append, List.length_cons, List.length_nil] at hlength
              simp only [List.cons_append]
              rw [ih (by omega) hlater]

theorem partsAfter_append_newline {skipped : Nat} {front : List Char} (h : skipped ≤ front.length)
    (rest : List Char) : partsAfter skipped (front ++ '\n' :: rest) =
      partsAfter skipped front ++ .plain '\n' :: partsAfter 0 rest :=
  partsAfter_append h fun place _ _ => leadingName?_append_newline place rest

/-- The parts of a text that is spelt out. -/
theorem parts_of_chars {text : String} {chars : List Char} (h : text = String.ofList chars) :
    parts text = partsAfter 0 chars := by
  rw [parts, h, String.toList_ofList]

theorem parts_plain_of_chars {text : String} {chars : List Char} (h : text = String.ofList chars)
    (hparts : partsAfter 0 chars = chars.map .plain) : parts text = text.toList.map .plain := by
  rw [parts_of_chars h, hparts, h, String.toList_ofList]

theorem parts_line_append (text rest : String) : parts (line text ++ rest) = parts text ++ .plain '\n' :: parts rest := by
  simp only [parts, line, String.toList_append]
  rw [List.append_assoc]
  exact partsAfter_append_newline (Nat.zero_le _) rest.toList

theorem parts_lines (texts : List String) :
    parts (lines texts) = texts.flatMap fun text => parts text ++ [.plain '\n'] := by
  induction texts with
  | nil => rfl
  | cons text texts ih =>
      rw [lines_cons, parts_line_append, ih, List.flatMap_cons, List.append_assoc]
      rfl

theorem mem_parts_lines {texts : List String} {text : String} {part : Part} (htext : text ∈ texts)
    (hpart : part ∈ parts text) : part ∈ parts (lines texts) := by
  rw [parts_lines, List.mem_flatMap]
  exact ⟨text, htext, List.mem_append_left _ hpart⟩

theorem names_lines (texts : List String) : names (lines texts) = texts.flatMap names := by
  rw [names, parts_lines, List.filterMap_flatMap]
  refine congrArg (texts.flatMap ·) (funext fun text => ?_)
  rw [List.filterMap_append, names]
  exact List.append_nil _

theorem mem_of_mem_names_lines {texts : List String} {given : List String}
    (h : ∀ text ∈ texts, ∀ name ∈ names text, name ∈ given) : ∀ name ∈ names (lines texts), name ∈ given := by
  intro name hname
  rw [names_lines, List.mem_flatMap] at hname
  obtain ⟨text, htext, hname⟩ := hname
  exact h text htext name hname

theorem mem_of_mem_names_of_chars {text : String} {chars : List Char} (htext : text = String.ofList chars)
    {given : List String} (h : ∀ name ∈ (partsAfter 0 chars).filterMap Part.name?, name ∈ given) :
    ∀ name ∈ names text, name ∈ given := by
  rw [names, parts_of_chars htext]
  exact h

/-! ## Population -/

variable {replacements : Replacements}

theorem fill_append (front back : List Part) :
    fill replacements (front ++ back) = fill replacements front ++ fill replacements back := by
  rw [fill, List.flatMap_append]
  rfl

theorem fill_plain (text : List Char) : fill replacements (text.map .plain) = text := by
  induction text with
  | nil => rfl
  | cons c text ih => exact congrArg (c :: ·) ih

theorem missing_eq_nil {given : String → Bool} {wanted : List String} :
    missing given wanted = [] ↔ ∀ name ∈ wanted, given name = true := by
  simp only [missing, List.eq_nil_iff_forall_not_mem, List.mem_eraseDups, List.mem_filter, Bool.not_eq_true', not_and,
    Bool.not_eq_false]

theorem populateParts_eq_ok {parts : List Part}
    (h : ∀ name ∈ parts.filterMap Part.name?, replacements.contains name = true) :
    populateParts replacements parts = .ok (fill replacements parts) := by
  rw [populateParts, missing_eq_nil.2 h]

theorem populate_eq_ok {template : String} (h : ∀ name ∈ names template, replacements.contains name = true) :
    populate template replacements = .ok (String.ofList (fill replacements (parts template))) := by
  rw [populate, populateParts_eq_ok h]
  rfl

/-- What replaces a placeholder stands in the filled template. -/
theorem infix_of_populate {template filled : String} {replacements : Replacements} {name text : String}
    (h : populate template replacements = .ok filled) (hname : .placeholder name.toList ∈ parts template)
    (htext : replacements.get? name = some text) : text.toList <:+: filled.toList := by
  rw [populate, populateParts] at h
  split at h
  · cases h
    obtain ⟨front, back, hparts⟩ := List.append_of_mem hname
    refine ⟨fill replacements front, fill replacements back, ?_⟩
    simp [hparts, fill, Part.filled, htext]
  · cases h

/-- A line with its placeholders replaced. -/
def filledLine (replacements : Replacements) (text : String) : String :=
  String.ofList (fill replacements (parts text))

theorem filledLine_plain {text : String} (h : parts text = text.toList.map .plain) :
    filledLine replacements text = text := by
  rw [filledLine, h, fill_plain, String.ofList_toList]

theorem filledLine_placeholder {text before name behind value : String}
    (hparts : parts text = before.toList.map .plain ++ .placeholder name.toList :: behind.toList.map .plain)
    (hvalue : replacements.get? name = some value) : filledLine replacements text = before ++ value ++ behind := by
  have hfill : fill replacements (.placeholder name.toList :: behind.toList.map .plain) =
      value.toList ++ behind.toList := by
    rw [fill, List.flatMap_cons, ← fill, fill_plain, Part.filled, String.ofList_toList, hvalue, Option.getD_some]
  rw [filledLine, hparts, fill_append, fill_plain, hfill, ← String.toList_inj, String.toList_ofList,
    String.toList_append, String.toList_append, List.append_assoc]

/-- A line of a template without placeholders. -/
structure PlainLine (text : String) : Prop where
  parts : Template.parts text = text.toList.map .plain
  newline : '\n' ∉ text.toList

theorem PlainLine.of_chars {text : String} {chars : List Char} (h : text = String.ofList chars)
    (hparts : partsAfter 0 chars = chars.map .plain) (hnewline : '\n' ∉ chars) : PlainLine text :=
  ⟨parts_plain_of_chars h hparts, by rwa [h, String.toList_ofList]⟩

theorem map_filledLine_plain {texts : List String} (h : ∀ text ∈ texts, PlainLine text) :
    texts.map (filledLine replacements) = texts :=
  (List.map_congr_left fun text htext => filledLine_plain (h text htext).parts).trans (List.map_id texts)

theorem fill_lines (texts : List String) :
    String.ofList (fill replacements (parts (lines texts))) = lines (texts.map (filledLine replacements)) := by
  rw [← String.toList_inj, String.toList_ofList, parts_lines, fill, List.flatMap_assoc, lines, String.toList_join,
    List.map_map, List.flatMap_map]
  refine congrArg (texts.flatMap ·) (funext fun text => ?_)
  simp [filledLine, fill, line, Part.filled]

theorem populate_lines {texts : List String} (h : ∀ name ∈ texts.flatMap names, replacements.contains name = true) :
    populate (lines texts) replacements = .ok (lines (texts.map (filledLine replacements))) := by
  rw [← names_lines] at h
  rw [populate_eq_ok h, fill_lines]

end Template

end SerialContract
