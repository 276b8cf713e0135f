import SerialContract.Dialect.Rule
import SerialContract.Proofs.Template.Markers

/-!
# Filling templates

A template is filled by putting a text in the place of each of its placeholders, all at once. Where a placeholder has
no replacement the template is not filled, and the names that lack one are listed in the order of their first use.
-/

namespace SerialContract.Template

/-! ## First uses -/

/-- Those of the names that have a property, each once, in the order in which they first appear. -/
structure FirstUses (p : String → Prop) (names found : List String) : Prop where
  mem_iff : ∀ name, name ∈ found ↔ name ∈ names ∧ p name
  ordered : found.Pairwise fun a b => names.idxOf a < names.idxOf b

theorem idxOf_of_mem_eraseDups {p : String → Bool} {name : String} (hname : p name = false) (names : List String) :
    ∀ other ∈ (names.filter p).eraseDups, (name :: names).idxOf other = names.idxOf other + 1 := by
  intro other hother
  rw [List.mem_eraseDups, List.mem_filter] at hother
  refine List.idxOf_cons_ne _ ?_
  rintro rfl
  exact Bool.false_ne_true (hname.symm.trans hother.2)

theorem pairwise_idxOf_eraseDups (p : String → Bool) (names : List String) :
    (names.filter p).eraseDups.Pairwise fun a b => names.idxOf a < names.idxOf b := by
  induction names generalizing p with
  | nil => exact List.Pairwise.nil
  | cons name names ih =>
      have hlater : ∀ q : String → Bool, q name = false →
          (names.filter q).eraseDups.Pairwise fun a b => (name :: names).idxOf a < (name :: names).idxOf b := by
        intro q hq
        refine List.Pairwise.imp_of_mem (fun {a b} ha hb hlt => ?_) (ih q)
        rw [idxOf_of_mem_eraseDups hq names a ha, idxOf_of_mem_eraseDups hq names b hb]
        exact Nat.succ_lt_succ hlt
      -- a name that is kept is taken out of those behind it, so that these come later in any case
      by_cases hname : p name = true
      · have hfirst : (!name == name && p name) = false := by simp
        rw [List.filter_cons_of_pos hname, List.eraseDups_cons, List.filter_filter]
        refine List.pairwise_cons.2 ⟨fun other hother => ?_, hlater _ hfirst⟩
        rw [List.idxOf_cons_self, idxOf_of_mem_eraseDups hfirst names other hother]
        exact Nat.succ_pos _
      · rw [List.filter_cons_of_neg hname]
        exact hlater p (eq_false_of_ne_true hname)

theorem firstUses_missing (given : String → Bool) (wanted : List String) :
    FirstUses (given · = false) wanted (missing given wanted) := by
  constructor
  · intro name
    rw [missing, List.mem_eraseDups, List.mem_filter, Bool.not_eq_true']
  · exact pairwise_idxOf_eraseDups _ wanted

/-! ## What a template is filled with -/

/-- What is filled in for a name. -/
def filler (replacements : Replacements) (name : String) : String :=
  (replacements.get? name).getD ""

/-- The replacement of a placeholder in the place of it. -/
def Marker.splice (replacements : Replacements) (m : Marker) : Splice :=
  ⟨m.start, m.stop, utf8 (filler replacements m.name).toList⟩

/-- What a template becomes: each of its placeholders has a replacement, and gives way to it. -/
structure Filled (template : String) (replacements : Replacements) (filled : String) : Prop where
  given : ∀ m ∈ markers template, replacements.contains m.name = true
  spliced : utf8 filled.toList =
    ((markers template).map (Marker.splice replacements)).foldr Splice.into (utf8 template.toList)

section Fill

variable {replacements others : Replacements} {parts : List Part}

/-- To fill the parts and to replace the bytes of the placeholders comes to the same. -/
theorem foldr_splice_placed (front : List UInt8) (parts : List Part) :
    ((placed front.length parts).map (Marker.splice replacements)).foldr Splice.into
        (front ++ utf8 (parts.flatMap Part.spelling)) =
      front ++ utf8 (fill replacements parts) := by
  induction parts generalizing front with
  | nil => rfl
  | cons part parts ih =>
      have hbehind := ih (front ++ utf8 part.spelling)
      rw [List.length_append, List.append_assoc, List.append_assoc] at hbehind
      rw [List.flatMap_cons, utf8_append, fill, List.flatMap_cons, ← fill, utf8_append]
      cases part with
      | plain c => exact hbehind
      | placeholder name =>
          -- the splices behind this one are done, and it is still where it was
          rw [placed, Part.name?]
          simp only [List.map_cons, List.foldr_cons]
          rw [hbehind]
          exact Splice.into_append front _ _ _

theorem fill_congr (h : ∀ name ∈ parts.filterMap Part.name?, replacements.get? name = others.get? name) :
    fill replacements parts = fill others parts := by
  refine List.flatMap_congr fun part hpart => ?_
  cases part with
  | plain c => rfl
  | placeholder name => rw [Part.filled, Part.filled, h _ (List.mem_filterMap.2 ⟨_, hpart, rfl⟩)]

theorem fill_spelling (h : ∀ name ∈ parts.filterMap Part.name?,
    replacements.get? name = some (String.ofList (Part.spelling (.placeholder name.toList)))) :
    fill replacements parts = parts.flatMap Part.spelling := by
  refine List.flatMap_congr fun part hpart => ?_
  cases part with
  | plain c => rfl
  | placeholder name =>
      rw [Part.filled, h _ (List.mem_filterMap.2 ⟨_, hpart, rfl⟩), Option.getD_some, String.toList_ofList,
        String.toList_ofList]

end Fill

/-! ## Population -/

section Population

variable {template : String} {replacements others : Replacements}

theorem forall_mem_markers {p : String → Prop} :
    (∀ m ∈ markers template, p m.name) ↔ ∀ name ∈ names template, p name := by
  rw [← map_name_markers, List.forall_mem_map]

theorem fill?_eq_ok (h : ∀ name ∈ names template, replacements.contains name = true) :
    fill? template replacements = .ok (String.ofList (fill replacements (parts template))) := by
  rw [fill?, populate_eq_ok h]
  rfl

theorem fill?_eq_error (h : ¬ ∀ name ∈ names template, replacements.contains name = true) :
    fill? template replacements = .error (.missingReplacements (missing replacements.contains (names template))) := by
  rw [← missing_eq_nil] at h
  rw [fill?, populate, populateParts, ← names]
  split
  · next hnone => exact absurd hnone h
  · rfl

theorem exists_fill?_iff : (∃ filled, fill? template replacements = .ok filled) ↔
    ∀ name ∈ names template, replacements.contains name = true := by
  constructor
  · rintro ⟨filled, hfilled⟩
    by_contra h
    cases (fill?_eq_error h).symm.trans hfilled
  · exact fun h => ⟨_, fill?_eq_ok h⟩

theorem utf8_of_fill? {filled : String} (h : fill? template replacements = .ok filled) :
    utf8 filled.toList =
      ((markers template).map (Marker.splice replacements)).foldr Splice.into (utf8 template.toList) := by
  have hfilled := (fill?_eq_ok (exists_fill?_iff.1 ⟨filled, h⟩)).symm.trans h
  rw [← Except.ok.inj hfilled, String.toList_ofList, markers_eq_placed, ← flatMap_spelling_parts template]
  exact (foldr_splice_placed [] _).symm

theorem filled_of_populate {filled : String} (h : populate template replacements = .ok filled) :
    Filled template replacements filled := by
  have hfilled : fill? template replacements = .ok filled := by rw [fill?, h]; rfl
  exact ⟨forall_mem_markers.2 (exists_fill?_iff.1 ⟨filled, hfilled⟩), utf8_of_fill? hfilled⟩

theorem exists_missing_of_fill? {fault : TemplateError} (h : fill? template replacements = .error fault) :
    ∃ lacking, fault = .missingReplacements lacking ∧
      FirstUses (replacements.contains · = false) (names template) lacking := by
  have hlacking : ¬ ∀ name ∈ names template, replacements.contains name = true := by
    intro hgiven
    cases (fill?_eq_ok hgiven).symm.trans h
  exact ⟨_, (Except.error.inj ((fill?_eq_error hlacking).symm.trans h)).symm, firstUses_missing _ _⟩

theorem fill?_congr (h : ∀ name ∈ names template, replacements.get? name = others.get? name) :
    fill? template replacements = fill? template others := by
  have hmissing : missing replacements.contains (names template) = missing others.contains (names template) := by
    refine congrArg List.eraseDups (List.filter_congr fun name hname => ?_)
    rw [NameMap.contains, h name hname, NameMap.contains]
  rw [fill?, fill?, populate, populate, populateParts, populateParts, ← names, hmissing, fill_congr h]

theorem fill?_spelling (h : ∀ name ∈ names template,
    replacements.get? name = some (String.ofList (Part.spelling (.placeholder name.toList)))) :
    fill? template replacements = .ok template := by
  have hgiven : ∀ name ∈ names template, replacements.contains name = true := by
    intro name hname
    rw [NameMap.contains, h name hname, Option.isSome_some]
  rw [fill?_eq_ok hgiven, fill_spelling h, flatMap_spelling_parts, String.ofList_toList]

end Population

/-- A template is filled if all its placeholders have replacements, and otherwise the names that lack one are listed.
Their bytes give way to the replacements as they are, whatever these read like, and all others stay. So a template in
which each placeholder stands for itself is left as it is, and replacements of other names do not count. -/
theorem fill?_substitutes (template : String) (replacements : Replacements) :
    ((∃ filled, fill? template replacements = .ok filled) ↔
      ∀ m ∈ markers template, replacements.contains m.name = true) ∧
    (∀ fault, fill? template replacements = .error fault → ∃ lacking, fault = .missingReplacements lacking ∧
      FirstUses (replacements.contains · = false) ((markers template).map Marker.name) lacking) ∧
    (∀ filled, fill? template replacements = .ok filled → utf8 filled.toList =
      ((markers template).map (Marker.splice replacements)).foldr Splice.into (utf8 template.toList)) ∧
    ((∀ m ∈ markers template, replacements.get? m.name = some (String.ofList m.spelling)) →
      fill? template replacements = .ok template) ∧
    ∀ others : Replacements, (∀ m ∈ markers template, replacements.get? m.name = others.get? m.name) →
      fill? template replacements = fill? template others := by
  rw [map_name_markers]
  refine ⟨exists_fill?_iff.trans forall_mem_markers.symm, fun _ => exists_missing_of_fill?, fun _ => utf8_of_fill?,
    fun h => ?_, fun others h => ?_⟩
  · exact fill?_spelling (forall_mem_markers.1 h)
  · exact fill?_congr (forall_mem_markers.1 h)

/-- A replacement that becomes a placeholder together with what stands around it. -/
example : fill? "\x7b\x7b\x7ba\x7d\x7d\x7d" (.ofList [("a", "\x7bb\x7d"), ("b", "c")]) = .ok "\x7b\x7bb\x7d\x7d" := by
  decide

end SerialContract.Template
