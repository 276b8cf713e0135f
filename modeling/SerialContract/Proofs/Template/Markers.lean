import SerialContract.Proofs.Template.Lines

/-!
# Where the placeholders of a template stand

The places of the placeholders are found by searching for braces, and the parts of a template by looking at one
character after the other. Both find the same, and nothing that reads like a placeholder is passed over: it cannot
begin inside another one, and what stands around it does not change how it reads.
-/

namespace SerialContract.Template

theorem isName_eq_true {text : List Char} : isName text = true ↔ text ≠ [] ∧ ∀ c ∈ text, isNameChar c = true := by
  simp [isName]

theorem brace_notMem_of_isName {name : List Char} (h : isName name = true) : '{' ∉ name ∧ '}' ∉ name := by
  have hname := (isName_eq_true.1 h).2
  exact ⟨fun hmem => absurd (hname _ hmem) (by decide), fun hmem => absurd (hname _ hmem) (by decide)⟩

/-! ## What a text begins with -/

section Leading

variable {text name : List Char}

theorem leadingName?_spelling (h : isName name = true) (rest : List Char) :
    leadingName? (Part.spelling (.placeholder name) ++ rest) = some name := by
  obtain ⟨hne, hname⟩ := isName_eq_true.1 h
  exact leadingName?_eq_some.2 ⟨hne, hname, List.prefix_append _ _⟩

/-- What begins with a placeholder begins with the braces that open it, and those that close it stand behind. -/
theorem exists_of_leadingName? (h : leadingName? text = some name) :
    isName name = true ∧ ∃ rest, text = opening ++ (name ++ (closing ++ rest)) := by
  obtain ⟨hne, hname, rest, hrest⟩ := leadingName?_eq_some.1 h
  refine ⟨isName_eq_true.2 ⟨hne, hname⟩, rest, ?_⟩
  rw [← hrest, Part.spelling, List.append_assoc, List.append_assoc]

theorem leadingName?_eq_none_of_opening (h : ¬ opening <+: text) : leadingName? text = none := by
  rw [Option.eq_none_iff_forall_ne_some]
  intro name hname
  obtain ⟨_, rest, rfl⟩ := exists_of_leadingName? hname
  exact h (List.prefix_append _ _)

theorem leadingName?_eq_none_of_closing (h : ¬ closing <:+: text) : leadingName? text = none := by
  rw [Option.eq_none_iff_forall_ne_some]
  intro name hname
  obtain ⟨_, rest, rfl⟩ := exists_of_leadingName? hname
  exact h ⟨opening ++ name, rest, by simp only [List.append_assoc]⟩

/-- Behind the first two characters a placeholder has no opening brace. -/
theorem eq_of_spelling_eq_append (h : isName name = true) {front more : List Char} (hne : front ≠ [])
    (heq : Part.spelling (.placeholder name) = front ++ '{' :: more) : more = name ++ closing := by
  obtain ⟨c, front, rfl⟩ := List.exists_cons_of_ne_nil hne
  simp only [Part.spelling, opening, List.cons_append, List.nil_append, List.cons.injEq] at heq
  cases front with
  | nil => exact (List.cons.inj heq.2).2.symm
  | cons d front =>
      have hmem : '{' ∈ name ++ closing := by
        rw [(List.cons.inj heq.2).2]
        exact List.mem_append_right _ List.mem_cons_self
      simp [closing, (brace_notMem_of_isName h).1] at hmem

/-- No placeholder that begins in front of another one reaches into it. -/
theorem leadingName?_append_opening (hne : text ≠ []) (rest : List Char) :
    leadingName? (text ++ (opening ++ rest)) = leadingName? text := by
  ext name
  simp only [leadingName?_eq_some, and_congr_right_iff]
  intro hname hchars
  refine ⟨fun h => ?_, fun h => h.trans (List.prefix_append _ _)⟩
  have hisName : isName name = true := isName_eq_true.2 ⟨hname, hchars⟩
  rcases List.prefix_or_prefix_of_prefix h (List.prefix_append text _) with hfront | ⟨more, hmore⟩
  · exact hfront
  · rw [← hmore, List.prefix_append_right_inj] at h
    cases more with
    | nil => exact ⟨[], by rw [List.append_nil, ← hmore, List.append_nil]⟩
    | cons d more =>
        -- the second brace of the other placeholder would begin the name of this one
        obtain ⟨rfl, hbehind⟩ := List.cons_prefix_cons.1 h
        rw [eq_of_spelling_eq_append hisName hne hmore.symm] at hbehind
        obtain ⟨e, name, rfl⟩ := List.exists_cons_of_ne_nil hname
        obtain ⟨rfl, _⟩ := List.cons_prefix_cons.1 hbehind
        exact absurd List.mem_cons_self (brace_notMem_of_isName hisName).1

end Leading

/-! ## Parts of a text -/

section Parts

variable {name : List Char}

theorem partsAfter_cons {c : Char} {text : List Char} (h : leadingName? (c :: text) = none) :
    partsAfter 0 (c :: text) = .plain c :: partsAfter 0 text := by
  simp only [partsAfter, h]

theorem partsAfter_plain_append {front rest : List Char}
    (h : ∀ place, place <:+ front → place ≠ [] → leadingName? (place ++ rest) = none) :
    partsAfter 0 (front ++ rest) = front.map .plain ++ partsAfter 0 rest := by
  induction front with
  | nil => rfl
  | cons c front ih =>
      have hhere : leadingName? (c :: (front ++ rest)) = none :=
        h (c :: front) (List.suffix_refl _) (List.cons_ne_nil _ _)
      have hlater := ih fun place hplace => h place (hplace.trans (List.suffix_cons c front))
      rw [List.cons_append, partsAfter_cons hhere, hlater, List.map_cons, List.cons_append]

theorem partsAfter_plain {text : List Char} (h : ∀ place, place <:+ text → place ≠ [] → leadingName? place = none) :
    partsAfter 0 text = text.map .plain := by
  have hnone : ∀ place, place <:+ text → place ≠ [] → leadingName? (place ++ []) = none := by
    intro place hplace hne
    rw [List.append_nil, h place hplace hne]
  have hparts := partsAfter_plain_append hnone
  rwa [List.append_nil, partsAfter, List.append_nil] at hparts

theorem partsAfter_eq_drop {skipped : Nat} (text : List Char) :
    partsAfter skipped text = partsAfter 0 (text.drop skipped) := by
  induction text generalizing skipped with
  | nil => cases skipped <;> rfl
  | cons c text ih =>
      cases skipped with
      | zero => rfl
      | succ skipped => rw [partsAfter, List.drop_succ_cons, ih]

theorem partsAfter_of_leadingName? {text : List Char} (h : leadingName? text = some name) :
    partsAfter 0 text = .placeholder name :: partsAfter (name.length + 4) text := by
  cases text with
  | nil => cases h
  | cons c text => simp only [partsAfter, h]

theorem length_spelling : (Part.spelling (.placeholder name)).length = name.length + 4 := by
  simp [Part.spelling, opening, closing, Nat.add_comm, Nat.add_left_comm]

theorem partsAfter_spelling (h : isName name = true) (rest : List Char) :
    partsAfter 0 (Part.spelling (.placeholder name) ++ rest) = .placeholder name :: partsAfter 0 rest := by
  rw [partsAfter_of_leadingName? (leadingName?_spelling h rest), ← length_spelling, partsAfter_eq_drop, List.drop_left]

theorem isName_of_mem_partsAfter {skipped : Nat} {text : List Char}
    (h : .placeholder name ∈ partsAfter skipped text) : isName name = true := by
  induction text generalizing skipped with
  | nil => cases skipped <;> cases h
  | cons c text ih =>
      cases skipped with
      | succ skipped => exact ih h
      | zero =>
          rw [partsAfter] at h
          split at h
          · next hleading =>
            rcases List.mem_cons.1 h with hname | hlater
            · cases hname
              exact (exists_of_leadingName? hleading).1
            · exact ih hlater
          · rcases List.mem_cons.1 h with hname | hlater
            · cases hname
            · exact ih hlater

/-- What reads like a placeholder is one, whatever stands around it. -/
theorem partsAfter_append_spelling (h : isName name = true) (front back : List Char) :
    partsAfter 0 (front ++ (Part.spelling (.placeholder name) ++ back)) =
      partsAfter 0 front ++ .placeholder name :: partsAfter 0 back := by
  have hsame : ∀ place, place <:+ front → place ≠ [] →
      leadingName? (place ++ (Part.spelling (.placeholder name) ++ back)) = leadingName? place := by
    intro place _ hne
    rw [Part.spelling, List.append_assoc, List.append_assoc]
    exact leadingName?_append_opening hne _
  rw [partsAfter_append (Nat.zero_le _) hsame, partsAfter_spelling h]

end Parts

/-! ## Places of parts -/

/-- The placeholders among the parts with their places, if the first part starts at the byte `start`. -/
def placed (start : Nat) : List Part → List Marker
  | [] => []
  | part :: parts =>
    let stop := start + (utf8 part.spelling).length
    match part.name? with
    | some name => ⟨name, start, stop⟩ :: placed stop parts
    | none => placed stop parts

theorem placed_append (start : Nat) (front back : List Part) : placed start (front ++ back) =
    placed start front ++ placed (start + (utf8 (front.flatMap Part.spelling)).length) back := by
  induction front generalizing start with
  | nil => rfl
  | cons part front ih =>
      rw [List.flatMap_cons, utf8_append, List.length_append, ← Nat.add_assoc, List.cons_append, placed, placed, ih]
      cases part.name? <;> rfl

theorem placed_plain (start : Nat) (text : List Char) : placed start (text.map .plain) = [] := by
  induction text generalizing start with
  | nil => rfl
  | cons c text ih => exact ih _

theorem flatMap_spelling_plain (text : List Char) : (text.map Part.plain).flatMap Part.spelling = text := by
  rw [List.flatMap_map]
  exact List.flatMap_singleton' text

theorem placed_plain_append (start : Nat) (text : List Char) (parts : List Part) :
    placed start (text.map .plain ++ parts) = placed (start + (utf8 text).length) parts := by
  rw [placed_append, placed_plain, flatMap_spelling_plain, List.nil_append]

theorem map_name_placed (start : Nat) (parts : List Part) :
    (placed start parts).map Marker.name = parts.filterMap Part.name? := by
  induction parts generalizing start with
  | nil => rfl
  | cons part parts ih =>
      cases part with
      | plain c => exact ih _
      | placeholder name => exact congrArg (String.ofList name :: ·) (ih _)

/-! ## The search for braces -/

section Search

variable {text front inner : List Char}

theorem partsAfter_of_cutAtText (h : cutAtText opening text = some (front, inner)) :
    partsAfter 0 text = front.map .plain ++ partsAfter 0 (opening ++ inner) := by
  rw [append_of_cutAtText h]
  exact partsAfter_plain_append fun place hplace hne =>
    leadingName?_eq_none_of_opening (not_prefix_of_cutAtText h place hplace hne)

theorem closing_infix_iff : closing <:+: opening ++ inner ↔ closing <:+: inner := by
  simp [opening, closing, List.infix_cons_iff]

/-- Where no braces close, nothing is a placeholder. -/
theorem partsAfter_of_unclosed (h : ¬ closing <:+: inner) :
    partsAfter 0 (opening ++ inner) = (opening ++ inner).map .plain :=
  partsAfter_plain fun _ hplace _ => leadingName?_eq_none_of_closing fun hclosing =>
    h (closing_infix_iff.1 (hclosing.trans hplace.isInfix))

/-- What stands between opening braces and the next closing ones is the only name that could be read there. -/
theorem leadingName?_eq_none_of_not_isName {name behind : List Char}
    (h : cutAtText closing inner = some (name, behind)) (hname : ¬ isName name = true) :
    leadingName? (opening ++ inner) = none := by
  rw [Option.eq_none_iff_forall_ne_some]
  intro other hother
  obtain ⟨hisName, rest, hinner⟩ := exists_of_leadingName? hother
  rw [List.append_cancel_left hinner] at h
  have hcut : cutAtText closing (other ++ (closing ++ rest)) = some (other, rest) :=
    cutAtText_append (brace_notMem_of_isName hisName).2 rest
  obtain ⟨rfl, _⟩ := Prod.mk.inj (Option.some.inj (h.symm.trans hcut))
  exact hname hisName

end Search

/-- The search for braces finds the parts that are placeholders. -/
theorem markersFrom_eq (start : Nat) (text : List Char) : markersFrom start text = placed start (partsAfter 0 text) := by
  fun_induction markersFrom start text with
  | case1 start text hopening =>
      have hnone : ∀ place, place <:+ text → place ≠ [] → leadingName? place = none := fun place hplace _ =>
        leadingName?_eq_none_of_opening fun h => cutAtText_eq_none.1 hopening (h.isInfix.trans hplace.isInfix)
      rw [partsAfter_plain hnone, placed_plain]
  | case2 start text front inner hopening hclosing =>
      rw [partsAfter_of_cutAtText hopening, placed_plain_append,
        partsAfter_of_unclosed (cutAtText_eq_none.1 hclosing), placed_plain]
  | case3 start text front inner hopening name behind hclosing first hname stop ih =>
      have hinner : opening ++ inner = Part.spelling (.placeholder name) ++ behind := by
        rw [append_of_cutAtText hclosing, Part.spelling]
        simp only [List.append_assoc]
      rw [partsAfter_of_cutAtText hopening, placed_plain_append, hinner, partsAfter_spelling hname, ih]
      rfl
  | case4 start text front inner hopening name behind hclosing first hname ih =>
      have hbrace : partsAfter 0 (opening ++ inner) = .plain '{' :: partsAfter 0 ('{' :: inner) :=
        partsAfter_cons (leadingName?_eq_none_of_not_isName hclosing hname)
      rw [partsAfter_of_cutAtText hopening, placed_plain_append, hbrace, ih]
      rfl

/-- The placeholders of a template are those of its parts, each at the bytes that it takes up. -/
theorem markers_eq_placed (template : String) : markers template = placed 0 (parts template) :=
  markersFrom_eq 0 template.toList

theorem map_name_markers (template : String) : (markers template).map Marker.name = names template := by
  rw [markers_eq_placed, map_name_placed, names]

/-! ## Every placeholder at its place -/

/-- How the placeholder of a marker is written. -/
def Marker.spelling (m : Marker) : List Char :=
  opening ++ m.name.toList ++ closing

/-- From its first byte up to its last a marker covers its name in braces. -/
def Marker.StandsIn (text : List Char) (m : Marker) : Prop :=
  isName m.name.toList = true ∧ ∃ front back, text = front ++ (m.spelling ++ back) ∧
    m.start = (utf8 front).length ∧ m.stop = (utf8 (front ++ m.spelling)).length

theorem start_le_of_mem_placed {start : Nat} {parts : List Part} {m : Marker} (h : m ∈ placed start parts) :
    start ≤ m.start := by
  induction parts generalizing start with
  | nil => cases h
  | cons part parts ih =>
      rw [placed] at h
      split at h
      · rcases List.mem_cons.1 h with rfl | hlater
        · exact Nat.le_refl _
        · exact (Nat.le_add_right _ _).trans (ih hlater)
      · exact (Nat.le_add_right _ _).trans (ih h)

theorem pairwise_placed (start : Nat) (parts : List Part) :
    (placed start parts).Pairwise fun a b => a.start < b.start ∧ a.stop ≤ b.start := by
  induction parts generalizing start with
  | nil => exact List.Pairwise.nil
  | cons part parts ih =>
      cases part with
      | plain c => exact ih _
      | placeholder name =>
          refine List.pairwise_cons.2 ⟨fun m hm => ?_, ih _⟩
          have hstart := start_le_of_mem_placed hm
          have hpos : 0 < (utf8 (Part.spelling (.placeholder name))).length := length_utf8_pos (List.cons_ne_nil _ _)
          exact ⟨Nat.lt_of_lt_of_le (Nat.lt_add_of_pos_right hpos) hstart, hstart⟩

theorem standsIn_of_mem_placed {front : List Char} {parts : List Part} {m : Marker}
    (hnames : ∀ name, .placeholder name ∈ parts → isName name = true) (h : m ∈ placed (utf8 front).length parts) :
    m.StandsIn (front ++ parts.flatMap Part.spelling) := by
  induction parts generalizing front with
  | nil => cases h
  | cons part parts ih =>
      have hlater := @ih (front ++ part.spelling) fun name hname => hnames name (List.mem_cons_of_mem _ hname)
      rw [utf8_append, List.length_append, List.append_assoc, ← List.flatMap_cons] at hlater
      rw [placed] at h
      split at h
      · next name hname =>
        rcases List.mem_cons.1 h with rfl | h
        · cases part with
          | plain c => cases hname
          | placeholder chars =>
              cases hname
              refine ⟨?_, front, parts.flatMap Part.spelling, ?_, rfl, ?_⟩
              · rw [String.toList_ofList]
                exact hnames chars List.mem_cons_self
              · rw [Marker.spelling, String.toList_ofList, List.flatMap_cons, Part.spelling]
              · rw [Marker.spelling, String.toList_ofList, utf8_append, List.length_append, Part.spelling]
        · exact hlater h
      · exact hlater h

theorem mem_markers_of_standsIn {template : String} {m : Marker} (h : m.StandsIn template.toList) :
    m ∈ markers template := by
  obtain ⟨hname, front, back, htemplate, hstart, hstop⟩ := h
  rw [utf8_append, List.length_append, ← hstart] at hstop
  have hm : m = ⟨String.ofList m.name.toList, m.start, m.start + (utf8 m.spelling).length⟩ := by
    rw [String.ofList_toList, ← hstop]
  have hparts : parts template = partsAfter 0 front ++ .placeholder m.name.toList :: partsAfter 0 back := by
    rw [parts, htemplate]
    exact partsAfter_append_spelling hname front back
  rw [markers_eq_placed, hparts, placed_append, flatMap_spelling_partsAfter, List.drop_zero, Nat.zero_add, ← hstart]
  exact List.mem_append_right _ (List.mem_cons.2 (.inl hm))

/-- The placeholders of a template are found in the order in which they stand there, each apart from the others, and
nothing else that reads like one is left. -/
theorem markers_exact (template : String) :
    (markers template).Pairwise (fun a b => a.start < b.start ∧ a.stop ≤ b.start) ∧
      ∀ m, m ∈ markers template ↔ m.StandsIn template.toList := by
  constructor
  · rw [markers_eq_placed]
    exact pairwise_placed 0 _
  · refine fun m => ⟨fun h => ?_, mem_markers_of_standsIn⟩
    rw [markers_eq_placed] at h
    rw [← flatMap_spelling_parts template, ← List.nil_append ((parts template).flatMap Part.spelling)]
    exact standsIn_of_mem_placed (fun _ => isName_of_mem_partsAfter) h

/-- Braces too many on both sides, and two that open nothing. -/
example : markers "\x7b\x7b\x7bx\x7d\x7d\x7d \x7b\x7b \x7b\x7by\x7d\x7d" = [⟨"x", 1, 6⟩, ⟨"y", 11, 16⟩] := by
  rw [markers_eq_placed]
  decide

end SerialContract.Template
