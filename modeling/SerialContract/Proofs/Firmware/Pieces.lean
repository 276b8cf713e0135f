import SerialContract.Proofs.Firmware.Dispatch
import SerialContract.Proofs.Firmware.Portable
import SerialContract.Proofs.Firmware.Wrapper

/-!
# What is made for an exchange is portable

With the types that a contract has by default, everything that is made for an exchange is portable: names have other
characters around them, and the only word that is replaced among them is the name of the type of strings.
-/

namespace SerialContract.Firmware

open Target

theorem typed_of_standard {type : FieldType} {name : String} (h : TypeMapping.standard.get? type = some name) :
    Typed name.toList := by
  cases type with
  | text =>
      cases h
      exact ⟨by decide +kernel, by decide +kernel, by decide, by decide⟩
  | _ =>
      cases h
      exact typed_plain (by decide)

theorem typed_indentation : Typed [' ', ' ', ' '] :=
  typed_plain (by decide)

section Pieces

variable {e : Exchange} {h : Handler}

/-! ## Declarations -/

theorem typed_declaration {f : Field} {v : Variable} (hv : Holds .standard f v) (hname : isIdentifier f.name = true) :
    Typed v.declaration.toList := by
  have htext : v.declaration.toList = v.typeName.toList ++ ' ' :: v.name.toList := by simp [Variable.declaration]
  rw [htext, hv.1]
  exact (typed_of_standard hv.2).append_cons ' ' rfl (typed_name fun _ => isIdentifierPart_of_mem hname)

theorem typed_of_mem_variables {fields : FieldSet} (hvalid : fields.Valid) {vs : List Variable}
    (hvs : List.Forall₂ (Holds .standard) (Host.valued fields) vs) : ∀ v ∈ vs, Typed v.declaration.toList := by
  intro v hv
  obtain ⟨f, hf, hholds⟩ := exists_left_of_forall₂ hvs hv
  exact typed_declaration hholds (hvalid.identifier f (List.mem_filter.1 hf).1)

theorem Handles.typed_returnType (hh : Handles .standard e h) (he : e.Valid) : Typed h.returnType.toList := by
  rcases hh.returnType with hname | ⟨type, hname⟩
  · rw [hname]
    exact typed_name (isIdentifierPart_of_mem_messageName he.identifier .response)
  · exact typed_of_standard hname

theorem Handles.typed_signature (hh : Handles .standard e h) (he : e.Valid) : Typed h.signature.toList := by
  have htext : h.signature.toList =
      h.returnType.toList ++ ' ' :: (h.name.toList ++ '(' :: (h.parameterList.toList ++ ')' :: [])) := by
    simp [Handler.signature]
  have hparameters : Typed h.parameterList.toList := by
    refine typed_intercalate fun text htext => ?_
    obtain ⟨v, hv, rfl⟩ := List.mem_map.1 htext
    exact typed_of_mem_variables he.request hh.parameters v hv
  have hname : Typed h.name.toList := typed_name (hh.name_chars he.identifier)
  have hclosed := hparameters.append_cons ')' rfl typed_nil
  rw [htext]
  exact (hh.typed_returnType he).append_cons ' ' rfl (hname.append_cons '(' rfl hclosed)

theorem Handles.wrapperName_chars (hh : Handles .standard e h) (he : e.Valid) :
    ∀ c ∈ h.wrapperName.toList, isIdentifierPart c = true := by
  intro c hc
  rw [Handler.wrapperName, String.toList_append, List.mem_append] at hc
  rcases hc with hc | hc
  · exact hh.name_chars he.identifier c hc
  · have hsuffix : "Wrapper".toList.all isIdentifierPart = true := by decide
    exact List.all_eq_true.1 hsuffix c hc

theorem Handles.heads_structureDeclaration (hh : Handles .standard e h) (he : e.Valid) :
    Heads h.structureDeclaration := by
  have hopening : ("struct " ++ h.returnType ++ " \x7b").toList =
      "struct".toList ++ ' ' :: (h.returnType.toList ++ ' ' :: ['{']) := by simp
  have hresult : ∀ v ∈ h.results, Portable ("    " ++ v.declaration ++ ";").toList := by
    intro v hv
    have htext : ("    " ++ v.declaration ++ ";").toList =
        [' ', ' ', ' '] ++ ' ' :: (v.declaration.toList ++ ';' :: []) := by simp
    have hdeclaration := typed_of_mem_variables he.response hh.results v hv
    rw [htext]
    exact (typed_indentation.append_cons ' ' rfl (hdeclaration.append_cons ';' rfl typed_nil)).portable
  refine heads_lines (List.forall_mem_append.2 ⟨List.forall_mem_append.2 ⟨?_, ?_⟩, ?_⟩)
  · have hstruct : Typed "struct".toList := typed_plain (by decide)
    have hbrace : Typed ['{'] := typed_plain (by decide)
    simp only [List.forall_mem_cons]
    refine ⟨portable_nil, ?_, List.forall_mem_nil _⟩
    rw [hopening]
    exact (hstruct.append_cons ' ' rfl ((hh.typed_returnType he).append_cons ' ' rfl hbrace)).portable
  · rw [List.forall_mem_map]
    exact hresult
  · exact List.forall_mem_singleton.2 (by decide)

theorem Handles.heads_declaration (hh : Handles .standard e h) (he : e.Valid) : Heads h.declaration := by
  have htext : ("    virtual " ++ h.signature ++ " const = 0;").toList =
      "    virtual".toList ++ ' ' :: (h.signature.toList ++ ' ' :: "const = 0;".toList) := by simp
  have hvirtual : Typed "    virtual".toList := typed_plain (by decide)
  have hconst : Typed "const = 0;".toList := typed_plain (by decide)
  refine heads_line (Typed.portable ?_)
  rw [htext]
  exact hvirtual.append_cons ' ' rfl ((hh.typed_signature he).append_cons ' ' rfl hconst)

theorem Handles.heads_wrapperDeclaration (hh : Handles .standard e h) (he : e.Valid) :
    Heads h.wrapperDeclaration := by
  have htext : ("    void " ++ h.wrapperName ++ "(const ParsedFunction& parsed) const;").toList =
      "    void ".toList ++ (h.wrapperName.toList ++ "(const ParsedFunction& parsed) const;".toList) := by
    rw [String.toList_append, String.toList_append, List.append_assoc]
  refine heads_line (Typed.portable ?_)
  rw [htext]
  exact typed_around (hh.wrapperName_chars he) (by decide) (by decide)

/-! ## Branches -/

theorem Handles.heads_branch (hh : Handles .standard e h) (he : e.Valid) : Heads h.branch := by
  have hlabel : ∀ c ∈ h.label.toList, isIdentifierPart c = true := by
    rw [Handler.label, hh.exchange]
    exact isIdentifierPart_of_mem_messageName he.identifier .request
  have hcondition : h.condition.toList =
      "    \x7d else if (parsed.name == ".toList ++ '"' :: (h.label.toList ++ '"' :: ") \x7b".toList) := by
    rw [Handler.toList_condition]
    simp only [List.append_assoc, List.cons_append, List.nil_append]
  have hdot : Uncalled ("    \x7d else if (".toList ++ 'p' :: "arsed.name == ".toList) :=
    uncalled_append_cons (by decide) (uncalled_of_notMem (by decide) (.inl (by decide)))
      (uncalled_of_notMem (by decide) (.inr (by decide)))
  have hlines : ∀ text ∈ [h.condition, h.dispatching], Portable text.toList := by
    simp only [List.forall_mem_cons]
    refine ⟨?_, ?_, List.forall_mem_nil _⟩
    · rw [hcondition]
      exact portable_quoted hlabel (by decide) hdot (uncalled_of_notMem (by decide) (.inl (by decide)))
    · rw [Handler.toList_dispatching]
      exact (typed_around (hh.wrapperName_chars he) (by decide) (by decide)).portable
  exact heads_lines hlines

/-! ## Wrappers -/

theorem typed_extractor (v : Variable) : Typed v.extractor.toList := by
  refine typed_plain ?_
  rw [Variable.extractor]
  split
  · split <;> decide
  all_goals decide

theorem heads_reading {f : Field} {v : Variable} (hv : Holds .standard f v) (hname : isIdentifier f.name = true) :
    Heads (Handler.reading v) := by
  have htext : ("    " ++ v.declaration ++ " = " ++ v.extractor ++ "(parsed, \"" ++ v.name ++ "\");").toList =
      [' ', ' ', ' '] ++ ' ' :: (v.declaration.toList ++ ' ' :: (['='] ++ ' ' :: (v.extractor.toList ++
        '(' :: ("parsed, ".toList ++ '"' :: (v.name.toList ++ '"' :: ");".toList))))) := by
    simp
  have hchars : ∀ c ∈ v.name.toList, isIdentifierPart c = true := by
    rw [hv.1]
    exact fun _ => isIdentifierPart_of_mem hname
  have hnone : Lacks v.name.toList [':', '.', '#', '"', '\\'] := lacks_name hchars rfl
  simp only [Lacks, List.forall_mem_cons] at hnone
  obtain ⟨hcolon, hdot, hsharp, hquote, hbackslash, _⟩ := hnone
  have harguments : Typed ("parsed, ".toList ++ '"' :: (v.name.toList ++ '"' :: ");".toList)) := by
    refine typed_of_lacks ?_ (closed_around (by decide) hquote hbackslash (by decide))
    simp [Lacks, hcolon, hdot, hsharp]
  have hassigner : Typed ['='] := typed_plain (by decide)
  have hextracted := (typed_extractor v).append_cons '(' rfl harguments
  have hdeclaration := typed_declaration hv hname
  refine heads_line (Typed.portable ?_)
  rw [htext]
  exact typed_indentation.append_cons ' ' rfl
    (hdeclaration.append_cons ' ' rfl (hassigner.append_cons ' ' rfl hextracted))

theorem Handles.typed_call (hh : Handles .standard e h) (he : e.Valid) : Typed h.call.toList := by
  have hnone : ∀ c, isIdentifierPart c = false → c ∉ "this->(, );".toList → c ∉ h.call.toList := fun _ =>
    notMem_call hh he
  refine typed_plain ?_
  simp only [Lacks, List.forall_mem_cons]
  exact ⟨hnone ':' rfl (by decide), hnone '.' rfl (by decide), hnone '#' rfl (by decide), hnone '"' rfl (by decide),
    List.forall_mem_nil _⟩

theorem Handles.heads_calling (hh : Handles .standard e h) (he : e.Valid) : Heads h.calling := by
  have hcall := hh.typed_call he
  refine heads_line (Typed.portable ?_)
  cases h.results.isEmpty with
  | true =>
      have htext : ("    " ++ (if true = true then "" else h.returnType ++ " result_ = ") ++ h.call).toList =
          [' ', ' ', ' '] ++ ' ' :: h.call.toList := by
        simp
      rw [htext]
      exact typed_indentation.append_cons ' ' rfl hcall
  | false =>
      have htext : ("    " ++ (if false = true then "" else h.returnType ++ " result_ = ") ++ h.call).toList =
          [' ', ' ', ' '] ++ ' ' :: (h.returnType.toList ++ ' ' :: ("result_ =".toList ++ ' ' :: h.call.toList)) := by
        simp
      have hresult : Typed "result_ =".toList := typed_plain (by decide)
      have htype := hh.typed_returnType he
      rw [htext]
      exact typed_indentation.append_cons ' ' rfl
        (htype.append_cons ' ' rfl (hresult.append_cons ' ' rfl hcall))

/-- No call that is converted goes across the name of a print statement. -/
theorem uncalled_printing {argument : List Char} (h : Lacks argument [':', '.']) :
    Uncalled ("    Serial.print(".toList ++ argument) := by
  have hbehind : Lacks ("rint(".toList ++ argument) [':', '.'] := Lacks.append (by decide) h
  have hname : "    Serial.print(".toList = "    Serial.".toList ++ 'p' :: "rint(".toList := by decide +kernel
  rw [hname, List.append_assoc, List.cons_append]
  exact uncalled_append_cons (by decide) (uncalled_of_notMem (by decide) (.inr (by decide)))
    (uncalled_of_notMem (hbehind ':' (by decide)) (.inl (hbehind '.' (by decide))))

/-- What is printed of a field is the result or a part of it. -/
theorem exists_part_of_result (he : e.response.Valid) {f : Field} (hf : f ∈ e.response) :
    ∃ part : List Char, (resultVariable e f).toList = "result".toList ++ '_' :: part ∧
      Lacks part [':', '#', '"', '('] := by
  rw [resultVariable]
  split
  · have hname : Lacks f.name.toList [':', '#', '"', '('] :=
      lacks_name (fun _ => isIdentifierPart_of_mem (he.identifier f hf)) rfl
    have hdot : Lacks ['.'] [':', '#', '"', '('] := by decide
    exact ⟨['.'] ++ f.name.toList, by simp, hdot.append hname⟩
  · exact ⟨[], by simp, fun _ _ => List.not_mem_nil⟩

/-- Behind the name of a field no call opens: the only parenthesis there that does has `c_str` in front of it. -/
theorem portable_valueLine (he : e.response.Valid) {f : Field} (hf : f ∈ e.response) :
    Portable ("    Serial.print(" ++ (resultVariable e f ++ conversion f.type) ++ ");").toList := by
  obtain ⟨part, hpart, hnone⟩ := exists_part_of_result he hf
  simp only [Lacks, List.forall_mem_cons] at hnone
  obtain ⟨hcolon, hsharp, hquote, hparenthesis, _⟩ := hnone
  have htext : ("    Serial.print(" ++ (resultVariable e f ++ conversion f.type) ++ ");").toList =
      ("    Serial.print(".toList ++ "result".toList) ++ '_' :: (part ++ (conversion f.type ++ ");").toList) := by
    simp [hpart]
  have hbehind : Lacks (conversion f.type).toList [':', '#', '"'] := by cases f.type <;> decide
  simp only [Lacks, List.forall_mem_cons] at hbehind
  obtain ⟨hcolonBehind, hsharpBehind, hquoteBehind, _⟩ := hbehind
  have huncalled : Uncalled (part ++ (conversion f.type ++ ");").toList) := by
    cases htype : f.type with
    | text =>
        have hsplit : part ++ (conversion .text ++ ");").toList = (part ++ ".c".toList) ++ '_' :: "str());".toList := by
          simp [conversion]
        rw [hsplit]
        refine uncalled_append_cons (by decide) (uncalled_of_notMem ?_ (.inr ?_))
          (uncalled_of_notMem (by decide) (.inl (by decide)))
        · simp [hcolon]
        · simp [hparenthesis]
    | _ =>
        refine uncalled_of_notMem ?_ (.inr ?_)
        · simp [conversion, hcolon]
        · simp [conversion, hparenthesis]
  rw [htext]
  refine portable_of_notMem ?_ ?_ ?_ (closed_of_notMem ?_)
  · simp [hsharp, hsharpBehind]
  · simp [hcolon, hcolonBehind]
  · exact uncalled_append_cons (by decide) (uncalled_printing (by decide)) huncalled
  · simp [hquote, hquoteBehind]

theorem portable_literal {text : String} (htext : ∀ c ∈ text.toList, isIdentifierPart c = true) :
    Portable ("    Serial.print(\"" ++ text ++ "\");").toList := by
  have hline : ("    Serial.print(\"" ++ text ++ "\");").toList =
      ("    Serial.print(".toList ++ []) ++ '"' :: (text.toList ++ '"' :: ");".toList) := by
    simp
  rw [hline]
  exact portable_quoted htext (by decide) (uncalled_printing (by decide))
    (uncalled_of_notMem (by decide) (.inl (by decide)))

theorem portable_mark (m : Mark) : Portable ("    Serial.print(" ++ m.definedName ++ ");").toList := by
  have hname : m.definedName.toList.all isIdentifierPart = true := by cases m <;> decide
  have hargument : Lacks (m.definedName.toList ++ [')', ';']) [':', '.', '#', '"'] :=
    (lacks_name (List.all_eq_true.1 hname) rfl).append (by decide)
  have hline : ("    Serial.print(" ++ m.definedName ++ ");").toList =
      "    Serial.print(".toList ++ (m.definedName.toList ++ [')', ';']) := by
    simp
  have hlacks : Lacks ("    Serial.print(".toList ++ (m.definedName.toList ++ [')', ';'])) [':', '#', '"'] :=
    Lacks.append (by decide) (hargument.subset (by decide))
  rw [hline]
  exact portable_of_notMem (hlacks '#' (by decide)) (hlacks ':' (by decide))
    (uncalled_printing (hargument.subset (by decide))) (closed_of_notMem (hlacks '"' (by decide)))

theorem heads_literal {text : String} (htext : ∀ c ∈ text.toList, isIdentifierPart c = true) :
    Heads (Printed.literal text).statement :=
  heads_line (portable_literal htext)

theorem heads_mark (m : Mark) : Heads (Printed.mark m).statement :=
  heads_line (portable_mark m)

theorem heads_value (he : e.response.Valid) {f : Field} (hf : f ∈ e.response) :
    Heads (Printed.value f.type (resultVariable e f)).statement := by
  by_cases htype : f.type = .nothing
  · rw [htype]
    exact heads_empty
  · rw [statement_eq (by simp [htype])]
    exact heads_line (portable_valueLine he hf)

theorem Handles.heads_statement (hh : Handles .standard e h) (he : e.Valid) :
    ∀ p ∈ h.printed, Heads p.statement := by
  have hfield : ∀ f ∈ e.response, ∀ p ∈ h.printedField f, Heads p.statement := by
    intro f hf
    simp only [Handler.printedField, hh.resultOf_eq, List.forall_mem_cons]
    exact ⟨heads_literal fun _ => isIdentifierPart_of_mem (he.response.identifier f hf), heads_mark _,
      heads_value he.response hf, List.forall_mem_nil _⟩
  intro p hp
  rw [Handler.printed, hh.exchange, List.mem_append, List.mem_append] at hp
  rcases hp with (hp | hp) | hp
  · revert p
    simp only [List.forall_mem_cons]
    exact ⟨heads_literal (isIdentifierPart_of_mem_messageName he.identifier .response), heads_mark _,
      List.forall_mem_nil _⟩
  · rcases mem_or_mem_of_mem_intercalate hp with hp | ⟨printed, hprinted, hp⟩
    · rw [List.mem_singleton.1 hp]
      exact heads_mark _
    · obtain ⟨f, hf, rfl⟩ := List.mem_map.1 hprinted
      exact hfield f hf p hp
  · revert p
    simp only [List.forall_mem_cons]
    exact ⟨heads_mark _, heads_mark _, List.forall_mem_nil _⟩

/-- The colons in front of the name of a wrapper are not those of a name that is replaced. -/
theorem Handles.portable_wrapperHead (hh : Handles .standard e h) (he : e.Valid) :
    Portable ("void Client::" ++ h.wrapperName ++ "(const ParsedFunction& parsed) const \x7b").toList := by
  have htext : ("void Client::" ++ h.wrapperName ++ "(const ParsedFunction& parsed) const \x7b").toList =
      "void Client::".toList ++ (h.wrapperName.toList ++ "(const ParsedFunction& parsed) const \x7b".toList) := by
    simp
  have hname : ∀ c, isIdentifierPart c = false → c ∉ h.wrapperName.toList := fun _ =>
    notMem_of_isIdentifierPart (hh.wrapperName_chars he)
  have hcolon : ':' ∉ h.wrapperName.toList ++ "(const ParsedFunction& parsed) const \x7b".toList := by
    simp [hname ':' rfl]
  have hnone : ∀ word : List Char, word.head? = some 's' → ':' ∈ word → ¬ word <:+: "void Client::".toList ++
      (h.wrapperName.toList ++ "(const ParsedFunction& parsed) const \x7b".toList) := by
    intro word hword hmem hoccurs
    have hbehind := infix_right_of_append (fun c hc => ?_) hoccurs
    · exact hcolon (hbehind.subset hmem)
    · rw [hword] at hc
      cases hc
      decide
  have hdot : '.' ∉ "void Client::".toList ++
      (h.wrapperName.toList ++ "(const ParsedFunction& parsed) const \x7b".toList) := by
    simp [hname '.' rfl]
  rw [htext]
  refine portable_of_absent (directive_absent ?_) (hnone _ rfl (by decide)) ?_ (closed_of_notMem ?_)
  · simp [hname '#' rfl]
  · simp only [Uncalled, convertedCalls, List.forall_mem_cons]
    exact ⟨hnone _ rfl (by decide), fun hoccurs => hdot (hoccurs.subset (by decide)),
      fun hoccurs => hdot (hoccurs.subset (by decide)), List.forall_mem_nil _⟩
  · simp [hname '"' rfl]

theorem Handles.heads_wrapper (hh : Handles .standard e h) (he : e.Valid) : Heads h.wrapper := by
  have hhead : Heads (lines ["", "void Client::" ++ h.wrapperName ++ "(const ParsedFunction& parsed) const \x7b"]) :=
    heads_lines (List.forall_mem_cons.2
      ⟨portable_nil, List.forall_mem_singleton.2 (hh.portable_wrapperHead he)⟩)
  have hreadings : Heads (String.join (h.parameters.map Handler.reading)) := by
    refine heads_join (List.forall_mem_map.2 fun v hv => ?_)
    obtain ⟨f, hf, hholds⟩ := exists_left_of_forall₂ hh.parameters hv
    exact heads_reading hholds (he.request.identifier f (List.mem_filter.1 hf).1)
  have hprinted : Heads (String.join (h.printed.map Printed.statement)) :=
    heads_join (List.forall_mem_map.2 (hh.heads_statement he))
  have hend : Heads (line "\x7d") := heads_line (by decide)
  exact (((hhead.append hreadings).append (hh.heads_calling he)).append hprinted).append hend

/-! ## Handlers to be filled in -/

theorem Handles.portable_returning (hh : Handles .standard e h) (he : e.Valid) {value : String}
    (hvalue : h.initialValue? = some value) : Portable ("        return " ++ value ++ ";").toList := by
  rw [Handler.initialValue?] at hvalue
  split at hvalue
  · cases hvalue
  · cases hvalue
    rw [Variable.initialValue]
    split <;> decide +kernel
  · cases hvalue
    have htext : ("        return " ++ (h.returnType ++ "()") ++ ";").toList =
        "        return".toList ++ ' ' :: (h.returnType.toList ++ '(' :: [')', ';']) := by
      simp
    have hreturn : Typed "        return".toList := typed_plain (by decide)
    have hclosing : Typed [')', ';'] := typed_plain (by decide)
    rw [htext]
    exact (hreturn.append_cons ' ' rfl ((hh.typed_returnType he).append_cons '(' rfl hclosing)).portable

theorem Handles.heads_stub (hh : Handles .standard e h) (he : e.Valid) : Heads h.stub := by
  have hopening : ("    " ++ h.signature ++ " const override \x7b").toList =
      [' ', ' ', ' '] ++ ' ' :: (h.signature.toList ++ ' ' :: "const override \x7b".toList) := by
    simp
  have hoverride : Typed "const override \x7b".toList := typed_plain (by decide)
  refine heads_lines (List.forall_mem_append.2 ⟨List.forall_mem_append.2 ⟨?_, fun text htext => ?_⟩, ?_⟩)
  · refine List.forall_mem_singleton.2 ?_
    rw [hopening]
    exact (typed_indentation.append_cons ' ' rfl
      ((hh.typed_signature he).append_cons ' ' rfl hoverride)).portable
  · obtain ⟨value, hvalue, rfl⟩ := Option.map_eq_some_iff.1 (Option.mem_toList.1 htext)
    exact hh.portable_returning he hvalue
  · exact List.forall_mem_singleton.2 (by decide)

end Pieces

end SerialContract.Firmware
