import SerialContract.Proofs.Firmware.Pieces

/-!
# Programs of the firmware are portable

The two files of the class that answers requests, and the program to be filled in, are portable for every contract
with the types that it has by default: so are the lines of their templates, and what is made for the exchanges.
-/

namespace SerialContract.Firmware

open Target

/-! ## The lines of the templates -/

/-- The templates of the programs that stand behind the parser. -/
def programs : List (String × String) := skeletons.drop 2

/-- The line of the header that declares the structures. -/
def structuresTemplate : String := "\x7b\x7bresponse_structs\x7d\x7d"

/-- The line of the header that declares the methods. -/
def methodsTemplate : String := "\x7b\x7bvirtual_declarations\x7d\x7d\x7b\x7bwrapper_declarations\x7d\x7d"

/-- The line of the program that defines the wrappers. -/
def wrappersTemplate : String := "\x7b\x7bwrapper_implementations\x7d\x7d"

/-- The line that prints the name of the field of an error. -/
def reportTemplate : String := "    Serial.print(\"\x7b\x7berror_field\x7d\x7d\");"

/-- The line of the program to be filled in that overrides the handlers. -/
def stubsTemplate : String := "\x7b\x7bhandler_stubs\x7d\x7d\x7d;"

/-- The lines of these templates that have placeholders. -/
def places : List String := [
  structuresTemplate,
  methodsTemplate,
  openingTemplate,
  receivingTemplate,
  branchesTemplate,
  wrappersTemplate,
  reportTemplate,
  stubsTemplate]

/-- A line of a template that stands as it is in every program, and is portable. -/
def Ready (text : String) : Prop :=
  Template.parts text = text.toList.map .plain ∧ Portable text.toList

theorem ready_of_chars {text : String} {chars : List Char} (h : text = String.ofList chars)
    (hready : ¬ Template.opening <:+: chars ∧ Portable chars) : Ready text := by
  subst h
  rw [Ready, Template.parts, String.toList_ofList]
  refine ⟨Template.partsAfter_plain fun place hplace _ => ?_, hready.2⟩
  exact Template.leadingName?_eq_none_of_opening fun hopening => hready.1 (hopening.isInfix.trans hplace.isInfix)

theorem place_or_ready : ∀ skeleton ∈ programs, ∃ texts, skeleton.2 = lines texts ∧
    ∀ text ∈ texts, text ∈ places ∨ Ready text := by
  simp only [programs, skeletons, List.drop_succ_cons, List.drop_zero, List.forall_mem_cons]
  refine ⟨?_, ?_, ?_, List.forall_mem_nil _⟩
  all_goals
    refine ⟨_, rfl, ?_⟩
    repeat
      refine List.forall_mem_cons.2
        ⟨by first | exact .inr (ready_of_chars rfl (by decide +kernel)) | exact .inl (by decide), ?_⟩
    exact List.forall_mem_nil _

/-! ## What stands in the places -/

section Places

variable {c : Contract} {handlers : List Handler}

theorem Heads.portable_append {value : String} (h : Heads value) {behind : String} (hbehind : Portable behind.toList) :
    Portable (value ++ behind).toList := by
  rw [String.toList_append]
  exact h _ hbehind

/-- A line that begins with a placeholder for a text that is made for the exchanges. -/
theorem portable_leading {text value : String} (name behind : String)
    (hparts : Template.parts text = .placeholder name.toList :: behind.toList.map .plain)
    (hvalue : (replacements c handlers).get? name = some value) (hheads : Heads value)
    (hbehind : Portable behind.toList) : Portable (Template.filledLine (replacements c handlers) text).toList := by
  have hfront : Template.parts text =
      "".toList.map .plain ++ .placeholder name.toList :: behind.toList.map .plain := hparts
  rw [Template.filledLine_placeholder hfront hvalue, String.empty_append]
  exact hheads.portable_append hbehind

theorem portable_methodsLine {declarations wrappers : String} (hdeclarations : Heads declarations)
    (hwrappers : Heads wrappers)
    (hget : (replacements c handlers).get? "virtual_declarations" = some declarations)
    (hgetWrappers : (replacements c handlers).get? "wrapper_declarations" = some wrappers) :
    Portable (Template.filledLine (replacements c handlers) methodsTemplate).toList := by
  have hparts : Template.parts methodsTemplate =
      [.placeholder "virtual_declarations".toList, .placeholder "wrapper_declarations".toList] :=
    (Template.parts_of_chars rfl).trans (by decide)
  have hfilled : Template.filledLine (replacements c handlers) methodsTemplate = declarations ++ wrappers := by
    rw [Template.filledLine, hparts]
    simp [Template.fill, Template.Part.filled, hget, hgetWrappers]
  rw [hfilled]
  exact hdeclarations.portable_append hwrappers.portable

/-- The speed of the line is a number, and none of the calls that are converted goes up to it. -/
theorem portable_openingLine (rate : BaudRate) : Portable ("    Serial.begin(" ++ rate.text ++ ");").toList := by
  have htext : ("    Serial.begin(" ++ rate.text ++ ");").toList =
      "    Serial.b".toList ++ 'e' :: ("gin(".toList ++ (rate.text.toList ++ [')', ';'])) := by
    simp
  have hdigits : ∀ d, d.isDigit = false → d ∉ rate.text.toList := by
    have htext : rate.text.toList = Nat.toDigits 10 rate.value.toNat := Nat.toList_repr
    intro d hd hmem
    rw [htext] at hmem
    exact Bool.false_ne_true (hd.symm.trans (Nat.isDigit_of_mem_toDigits (by decide) (by decide) hmem))
  have huncalled : Uncalled ("gin(".toList ++ (rate.text.toList ++ [')', ';'])) := by
    refine uncalled_of_notMem ?_ (.inl ?_)
    · simp [hdigits ':' rfl]
    · simp [hdigits '.' rfl]
  rw [htext]
  refine portable_of_notMem ?_ ?_ ?_ (closed_of_notMem ?_)
  · simp [hdigits '#' rfl]
  · simp [hdigits ':' rfl]
  · exact uncalled_append_cons (by decide) (uncalled_of_notMem (by decide) (.inr (by decide))) huncalled
  · simp [hdigits '"' rfl]

theorem filledLine_report : Template.filledLine (replacements c handlers) reportTemplate =
    "    Serial.print(\"" ++ Exchange.errorField ++ "\");" := by
  have hparts : Template.parts reportTemplate =
      "    Serial.print(\"".toList.map .plain ++ .placeholder "error_field".toList :: "\");".toList.map .plain :=
    (Template.parts_of_chars rfl).trans (by decide)
  have hget : (replacements c handlers).get? "error_field" = some Exchange.errorField :=
    NameMap.get?_ofList_of_mem placeholders_nodup (List.mem_append_left _ (by simp))
  exact Template.filledLine_placeholder hparts hget

theorem heads_map (hhandlers : ∀ h ∈ handlers, ∃ e : Exchange, e.Valid ∧ Handles .standard e h) {f : Handler → String}
    (hf : ∀ e h, Exchange.Valid e → Handles .standard e h → Heads (f h)) : ∀ text ∈ handlers.map f, Heads text := by
  refine List.forall_mem_map.2 fun h hh => ?_
  obtain ⟨e, he, hhandles⟩ := hhandlers h hh
  exact hf e h he hhandles

theorem heads_structures (hhandlers : ∀ h ∈ handlers, ∃ e : Exchange, e.Valid ∧ Handles .standard e h) :
    Heads (String.join ((handlers.filter (·.returnsStructure)).map Handler.structureDeclaration)) :=
  heads_join (heads_map (fun h hh => hhandlers h (List.mem_filter.1 hh).1)
    fun _ _ he hh => hh.heads_structureDeclaration he)

/-- Every line with placeholders is portable once they are replaced. -/
theorem portable_place (hhandlers : ∀ h ∈ handlers, ∃ e : Exchange, e.Valid ∧ Handles .standard e h) :
    ∀ text ∈ places, Portable (Template.filledLine (replacements c handlers) text).toList := by
  have hget : (replacements c handlers).get? "response_structs" = some
      (String.join ((handlers.filter (·.returnsStructure)).map Handler.structureDeclaration)) :=
    NameMap.get?_ofList_of_mem placeholders_nodup (List.mem_append_left _ (by simp))
  have hdeclarations := heads_join (heads_map hhandlers fun _ _ he hh => hh.heads_declaration he)
  have hwrapperDeclarations := heads_join (heads_map hhandlers fun _ _ he hh => hh.heads_wrapperDeclaration he)
  have hbranches := heads_join (heads_map hhandlers fun _ _ he hh => hh.heads_branch he)
  have hwrappers := heads_join (heads_map hhandlers fun _ _ he hh => hh.heads_wrapper he)
  have hstubs := heads_intercalate (heads_map hhandlers fun _ _ he hh => hh.heads_stub he)
  simp only [places, List.forall_mem_cons]
  refine ⟨?_, ?_, ?_, ?_, ?_, ?_, ?_, ?_, List.forall_mem_nil _⟩
  · exact portable_leading "response_structs" "" ((Template.parts_of_chars rfl).trans (by decide)) hget
      (heads_structures hhandlers) portable_nil
  · exact portable_methodsLine hdeclarations hwrapperDeclarations (get?_methodTexts (by simp [methodTexts]))
      (get?_methodTexts (by simp [methodTexts]))
  · rw [filledLine_opening]
    exact portable_openingLine _
  · rw [filledLine_receiving]
    decide +kernel
  · exact portable_leading "respond_invocations" lastCondition ((Template.parts_of_chars rfl).trans (by decide))
      (get?_methodTexts (by simp [methodTexts])) hbranches (by decide +kernel)
  · exact portable_leading "wrapper_implementations" "" ((Template.parts_of_chars rfl).trans (by decide))
      (get?_methodTexts (by simp [methodTexts])) hwrappers portable_nil
  · rw [filledLine_report]
    exact portable_literal (List.all_eq_true.1 rfl)
  · exact portable_leading "handler_stubs" "\x7d;" ((Template.parts_of_chars rfl).trans (by decide))
      (get?_methodTexts (by simp [methodTexts])) hstubs (by decide)

end Places

/-! ## Programs -/

/-- A program that is made of its template for handlers of valid exchanges is portable. -/
theorem portable_of_populate {c : Contract} {handlers : List Handler} {skeleton : String × String} {filled : String}
    (hhandlers : ∀ h ∈ handlers, ∃ e : Exchange, e.Valid ∧ Handles .standard e h) (hskeleton : skeleton ∈ programs)
    (hfilled : Template.populate skeleton.2 (replacements c handlers) = .ok filled) : Portable filled.toList := by
  obtain ⟨texts, htexts, hready⟩ := place_or_ready skeleton hskeleton
  have hmem : (skeleton.1, lines texts) ∈ skeletons := by
    rw [← htexts]
    exact List.mem_of_mem_drop hskeleton
  rw [htexts] at hfilled
  rw [eq_lines_of_populate hmem hfilled]
  refine (heads_lines (List.forall_mem_map.2 fun text htext => ?_)).portable
  rcases hready text htext with hplace | ⟨hparts, hportable⟩
  · exact portable_place hhandlers text hplace
  · rwa [Template.filledLine_plain hparts]

end SerialContract.Firmware
