import SerialContract.Proofs.Contract.Identifier
import SerialContract.Proofs.Firmware.Handler
import SerialContract.Proofs.Firmware.Printing
import SerialContract.Proofs.Wire.LineGrammar

/-!
# What a wrapper prints

A wrapper prints the line of a response: its name, and in parentheses every field with its value behind it, if
it carries one.
-/

namespace SerialContract.Firmware

/-! ## Responses -/

section Responses

variable (e : Exchange) (w : Field → List Char)

/-- A field with its text, which is empty if the field carries no value. -/
def argumentOf (f : Field) : TextLine.Argument := ⟨f, if f.type = .nothing then [] else w f⟩

/-- The line of a response whose fields have these texts. -/
def responseLine : List Char :=
  (e.messageName .response).toList ++
    '(' :: ([','].intercalate (e.response.map fun f => (argumentOf w f).spelling) ++ [')', '\n'])

/-- The variable that holds the value of a field: the result, or a part of it if it has several. -/
def resultVariable (f : Field) : String :=
  if 1 < (Host.valued e.response).length then "result_." ++ f.name else "result_"

/-- What stands behind a variable of a type where its value is printed. -/
def conversion : FieldType → String
  | .float => ", FLOAT_PRECISION"
  | .text => ".c_str()"
  | .integer | .nothing => ""

/-- The expression for the value of a field. -/
def valueExpression (f : Field) : String := resultVariable e f ++ conversion f.type

/-- What the arguments of print statements stand for: the values of the fields, string literals and defined
names. -/
def meaning (defined : List (List Char × List Char)) (argument : List Char) : Option (List Char) :=
  match (Host.valued e.response).find? fun f => (valueExpression e f).toList == argument with
  | some f => some (w f)
  | none => (literal? argument).or (defined.lookup argument)

end Responses

/-- Definitions in which every mark has its name. -/
def DefinesMarks (defined : List (List Char × List Char)) : Prop :=
  ∀ m : Mark, defined.lookup m.definedName.toList = some [m.char]

/-! ## What the arguments mean -/

section Meaning

variable {e : Exchange} {w : Field → List Char} {defined : List (List Char × List Char)}

theorem head?_valueExpression (f : Field) : (valueExpression e f).toList.head? = some 'r' := by
  rw [valueExpression, resultVariable]
  split
  · simp
  · simp

/-- Fields with different names have different expressions, and a field that is alone has none beside it. -/
theorem eq_of_valueExpression_eq (he : e.response.Valid) {f g : Field} (hf : f ∈ Host.valued e.response)
    (hg : g ∈ Host.valued e.response) (heq : valueExpression e f = valueExpression e g) : f = g := by
  have hfields : ∀ f ∈ Host.valued e.response, f ∈ e.response := fun f hf => (List.mem_filter.1 hf).1
  by_cases hmany : 1 < (Host.valued e.response).length
  · -- behind the name stands nothing that could belong to an identifier, so the name can be read off
    have hname : ∀ f ∈ Host.valued e.response,
        (f.name.toList ++ (conversion f.type).toList).takeWhile isIdentifierPart = f.name.toList := by
      intro f hf
      have hidentifier := fun c => isIdentifierPart_of_mem (he.identifier f (hfields f hf)) (c := c)
      have hconversion : (conversion f.type).toList.takeWhile isIdentifierPart = [] := by
        cases f.type <;> decide +kernel
      rw [List.takeWhile_append_of_pos hidentifier, hconversion, List.append_nil]
    have hlists := congrArg String.toList heq
    simp only [valueExpression, resultVariable, if_pos hmany, String.toList_append, List.append_assoc,
      List.append_cancel_left_eq] at hlists
    have hsame := congrArg (List.takeWhile isIdentifierPart) hlists
    rw [hname f hf, hname g hg, String.toList_inj] at hsame
    exact List.inj_on_of_nodup_map he.distinct (hfields f hf) (hfields g hg) hsame
  · obtain ⟨i, hi, rfl⟩ := List.mem_iff_getElem.1 hf
    obtain ⟨j, hj, rfl⟩ := List.mem_iff_getElem.1 hg
    obtain rfl : i = j := by omega
    rfl

theorem meaning_valueExpression (he : e.response.Valid) {f : Field} (hf : f ∈ Host.valued e.response) :
    meaning e w defined (valueExpression e f).toList = some (w f) := by
  have hfind : (Host.valued e.response).find?
      (fun g => (valueExpression e g).toList == (valueExpression e f).toList) = some f :=
    find?_of_unique hf BEq.rfl fun g hg heq =>
      eq_of_valueExpression_eq he hg hf (String.toList_inj.1 (eq_of_beq heq))
  rw [meaning, hfind]

theorem meaning_of_head?_ne {argument : List Char} (h : argument.head? ≠ some 'r') :
    meaning e w defined argument = (literal? argument).or (defined.lookup argument) := by
  have hfind : (Host.valued e.response).find? (fun g => (valueExpression e g).toList == argument) = none := by
    rw [List.find?_eq_none]
    intro g _ heq
    exact h (eq_of_beq heq ▸ head?_valueExpression g)
  rw [meaning, hfind]

theorem meaning_literal {text : List Char} (h : ∀ c ∈ text, isIdentifierPart c = true) :
    meaning e w defined ('"' :: (text ++ ['"'])) = some text := by
  have hquote : '"' ∉ text := fun hmem => absurd (h _ hmem) (by decide)
  have hbackslash : '\\' ∉ text := fun hmem => absurd (h _ hmem) (by decide)
  rw [meaning_of_head?_ne (by simp), literal?_quoted hquote hbackslash, Option.some_or]

theorem meaning_definedName (m : Mark) : meaning e w defined m.definedName.toList =
    defined.lookup m.definedName.toList := by
  have hnone : literal? m.definedName.toList = none := by cases m <;> decide
  rw [meaning_of_head?_ne (by cases m <;> decide), hnone, Option.none_or]

end Meaning

/-! ## What statements print -/

section Statements

/-- The argument of a print statement. -/
def printedArgument : Printed → String
  | .literal text => "\"" ++ text ++ "\""
  | .mark m => m.definedName
  | .value type expression => expression ++ conversion type

theorem statement_eq {p : Printed} (hp : ∀ expression, p ≠ .value .nothing expression) :
    p.statement = line ("    Serial.print(" ++ printedArgument p ++ ");") := by
  cases p with
  | literal text =>
      have hquote : "    Serial.print(\"" = "    Serial.print(" ++ "\"" := rfl
      have hclose : "\");" = "\"" ++ ");" := rfl
      rw [Printed.statement, printedArgument, hquote, hclose]
      simp only [String.append_assoc]
  | mark m => rfl
  | value type expression =>
      cases type with
      | float => simp [Printed.statement, printedArgument, conversion, String.append_assoc]
      | integer => simp [Printed.statement, printedArgument, conversion]
      | text => simp [Printed.statement, printedArgument, conversion, String.append_assoc]
      | nothing => exact absurd rfl (hp expression)

variable {e : Exchange} {w : Field → List Char} {defined : List (List Char × List Char)}

theorem prints_statement {p : Printed} {out : List Char} (hp : ∀ expression, p ≠ .value .nothing expression)
    (hnewline : '\n' ∉ (printedArgument p).toList)
    (hmeaning : meaning e w defined (printedArgument p).toList = some out) :
    Prints (meaning e w defined) p.statement.toList out := by
  have hfront : "    Serial.print(".toList = indentation ++ printing := by decide +kernel
  have hline : p.statement.toList = indentation ++ printing ++ (printedArgument p).toList ++ printed ++ ['\n'] := by
    rw [statement_eq hp, line]
    simp only [String.toList_append, hfront]
    rfl
  rw [hline]
  exact Prints.statement hnewline hmeaning

theorem prints_literal {text : String} (h : ∀ c ∈ text.toList, isIdentifierPart c = true) :
    Prints (meaning e w defined) (Printed.literal text).statement.toList text.toList := by
  have hargument : (printedArgument (.literal text)).toList = '"' :: (text.toList ++ ['"']) := by
    simp [printedArgument]
  have hnewline : '\n' ∉ text.toList := fun hmem => absurd (h _ hmem) (by decide)
  apply prints_statement
  · simp
  · simp [hargument, hnewline]
  · rw [hargument]
    exact meaning_literal h

theorem prints_mark (hdefined : DefinesMarks defined) (m : Mark) :
    Prints (meaning e w defined) (Printed.mark m).statement.toList [m.char] := by
  apply prints_statement
  · simp
  · cases m <;> decide +kernel
  · exact (meaning_definedName m).trans (hdefined m)

theorem newline_notMem_valueExpression (he : e.response.Valid) {f : Field} (hf : f ∈ e.response) :
    '\n' ∉ (valueExpression e f).toList := by
  have hname : '\n' ∉ f.name.toList := fun hmem =>
    absurd (isIdentifierPart_of_mem (he.identifier f hf) hmem) (by decide)
  have hvariable : '\n' ∉ (resultVariable e f).toList := by
    rw [resultVariable]
    split
    · simp [hname]
    · simp
  have hconversion : '\n' ∉ (conversion f.type).toList := by cases f.type <;> decide +kernel
  simp [valueExpression, hvariable, hconversion]

theorem prints_value (he : e.response.Valid) {f : Field} (hf : f ∈ e.response) :
    Prints (meaning e w defined) (Printed.value f.type (resultVariable e f)).statement.toList (argumentOf w f).text := by
  by_cases htype : f.type = .nothing
  · rw [htype, argumentOf, if_pos htype]
    exact Prints.nil
  · have hvalued : f ∈ Host.valued e.response := List.mem_filter.2 ⟨hf, by simpa using htype⟩
    rw [argumentOf, if_neg htype]
    apply prints_statement
    · simp [htype]
    · exact newline_notMem_valueExpression he hf
    · exact meaning_valueExpression he hvalued

end Statements

/-! ## What is printed of the response -/

section Response

variable {mapping : TypeMapping} {e : Exchange} {h : Handler} {w : Field → List Char}
  {defined : List (List Char × List Char)}

theorem Handles.resultOf_eq (hh : Handles mapping e h) (f : Field) : h.resultOf f = resultVariable e f := by
  have hstructure : h.returnsStructure = decide (1 < (Host.valued e.response).length) := by
    rw [hh.results.length_eq]
    rfl
  rw [Handler.resultOf, hstructure, resultVariable]
  by_cases hmany : 1 < (Host.valued e.response).length
  · rw [if_pos hmany, if_pos (decide_eq_true hmany)]
  · rw [if_neg hmany, if_neg (by simpa using hmany)]

/-- The text of print statements. -/
def statements (ps : List Printed) : List Char :=
  ps.flatMap fun p => p.statement.toList

theorem statements_append (ps qs : List Printed) : statements (ps ++ qs) = statements ps ++ statements qs :=
  List.flatMap_append

theorem statements_cons (p : Printed) (ps : List Printed) : statements (p :: ps) = p.statement.toList ++ statements ps :=
  List.flatMap_cons

theorem statements_singleton (p : Printed) : statements [p] = p.statement.toList :=
  List.flatMap_singleton _ _

theorem prints_field (hh : Handles mapping e h) (he : e.response.Valid) (hdefined : DefinesMarks defined) {f : Field}
    (hf : f ∈ e.response) :
    Prints (meaning e w defined) (statements (h.printedField f)) (argumentOf w f).spelling := by
  have hname : Prints (meaning e w defined) (Printed.literal f.name).statement.toList f.name.toList :=
    prints_literal fun _ => isIdentifierPart_of_mem (he.identifier f hf)
  have hvalue : Prints (meaning e w defined) (Printed.value f.type (resultVariable e f)).statement.toList
      (argumentOf w f).text := prints_value he hf
  rw [Handler.printedField, hh.resultOf_eq, statements_cons, statements_cons, statements_singleton]
  exact hname.append ((prints_mark hdefined .assigner).append hvalue)

theorem prints_fields (hh : Handles mapping e h) (he : e.response.Valid) (hdefined : DefinesMarks defined)
    {fields : FieldSet} (hfields : ∀ f ∈ fields, f ∈ e.response) : Prints (meaning e w defined)
      (statements ([Printed.mark .delimiter].intercalate (fields.map h.printedField)))
      ([','].intercalate (fields.map fun f => (argumentOf w f).spelling)) := by
  induction fields with
  | nil => exact Prints.nil
  | cons f fields ih =>
      rw [List.forall_mem_cons] at hfields
      have hfirst := prints_field (w := w) hh he hdefined hfields.1
      cases fields with
      | nil =>
          simp only [List.map_cons, List.map_nil, List.intercalate_singleton]
          exact hfirst
      | cons g rest =>
          have hrest := ih hfields.2
          simp only [List.map_cons, List.intercalate_cons_cons, statements_append, statements_singleton] at hrest ⊢
          exact (hfirst.append (prints_mark hdefined .delimiter)).append hrest

theorem prints_printed (hh : Handles mapping e h) (he : e.Valid) (hdefined : DefinesMarks defined) :
    Prints (meaning e w defined) (statements h.printed) (responseLine e w) := by
  have hname := isIdentifierPart_of_mem_messageName he.identifier .response
  have hmarks := prints_mark (e := e) (w := w) hdefined
  have hfields := prints_fields (w := w) hh he.response hdefined fun _ hf => hf
  have hend := (hmarks .ender).append (hmarks .terminator)
  have hstart := (prints_literal hname).append (hmarks .beginner)
  have hall := (hstart.append hfields).append hend
  rw [Handler.printed, hh.exchange, statements_append, statements_append, statements_cons, statements_singleton,
    statements_cons, statements_singleton]
  have hline : responseLine e w = (e.messageName .response).toList ++ [Mark.beginner.char] ++
      [','].intercalate (e.response.map fun f => (argumentOf w f).spelling) ++
        ([Mark.ender.char] ++ [Mark.terminator.char]) := by
    rw [responseLine, List.append_assoc, List.append_assoc]
    rfl
  rw [hline]
  exact hall

end Response

/-! ## What stands in front of it -/

section Front

variable {meaning : List Char → Option (List Char)} {mapping : TypeMapping} {e : Exchange} {h : Handler}

theorem dot_notMem_of_isIdentifier {name : String} (h : isIdentifier name = true) : '.' ∉ name.toList :=
  fun hmem => absurd (isIdentifierPart_of_mem h hmem) (by decide)

theorem Handles.name_chars (hh : Handles mapping e h) (he : isIdentifier e.name = true) :
    ∀ c ∈ h.name.toList, isIdentifierPart c = true := by
  rw [Handler.name, hh.exchange]
  exact isIdentifierPart_of_mem_camelCase he

theorem isIdentifier_of_mem_parameters (hh : Handles mapping e h) (he : e.request.Valid) {v : Variable}
    (hv : v ∈ h.parameters) : isIdentifier v.name = true := by
  obtain ⟨f, hf, hname, _⟩ := exists_left_of_forall₂ hh.parameters hv
  rw [hname]
  exact he.identifier f (List.mem_filter.1 hf).1

/-- A line that begins with the name of a type. -/
theorem silent_of_typeName {typeName rest : String} (htype : Silent typeName.toList) (hrest : '.' ∉ rest.toList) :
    Silent ("    " ++ typeName ++ " " ++ rest).toList := by
  have htext : ("    " ++ typeName ++ " " ++ rest).toList =
      [' ', ' ', ' '] ++ ' ' :: (typeName.toList ++ ' ' :: rest.toList) := by
    simp
  -- the beginning of a print statement has no blank, so it does not reach over one
  have hbehind := htype.append_cons (c := ' ') (by decide) (silent_of_dot_notMem hrest)
  rw [htext]
  exact (silent_of_dot_notMem (by decide)).append_cons (by decide) hbehind

theorem prints_reading {v : Variable} (hname : isIdentifier v.name = true) (htype : Silent v.typeName.toList) :
    Prints meaning (Handler.reading v).toList [] := by
  have hextractor : '.' ∉ v.extractor.toList := by
    rw [Variable.extractor]
    split
    · split <;> decide +kernel
    all_goals decide +kernel
  have hrest : '.' ∉ (v.name ++ " = " ++ v.extractor ++ "(parsed, \"" ++ v.name ++ "\");").toList := by
    simp [dot_notMem_of_isIdentifier hname, hextractor]
  have htext : "    " ++ v.declaration ++ " = " ++ v.extractor ++ "(parsed, \"" ++ v.name ++ "\");" =
      "    " ++ v.typeName ++ " " ++ (v.name ++ " = " ++ v.extractor ++ "(parsed, \"" ++ v.name ++ "\");") := by
    simp only [Variable.declaration, String.append_assoc]
  rw [Handler.reading, htext]
  exact Prints.line (silent_of_typeName htype hrest)

/-- A call is made of names and a few other characters. -/
theorem notMem_call (hh : Handles mapping e h) (he : e.Valid) {d : Char} (hd : isIdentifierPart d = false)
    (hfixed : d ∉ "this->(, );".toList) : d ∉ h.call.toList := by
  have hpart : ∀ part : String, part.toList ⊆ "this->(, );".toList → d ∉ part.toList :=
    fun _ hsubset hmem => hfixed (hsubset hmem)
  have hname : d ∉ h.name.toList := notMem_of_isIdentifierPart (hh.name_chars he.identifier) hd
  have hparameters : d ∉ (", ".intercalate (h.parameters.map (·.name))).toList := by
    intro hmem
    rw [String.toList_intercalate, List.map_map] at hmem
    rcases mem_or_mem_of_mem_intercalate hmem with hmem | ⟨token, htoken, hmem⟩
    · exact hpart ", " (by decide) hmem
    · obtain ⟨v, hv, rfl⟩ := List.mem_map.1 htoken
      have hchars := fun c => isIdentifierPart_of_mem (isIdentifier_of_mem_parameters hh he.request hv) (c := c)
      exact notMem_of_isIdentifierPart hchars hd hmem
  rw [Handler.call]
  simp only [String.toList_append, List.mem_append, not_or]
  exact ⟨⟨⟨⟨hpart "this->" (by decide), hname⟩, hpart "(" (by decide)⟩, hparameters⟩, hpart ");" (by decide)⟩

theorem prints_calling (hh : Handles mapping e h) (he : e.Valid)
    (hnames : ∀ type name, mapping.get? type = some name → Silent name.toList) :
    Prints meaning h.calling.toList [] := by
  have hcall : '.' ∉ h.call.toList := notMem_call hh he rfl (by decide)
  have htype : Silent h.returnType.toList := by
    rcases hh.returnType with hmessage | ⟨type, hname⟩
    · rw [hmessage, Exchange.messageName]
      exact silent_of_dot_notMem (by simp [dot_notMem_of_isIdentifier he.identifier, Direction.suffix])
    · exact hnames type _ hname
  rw [Handler.calling]
  cases h.results.isEmpty with
  | true => exact Prints.line (silent_of_dot_notMem (by simp [hcall]))
  | false =>
      have hresult : " result_ = " = " " ++ "result_ = " := rfl
      have htext : "    " ++ (if false = true then "" else h.returnType ++ " result_ = ") ++ h.call =
          "    " ++ h.returnType ++ " " ++ ("result_ = " ++ h.call) := by
        rw [if_neg (by decide), hresult]
        simp only [String.append_assoc]
      rw [htext]
      exact Prints.line (silent_of_typeName htype (by simp [hcall]))

end Front

/-! ## The wrapper -/

section Wrapper

variable {mapping : TypeMapping} {e : Exchange} {h : Handler} {w : Field → List Char}
  {defined : List (List Char × List Char)}

/-- A wrapper is its head, its readings, its call, its print statements and its end. -/
theorem toList_wrapper (h : Handler) : h.wrapper.toList =
    (lines ["", "void Client::" ++ h.wrapperName ++ "(const ParsedFunction& parsed) const \x7b"]).toList ++
      (String.join (h.parameters.map Handler.reading)).toList ++ h.calling.toList ++ statements h.printed ++
        (line "\x7d").toList := by
  simp only [Handler.wrapper, String.toList_append, statements, String.toList_join, List.flatMap_map]

/-- A wrapper prints what its call prints and then the line of the response. -/
theorem output?_wrapper_of_calling (hh : Handles mapping e h) (he : e.Valid)
    (htypes : ∀ v ∈ h.parameters, Silent v.typeName.toList) (hdefined : DefinesMarks defined) {out : List Char}
    (hcalling : Prints (meaning e w defined) h.calling.toList out) :
    output? (meaning e w defined) h.wrapper.toList = some (out ++ responseLine e w) := by
  have hhead : '.' ∉ ("void Client::" ++ h.wrapperName ++ "(const ParsedFunction& parsed) const \x7b").toList := by
    have hname : '.' ∉ h.name.toList := notMem_of_isIdentifierPart (hh.name_chars he.identifier) rfl
    simp [Handler.wrapperName, hname]
  have hlines : Prints (meaning e w defined)
      (lines ["", "void Client::" ++ h.wrapperName ++ "(const ParsedFunction& parsed) const \x7b"]).toList [] := by
    apply Prints.join
    simp only [List.map_cons, List.map_nil, List.forall_mem_cons]
    exact ⟨Prints.line (silent_of_dot_notMem (by decide)), Prints.line (silent_of_dot_notMem hhead),
      List.forall_mem_nil _⟩
  have hreadings : Prints (meaning e w defined) (String.join (h.parameters.map Handler.reading)).toList [] := by
    apply Prints.join
    intro text htext
    obtain ⟨v, hv, rfl⟩ := List.mem_map.1 htext
    exact prints_reading (isIdentifier_of_mem_parameters hh he.request hv) (htypes v hv)
  have hprinted := prints_printed (w := w) hh he hdefined
  have hclosing : Prints (meaning e w defined) (line "\x7d").toList [] :=
    Prints.line (silent_of_dot_notMem (by decide))
  have hall := (((hlines.append hreadings).append hcalling).append hprinted).append hclosing
  have houtput := hall.output_eq
  rw [List.nil_append, List.nil_append, List.append_nil] at houtput
  rw [toList_wrapper]
  exact houtput

/-- The wrapper of an exchange prints the line of its response, provided that no print statement begins in
the name of a type. -/
theorem output?_wrapper (hh : Handles mapping e h) (he : e.Valid)
    (hnames : ∀ type name, mapping.get? type = some name → Silent name.toList) (hdefined : DefinesMarks defined) :
    output? (meaning e w defined) h.wrapper.toList = some (responseLine e w) := by
  have htypes : ∀ v ∈ h.parameters, Silent v.typeName.toList := by
    intro v hv
    obtain ⟨f, _, _, hname⟩ := exists_left_of_forall₂ hh.parameters hv
    exact hnames _ _ hname
  exact output?_wrapper_of_calling hh he htypes hdefined (prints_calling hh he hnames)

end Wrapper

end SerialContract.Firmware
