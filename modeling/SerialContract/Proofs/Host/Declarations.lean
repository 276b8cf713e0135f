import SerialContract.Proofs.Host.Expression
import SerialContract.Proofs.Host.Reading

/-!
# The declarations of the host's client

Of what the client has for an exchange, one line declares the method and, where there is a structure, one declares it
and those up to the brace its fields. All others, whatever the names in them, declare nothing.
-/

namespace SerialContract.Host

/-! ## Exchanges -/

section Exchange

variable {e : Exchange} {fields : FieldSet}

/-- The lines of the expression for an exchange. -/
def exchangeLines (e : Exchange) : List String := [
  "        Exchange::new(",
  "            \"" ++ e.name ++ "\",",
  "            " ++ fieldSetExpression e.request ++ ",",
  "            " ++ fieldSetExpression e.response ++ ",",
  "        )" ++ identifierCall e.identifier ++ ","]

theorem newline_notMem_name {name : String} (h : isIdentifier name = true) : '\n' ∉ name.toList :=
  notMem_of_isIdentifierPart (fun _ => isIdentifierPart_of_mem h) (by decide)

theorem newline_notMem_typeTag (type : FieldType) : '\n' ∉ (typeTag type).toList := by
  cases type <;> decide

theorem newline_notMem_hexByte (b : UInt8) : '\n' ∉ (hexByte b).toList := by
  have hall : ∀ n < 16, hexDigit n ≠ '\n' := by decide
  rw [toList_hexByte, List.mem_pair, not_or]
  exact ⟨(hall _ (Nat.div_lt_of_lt_mul b.toNat_lt)).symm, (hall _ (Nat.mod_lt _ (by decide))).symm⟩

/-- The line for a field of a set. -/
def fieldText (field : Field) : String :=
  "                .with(\"" ++ field.name ++ "\", SemanticType::" ++ typeTag field.type ++ ")"

theorem toList_fieldExpression_eq (f : Field) : (fieldExpression f).toList = '\n' :: (fieldText f).toList := by
  have hwhole : fieldExpression f = "\n" ++ fieldText f := by
    unfold fieldText
    simp only [← String.append_assoc]
    rfl
  rw [hwhole, String.toList_append]
  rfl

theorem newline_notMem_fieldText {f : Field} (h : isIdentifier f.name = true) : '\n' ∉ (fieldText f).toList := by
  unfold fieldText
  simp [newline_notMem_name h, newline_notMem_typeTag]

theorem silent_fieldSetExpression (h : ∀ f ∈ fields, isIdentifier f.name = true) :
    SilentText ("            " ++ fieldSetExpression fields ++ ",") := by
  have htext : ("            " ++ fieldSetExpression fields ++ ",").toList =
      "            FieldSet::new()".toList ++ ((fields.map fun f => (fieldText f).toList).flatMap ('\n' :: ·) ++ [',']) := by
    simp [toList_fieldSetExpression, List.flatMap_map, toList_fieldExpression_eq]
  rw [SilentText, htext]
  refine silent_of_blocks ⟨_, rfl⟩ (by decide) (by decide) fun block hblock => ?_
  obtain ⟨f, hf, rfl⟩ := List.mem_map.1 hblock
  refine ⟨?_, newline_notMem_fieldText (h f hf)⟩
  unfold fieldText
  simp [indent]

/-- The line for identifying bytes. -/
def byteCall (bytes : List UInt8) : String :=
  "        .with_binary_id(vec![" ++ ", ".intercalate (bytes.map fun b => "0x" ++ hexByte b) ++ "])"

theorem newline_notMem_byteCall (bytes : List UInt8) : '\n' ∉ (byteCall bytes).toList := by
  have hbytes : '\n' ∉ (", ".intercalate (bytes.map fun b => "0x" ++ hexByte b)).toList := by
    rw [String.toList_intercalate, List.map_map]
    intro hmem
    rcases mem_or_mem_of_mem_intercalate hmem with hmem | ⟨text, htext, hmem⟩
    · exact absurd hmem (by decide)
    · obtain ⟨b, _, rfl⟩ := List.mem_map.1 htext
      rw [Function.comp_apply, String.toList_append, List.mem_append] at hmem
      exact hmem.elim (fun hmark => absurd hmark (by decide)) (newline_notMem_hexByte b)
  unfold byteCall
  rw [String.toList_append, String.toList_append, List.mem_append, List.mem_append, not_or, not_or]
  exact ⟨⟨by decide, hbytes⟩, by decide⟩

theorem silent_identifierCall (identifier : Option (List UInt8)) :
    SilentText ("        )" ++ identifierCall identifier ++ ",") := by
  cases identifier with
  | none =>
      rw [String.append_assoc]
      exact silentText_of_chars rfl (by decide) (by decide) (by decide)
  | some bytes =>
      have htext : ("        )" ++ identifierCall (some bytes) ++ ",").toList =
          "        )".toList ++ ([(byteCall bytes).toList].flatMap ('\n' :: ·) ++ [',']) := by
        unfold identifierCall byteCall
        simp
      rw [SilentText, htext]
      refine silent_of_blocks (by decide) (by decide) (by decide) (List.forall_mem_singleton.2 ⟨?_, ?_⟩)
      · unfold byteCall
        simp [indent]
      · exact newline_notMem_byteCall bytes

theorem silent_quotedName {name : String} (h : isIdentifier name = true) :
    SilentText ("            \"" ++ name ++ "\",") := by
  rw [String.append_assoc]
  refine silentText_of_chars rfl (by decide) (by decide) ?_
  simp [newline_notMem_name h]

theorem silent_exchangeLines (h : e.Valid) : ∀ text ∈ exchangeLines e, SilentText text := by
  unfold exchangeLines
  simp only [List.forall_mem_cons]
  exact ⟨silentText_of_line rfl (by decide) (by decide), silent_quotedName h.identifier,
    silent_fieldSetExpression h.request.identifier, silent_fieldSetExpression h.response.identifier,
    silent_identifierCall e.identifier, List.forall_mem_nil _⟩

/-! ## Structures -/

/-- Whether the method of an exchange returns a structure: several fields of the response carry values. -/
def returnsStructure (e : Exchange) : Bool := 2 ≤ (valued e.response).length

/-- The structure that the method of an exchange returns, with its fields. -/
def responseStructure (e : Exchange) : String × List String :=
  (e.messageName .response, (valued e.response).map fun f => rustIdentifier f.name)

def fieldLine (field : Field) : String :=
  "    pub " ++ rustIdentifier field.name ++ ": " ++ resultType field.type ++ ","

def structureHead (e : Exchange) : String :=
  "pub struct " ++ e.messageName .response ++ " \x7b"

/-- What stands in front of the structure. -/
def structureStart (e : Exchange) : List String :=
  ["", "/// Response of the \x60" ++ e.name ++ "\x60 exchange.", "#[derive(Debug, Clone, PartialEq)]"]

def structureLines (e : Exchange) : List String :=
  structureStart e ++ structureHead e :: ((valued e.response).map fieldLine ++ ["\x7d"])

theorem structureDeclaration?_eq (e : Exchange) :
    structureDeclaration? e = if returnsStructure e then some (lines (structureLines e)) else none := by
  rw [structureDeclaration?, resultOf, returnsStructure]
  cases hvalued : valued e.response with
  | nil => rfl
  | cons first others =>
      cases others with
      | nil => rfl
      | cons second more =>
          rw [structureLines, hvalued]
          rfl

theorem filterMap_structureDeclaration? (es : List Exchange) : es.filterMap structureDeclaration? =
    (es.filter returnsStructure).map fun e => lines (structureLines e) := by
  induction es with
  | nil => rfl
  | cons e es ih =>
      rw [List.filterMap_cons, List.filter_cons, structureDeclaration?_eq, ih]
      cases returnsStructure e <;> rfl

theorem newline_notMem_resultType (type : FieldType) : '\n' ∉ (resultType type).toList := by
  cases type <;> decide

theorem toList_fieldLine (f : Field) : (fieldLine f).toList = [' ', ' ', ' ', ' ', 'p', 'u', 'b'] ++
    ' ' :: ((rustIdentifier f.name).toList ++ ':' :: (' ' :: ((resultType f.type).toList ++ [',']))) := by
  unfold fieldLine
  simp

theorem declaredName?_fieldLine {f : Field} (h : isIdentifier f.name = true) :
    declaredName? (fieldLine f).toList = some (rustIdentifier f.name) := by
  rw [toList_fieldLine, declaredName?_append (by decide) (notMem_rustIdentifier h (by decide) (by decide))
    (notMem_rustIdentifier h (by decide) (by decide)), String.ofList_toList]

theorem silent_fieldLine {f : Field} (h : isIdentifier f.name = true) : Silent (fieldLine f).toList := by
  have hblank : ' ' ∉ (rustIdentifier f.name).toList := notMem_rustIdentifier h (by decide) (by decide)
  rw [toList_fieldLine]
  simp only [Silent, fronts, List.forall_mem_cons]
  refine ⟨fun hbegins => absurd (List.cons_prefix_cons.1 hbegins).1 (by decide), fun hbegins => ?_,
    fun hbegins => absurd (List.cons_prefix_cons.1 hbegins).1 (by decide), List.forall_mem_nil _⟩
  -- a method would need a blank in the name of the field
  have hname : ['f', 'n', ' '] <+: (rustIdentifier f.name).toList := by
    have hfront : methodFront = [' ', ' ', ' ', ' ', 'p', 'u', 'b'] ++ ' ' :: ['f', 'n', ' '] := rfl
    rw [hfront, List.prefix_append_right_inj, List.prefix_cons_inj] at hbegins
    exact prefix_of_prefix_append_cons (by decide) hbegins
  exact hblank (hname.subset (by decide))

theorem newline_notMem_fieldLine {f : Field} (h : isIdentifier f.name = true) : '\n' ∉ (fieldLine f).toList := by
  have hname : '\n' ∉ (rustIdentifier f.name).toList := notMem_rustIdentifier h (by decide) (by decide)
  rw [toList_fieldLine]
  simp [hname, newline_notMem_resultType]

theorem toList_structureHead (e : Exchange) : (structureHead e).toList =
    structureFront ++ ((e.messageName .response).toList ++ [' ', '\x7b']) := by
  unfold structureHead
  simp [structureFront]

theorem newline_notMem_structureHead (h : isIdentifier e.name = true) : '\n' ∉ (structureHead e).toList := by
  have hname : '\n' ∉ (e.messageName .response).toList :=
    notMem_of_isIdentifierPart (isIdentifierPart_of_mem_messageName h .response) (by decide)
  rw [toList_structureHead]
  simp [structureFront, hname]

theorem silent_structureStart (h : isIdentifier e.name = true) : ∀ text ∈ structureStart e, SilentText text := by
  have hname : '\n' ∉ (e.name ++ "\x60 exchange.").toList := by simp [newline_notMem_name h]
  have hcomment : SilentText ("/// Response of the \x60" ++ e.name ++ "\x60 exchange.") := by
    rw [String.append_assoc]
    exact silentText_of_chars rfl (by decide) (by decide) hname
  unfold structureStart
  simp only [List.forall_mem_cons]
  exact ⟨silentText_of_line rfl (by decide) (by decide), hcomment, silentText_of_line rfl (by decide) (by decide),
    List.forall_mem_nil _⟩

theorem isIdentifier_of_mem_valued (h : fields.Valid) : ∀ f ∈ valued fields, isIdentifier f.name = true :=
  fun f hf => h.identifier f (List.mem_filter.1 hf).1

theorem linesOf_structureLines (h : e.Valid) : linesOf (structureLines e) = linesOf (structureStart e) ++
    (structureHead e).toList :: ((valued e.response).map (fun f => (fieldLine f).toList) ++ [['\x7d']]) := by
  have hfields : ∀ text ∈ (valued e.response).map fieldLine, '\n' ∉ text.toList :=
    List.forall_mem_map.2 fun f hf => newline_notMem_fieldLine (isIdentifier_of_mem_valued h.response f hf)
  have hend : linesOf ["\x7d"] = [['\x7d']] := by decide
  rw [structureLines, linesOf_append, linesOf_cons (newline_notMem_structureHead h.identifier), linesOf_append,
    linesOf_eq_map hfields, hend, List.map_map]
  rfl

/-- What is written for a structure declares it, and nothing else. -/
theorem structures_structureLines (h : e.Valid) (rest : List (List Char)) :
    structures (linesOf (structureLines e) ++ rest) = responseStructure e :: structures rest := by
  have hfields := isIdentifier_of_mem_valued h.response
  have hstart : Without structureFront (linesOf (structureStart e)) :=
    without_of_silent (silent_linesOf (silent_structureStart h.identifier)) (by decide)
  have hbody : ∀ line ∈ (valued e.response).map fun f => (fieldLine f).toList, Silent line ∧ line ≠ ['\x7d'] := by
    refine List.forall_mem_map.2 fun f hf => ⟨silent_fieldLine (hfields f hf), ?_⟩
    rw [toList_fieldLine]
    simp
  have hnames : ((valued e.response).map fun f => (fieldLine f).toList).filterMap declaredName? =
      (valued e.response).map fun f => rustIdentifier f.name := by
    rw [List.filterMap_map, ← List.filterMap_eq_map]
    refine List.filterMap_congr fun f hf => ?_
    rw [Function.comp_apply, declaredName?_fieldLine (hfields f hf)]
    rfl
  rw [linesOf_structureLines h, List.append_assoc, structures_append hstart, toList_structureHead,
    List.cons_append, List.append_assoc, List.singleton_append,
    structures_cons (isIdentifierPart_of_mem_messageName h.identifier .response) (by decide) hbody, hnames,
    String.ofList_toList, responseStructure]

theorem only_structureLines (h : e.Valid) : ∀ line ∈ linesOf (structureLines e), Only structureFront line := by
  have hfields := isIdentifier_of_mem_valued h.response
  rw [linesOf_structureLines h, List.forall_mem_append, List.forall_mem_cons, List.forall_mem_append, List.forall_mem_map,
    List.forall_mem_singleton]
  refine ⟨fun line hline => (silent_linesOf (silent_structureStart h.identifier) line hline).only,
    only_of_front (by decide) ?_, fun f hf => (silent_fieldLine (hfields f hf)).only, by decide⟩
  rw [toList_structureHead]
  exact List.prefix_append _ _

/-! ## Methods -/

/-- The method of an exchange, with its parameters. -/
def requestMethod (e : Exchange) : String × List String :=
  (methodName e, (valued e.request).map fun f => rustIdentifier f.name)

/-- What stands in front of the method. -/
def methodStart (e : Exchange) : List String :=
  ["", "    /// Perform the \x60" ++ e.name ++ "\x60 exchange."]

def methodHead (e : Exchange) : String :=
  "    pub fn " ++ methodName e ++ "(" ++ ", ".intercalate ("&mut self" :: (valued e.request).map parameter) ++
    ") -> ClientResult<" ++ (resultOf e).typeName ++ "> \x7b"

def methodBody (e : Exchange) : List String :=
  ["        " ++ (if resultOf e = .nothing then "" else "let response = ") ++ "self.client.request(",
    "            \"" ++ e.name ++ "\",",
    "            " ++ valuesExpression e.request ++ ",",
    "        )?;"] ++ (resultOf e).returning ++ ["    \x7d"]

def methodLines (e : Exchange) : List String :=
  methodStart e ++ methodHead e :: methodBody e

theorem resultOf_cases (e : Exchange) : resultOf e = .nothing ∨ (∃ f ∈ valued e.response, resultOf e = .one f) ∨
    resultOf e = .several (e.messageName .response) (valued e.response) := by
  rw [resultOf]
  cases hvalued : valued e.response with
  | nil => exact .inl rfl
  | cons first others =>
      cases others with
      | nil => exact .inr (.inl ⟨first, List.mem_singleton_self first, rfl⟩)
      | cons second more => exact .inr (.inr rfl)

theorem newline_notMem_getting {f : Field} (h : isIdentifier f.name = true) : '\n' ∉ (getting f).toList := by
  have hgetter : '\n' ∉ (getter f.type).toList := by cases f.type <;> decide
  unfold getting
  simp [newline_notMem_name h, hgetter]

theorem silent_valueLine {f : Field} (h : isIdentifier f.name = true) : SilentText (valueLine f) := by
  have hname : '\n' ∉ (rustIdentifier f.name).toList := notMem_rustIdentifier h (by decide) (by decide)
  unfold valueLine
  rw [String.append_assoc, String.append_assoc, String.append_assoc]
  refine silentText_of_chars rfl (by decide) (by decide) ?_
  split <;> simp [newline_notMem_name h, hname]

/-- The lines for the values of a request, but for the last. -/
def valueLines (fields : FieldSet) : List String :=
  "            [" :: (fields.map valueLine ++ ["            ]", "            .into_iter()"])

theorem silent_valuesExpression (h : ∀ f ∈ fields, isIdentifier f.name = true) :
    SilentText ("            " ++ valuesExpression fields ++ ",") := by
  rw [valuesExpression]
  split
  · rw [String.append_assoc]
    exact silentText_of_chars rfl (by decide) (by decide) (by decide)
  · have htext : "            " ++ (lines (["["] ++ fields.map valueLine ++ ["            ]", "            .into_iter()"]) ++
        "            .collect()") ++ "," = lines (valueLines fields) ++ "            .collect()," := by
      rw [← String.toList_inj]
      simp [valueLines, lines_cons, line]
    have hlines : ∀ text ∈ valueLines fields, SilentText text := by
      rw [valueLines, List.forall_mem_cons, List.forall_mem_append, List.forall_mem_map]
      simp only [List.forall_mem_cons]
      exact ⟨silentText_of_line rfl (by decide) (by decide), fun f hf => silent_valueLine (h f hf),
        silentText_of_line rfl (by decide) (by decide), silentText_of_line rfl (by decide) (by decide),
        List.forall_mem_nil _⟩
    have hend : SilentText "            .collect()," := silentText_of_line rfl (by decide) (by decide)
    rw [htext, SilentText, String.toList_append, splitOn_lines, List.forall_mem_append]
    exact ⟨silent_linesOf hlines, hend⟩

theorem silent_returning (h : e.Valid) : ∀ text ∈ (resultOf e).returning, SilentText text := by
  have hfields := isIdentifier_of_mem_valued h.response
  have hname : '\n' ∉ (e.messageName .response).toList :=
    notMem_of_isIdentifierPart (isIdentifierPart_of_mem_messageName h.identifier .response) (by decide)
  rcases resultOf_cases e with hresult | ⟨f, hf, hresult⟩ | hresult
  · rw [hresult]
    exact List.forall_mem_singleton.2 (silentText_of_line rfl (by decide) (by decide))
  · rw [hresult]
    exact List.forall_mem_singleton.2 (silentText_of_chars rfl (by decide) (by decide)
      (newline_notMem_getting (hfields f hf)))
  · rw [hresult, Result.returning, List.forall_mem_append, List.forall_mem_append, List.forall_mem_map]
    refine ⟨⟨List.forall_mem_singleton.2 ?_, fun f hf => ?_⟩,
      List.forall_mem_singleton.2 (silentText_of_line rfl (by decide) (by decide))⟩
    · rw [String.append_assoc]
      refine silentText_of_chars rfl (by decide) (by decide) ?_
      simp [hname]
    · have hfield : '\n' ∉ (rustIdentifier f.name).toList := notMem_rustIdentifier (hfields f hf) (by decide) (by decide)
      rw [String.append_assoc, String.append_assoc, String.append_assoc]
      refine silentText_of_chars rfl (by decide) (by decide) ?_
      simp [hfield, newline_notMem_getting (hfields f hf)]

theorem silent_methodBody (h : e.Valid) : ∀ text ∈ methodBody e, SilentText text := by
  have hcall : SilentText ("        " ++ (if resultOf e = .nothing then "" else "let response = ") ++
      "self.client.request(") := by
    rw [String.append_assoc]
    refine silentText_of_chars rfl (by decide) (by decide) ?_
    split <;> decide
  unfold methodBody
  rw [List.forall_mem_append, List.forall_mem_append]
  simp only [List.forall_mem_cons]
  exact ⟨⟨⟨hcall, silent_quotedName h.identifier, silent_valuesExpression h.request.identifier,
    silentText_of_line rfl (by decide) (by decide), List.forall_mem_nil _⟩, silent_returning h⟩,
    silentText_of_line rfl (by decide) (by decide), List.forall_mem_nil _⟩

theorem silent_methodStart (h : isIdentifier e.name = true) : ∀ text ∈ methodStart e, SilentText text := by
  have hcomment : SilentText ("    /// Perform the \x60" ++ e.name ++ "\x60 exchange.") := by
    rw [String.append_assoc]
    refine silentText_of_chars rfl (by decide) (by decide) ?_
    simp [newline_notMem_name h]
  unfold methodStart
  simp only [List.forall_mem_cons]
  exact ⟨silentText_of_line rfl (by decide) (by decide), hcomment, List.forall_mem_nil _⟩

theorem isIdentifierPart_of_mem_methodName (h : isIdentifier e.name = true) :
    ∀ c ∈ (methodName e).toList, isIdentifierPart c = true := by
  intro c hc
  rw [methodName, String.toList_append, List.mem_append] at hc
  rcases hc with hc | hc
  · exact isIdentifierPart_of_mem (by decide : isIdentifier "request_" = true) hc
  · rw [snakeCase, String.toList_ofList] at hc
    exact isIdentifierPart_of_mem_snakeFrom (fun _ => isIdentifierPart_of_mem h) c hc

theorem toList_parameter (f : Field) : (parameter f).toList =
    (rustIdentifier f.name).toList ++ ':' :: (' ' :: (parameterType f.type).toList) := by
  unfold parameter
  simp

/-- The characters at which parameters end. -/
def parameterEnds : List Char := [',', ')', '\n']

theorem forall_parameterEnds {P : Char → Prop} : (∀ c ∈ parameterEnds, P c) ↔ P ',' ∧ P ')' ∧ P '\n' := by
  simp [parameterEnds]

theorem notMem_parameter {f : Field} (h : isIdentifier f.name = true) (hvalue : f.type ≠ .nothing) :
    ∀ c ∈ parameterEnds, c ∉ (parameter f).toList := by
  have hpart : ∀ c ∈ parameterEnds, isIdentifierPart c = false ∧ c ≠ '#' ∧ c ≠ ':' ∧ c ≠ ' ' :=
    forall_parameterEnds.2 (by decide)
  have htype : ∀ c ∈ parameterEnds, c ∉ (parameterType f.type).toList := by
    cases htype : f.type with
    | nothing => exact absurd htype hvalue
    | _ => exact forall_parameterEnds.2 (by decide)
  intro c hc
  obtain ⟨hpart, hmark, hcolon, hblank⟩ := hpart c hc
  rw [toList_parameter]
  simp [notMem_rustIdentifier h hpart hmark, htype c hc, hcolon, hblank]

/-- The parameters as they stand in the parentheses. -/
def parameterList (e : Exchange) : List (List Char) :=
  "&mut self".toList :: (valued e.request).map fun f => (parameter f).toList

theorem notMem_of_mem_parameterList (h : e.Valid) {c : Char} (hc : c ∈ parameterEnds) :
    ∀ text ∈ parameterList e, c ∉ text := by
  have hself : ∀ c ∈ parameterEnds, c ∉ "&mut self".toList := forall_parameterEnds.2 (by decide)
  rw [parameterList, List.forall_mem_cons, List.forall_mem_map]
  refine ⟨hself c hc, fun f hf => ?_⟩
  have hvalue : f.type ≠ .nothing := of_decide_eq_true (List.mem_filter.1 hf).2
  exact notMem_parameter (isIdentifier_of_mem_valued h.request f hf) hvalue c hc

theorem notMem_parameterList (h : e.Valid) {c : Char} (hc : c ∈ parameterEnds) (hcomma : c ≠ ',') :
    c ∉ [',', ' '].intercalate (parameterList e) := by
  have hblank : ∀ c ∈ parameterEnds, c ≠ ' ' := forall_parameterEnds.2 (by decide)
  intro hmem
  rcases mem_or_mem_of_mem_intercalate hmem with hmem | ⟨text, htext, hmem⟩
  · exact (List.mem_pair.1 hmem).elim hcomma (hblank c hc)
  · exact notMem_of_mem_parameterList h hc text htext hmem

theorem toList_methodHead (e : Exchange) : (methodHead e).toList = methodFront ++ ((methodName e).toList ++
    '(' :: ([',', ' '].intercalate (parameterList e) ++
      ')' :: (" -> ClientResult<".toList ++ ((resultOf e).typeName.toList ++ ['>', ' ', '\x7b'])))) := by
  unfold methodHead parameterList
  simp [String.toList_intercalate, methodFront, Function.comp_def]

theorem declaredNames_parameterList (h : e.Valid) :
    (([',', ' '].intercalate (parameterList e)).splitOn ',').filterMap declaredName? =
      (valued e.request).map fun f => rustIdentifier f.name := by
  have hfields := isIdentifier_of_mem_valued h.request
  have hcomma := notMem_of_mem_parameterList h (c := ',') (by decide)
  rw [parameterList, List.forall_mem_cons] at hcomma
  have hself : declaredName? "&mut self".toList = none := by decide
  rw [parameterList, splitOn_intercalate_blank hcomma.1 hcomma.2, List.filterMap_cons_none hself, List.map_map,
    List.filterMap_map, ← List.filterMap_eq_map]
  refine List.filterMap_congr fun f hf => ?_
  rw [Function.comp_apply, Function.comp_apply, toList_parameter, ← List.nil_append (' ' :: _),
    declaredName?_append List.not_mem_nil (notMem_rustIdentifier (hfields f hf) (by decide) (by decide))
      (notMem_rustIdentifier (hfields f hf) (by decide) (by decide)), String.ofList_toList]
  rfl

theorem method?_methodHead (h : e.Valid) : method? (methodHead e).toList = some (requestMethod e) := by
  have hname : '(' ∉ (methodName e).toList :=
    notMem_of_isIdentifierPart (isIdentifierPart_of_mem_methodName h.identifier) (by decide)
  have hparameters : ')' ∉ [',', ' '].intercalate (parameterList e) := notMem_parameterList h (by decide) (by decide)
  rw [toList_methodHead, method?, List.isPrefixOf?_eq_some_iff_append_eq.2 rfl]
  simp only [bind, Option.bind_some, cutAt_append hname, cutAt_append hparameters, declaredNames_parameterList h]
  rw [String.ofList_toList]
  rfl

theorem newline_notMem_methodHead (h : e.Valid) : '\n' ∉ (methodHead e).toList := by
  have hname : '\n' ∉ (methodName e).toList :=
    notMem_of_isIdentifierPart (isIdentifierPart_of_mem_methodName h.identifier) (by decide)
  have hparameters : '\n' ∉ [',', ' '].intercalate (parameterList e) := notMem_parameterList h (by decide) (by decide)
  have htype : '\n' ∉ (resultOf e).typeName.toList := by
    rcases resultOf_cases e with hresult | ⟨f, _, hresult⟩ | hresult
    · rw [hresult]
      decide
    · rw [hresult]
      exact newline_notMem_resultType f.type
    · rw [hresult]
      exact notMem_of_isIdentifierPart (isIdentifierPart_of_mem_messageName h.identifier .response) (by decide)
  rw [toList_methodHead]
  simp [methodFront, hname, hparameters, htype]

theorem linesOf_methodLines (h : e.Valid) : linesOf (methodLines e) =
    linesOf (methodStart e) ++ (methodHead e).toList :: linesOf (methodBody e) := by
  rw [methodLines, linesOf_append, linesOf_cons (newline_notMem_methodHead h)]

/-- What is written for a method declares it, and nothing else. -/
theorem methods_methodLines (h : e.Valid) : methods (linesOf (methodLines e)) = [requestMethod e] := by
  have hstart : Without methodFront (linesOf (methodStart e)) :=
    without_of_silent (silent_linesOf (silent_methodStart h.identifier)) (by decide)
  have hbody : Without methodFront (linesOf (methodBody e)) :=
    without_of_silent (silent_linesOf (silent_methodBody h)) (by decide)
  have hhead : methods ((methodHead e).toList :: linesOf (methodBody e)) =
      requestMethod e :: methods (linesOf (methodBody e)) := List.filterMap_cons_some (method?_methodHead h)
  rw [linesOf_methodLines h, methods_append, methods_eq_nil hstart, List.nil_append, hhead, methods_eq_nil hbody]

theorem only_methodLines (h : e.Valid) : ∀ line ∈ linesOf (methodLines e), Only methodFront line := by
  rw [linesOf_methodLines h, List.forall_mem_append, List.forall_mem_cons]
  refine ⟨fun line hline => (silent_linesOf (silent_methodStart h.identifier) line hline).only,
    only_of_front (by decide) ?_, fun line hline => (silent_linesOf (silent_methodBody h) line hline).only⟩
  rw [toList_methodHead]
  exact List.prefix_append _ _

end Exchange

end SerialContract.Host
