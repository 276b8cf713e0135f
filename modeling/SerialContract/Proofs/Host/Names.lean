import SerialContract.Proofs.Host.Client
import SerialContract.Proofs.Host.Declarations

/-!
# The names in the host's client

Methods are named by the snake case of exchanges, structures by their names and an ending, parameters and fields by
the names of fields, marked as raw where the language keeps the name for itself. What a contract has to keep to
leaves no two of them alike that stand beside each other, and none that is a word of the language.
-/

namespace SerialContract.Host

/-! ## The lines of the client -/

theorem plain_clientStructure : ∀ text ∈ clientStructure, Template.PlainLine text := by
  simp only [clientStructure, List.forall_mem_cons]
  refine ⟨?_, ?_, ?_, ?_, List.forall_mem_nil _⟩
  all_goals exact .of_chars rfl (by decide) (by decide)

theorem plain_clientMethods : ∀ text ∈ clientMethods, Template.PlainLine text := by
  simp only [clientMethods, List.forall_mem_cons]
  repeat refine ⟨.of_chars rfl (by decide) (by decide), ?_⟩
  exact List.forall_mem_nil _

section Source

variable (c : Contract)

theorem filledLine_structures : Template.filledLine (replacements c) structuresTemplate =
    lines ((c.exchanges.filter returnsStructure).flatMap structureLines) := by
  have hparts : Template.parts structuresTemplate =
      "".toList.map .plain ++ .placeholder "response_structs".toList :: "".toList.map .plain := by
    rw [structuresTemplate, Template.parts, String.toList_ofList, String.toList_ofList, String.toList_ofList]
    decide
  have hget : (replacements c).get? "response_structs" =
      some (String.join (c.exchanges.filterMap structureDeclaration?)) :=
    NameMap.get?_ofList_of_mem placeholders_nodup (by simp)
  rw [Template.filledLine_placeholder hparts hget, String.empty_append, String.append_empty,
    filterMap_structureDeclaration?, lines_flatMap]

theorem filledLine_methods : Template.filledLine (replacements c) methodsTemplate =
    lines (c.exchanges.flatMap methodLines) ++ "\x7d" := by
  have hparts : Template.parts methodsTemplate =
      "".toList.map .plain ++ .placeholder "request_methods".toList :: "\x7d".toList.map .plain := by
    rw [methodsTemplate, Template.parts, String.toList_ofList, String.toList_ofList, String.toList_ofList,
      String.toList_ofList]
    decide
  have hget : (replacements c).get? "request_methods" = some (String.join (c.exchanges.map method)) :=
    NameMap.get?_ofList_of_mem placeholders_nodup (by simp)
  rw [Template.filledLine_placeholder hparts hget, String.empty_append, lines_flatMap]
  rfl

/-- What stands between the imports and the structures, line by line or as the list of exchanges. -/
def middle : List String :=
  (ratePrefix ++ c.channel.baudRate.text ++ ";") :: (deviceStart ++
    (devicePrefix ++ quoted c.channel.identifier ++ "\";") :: (encodingStart ++
      (encodingPrefix ++ encodingTag c.encoding ++ ";") :: (exchangesStart ++
        [String.join (c.exchanges.map exchangeExpression) ++ "    ]", "\x7d"])))

/-- The lines of the client, by what they declare. -/
def program : List (List Char) :=
  linesOf start ++ (linesOf (middle c) ++ (linesOf ((c.exchanges.filter returnsStructure).flatMap structureLines) ++
    ([[]] ++ (linesOf clientStructure ++ (linesOf clientMethods ++
      (linesOf (c.exchanges.flatMap methodLines) ++ [['\x7d'], []]))))))

theorem splitOn_client {file : SourceFile} (h : generate c = .ok file) :
    file.contents.toList.splitOn '\n' = program c := by
  have hclient : clientLines c ++ ["\x7d"] = start ++ middle c := by
    simp [clientLines, deviceFront, middle]
  have hbrace : Template.filledLine (replacements c) "\x7d" = "\x7d" :=
    Template.filledLine_plain (Template.parts_plain_of_chars rfl (by decide))
  have hothers : otherTemplates.map (Template.filledLine (replacements c)) =
      ["\x7d"] ++ lines ((c.exchanges.filter returnsStructure).flatMap structureLines) ::
        (clientStructure ++ (clientMethods ++ [lines (c.exchanges.flatMap methodLines) ++ "\x7d"])) := by
    simp only [otherTemplates, List.map_cons, List.map_append, List.map_nil, hbrace, filledLine_structures,
      filledLine_methods, Template.map_filledLine_plain plain_clientStructure,
      Template.map_filledLine_plain plain_clientMethods, List.append_assoc, List.singleton_append]
  have hend : ("\x7d" : String).toList.splitOn '\n' = [['\x7d']] := by decide
  have hcontents := congrArg SourceFile.contents (generate_eq_ok_lines c h)
  rw [hcontents, hothers, ← List.append_assoc, hclient, splitOn_toList_lines, ← linesOf, linesOf_append, linesOf_append,
    linesOf_lines_cons, linesOf_append, linesOf_append, linesOf_lines_append, hend, program]
  simp only [List.append_assoc, List.cons_append, List.nil_append]

end Source

theorem silent_plain {texts : List String} (h : ∀ text ∈ texts, Template.PlainLine text)
    (hsilent : ∀ text ∈ texts, Silent text.toList) : ∀ text ∈ texts, SilentText text := by
  intro text htext
  rw [SilentText, List.splitOn_eq_singleton (h text htext).newline, List.forall_mem_singleton]
  exact hsilent text htext

theorem silent_middle {c : Contract} (hc : ∀ e ∈ c.exchanges, e.Valid) : ∀ text ∈ middle c, SilentText text := by
  have hrate : SilentText (ratePrefix ++ c.channel.baudRate.text ++ ";") := by
    rw [String.append_assoc]
    refine silentText_of_chars rfl (by decide) (by decide) ?_
    simp [notMem_rate c.channel.baudRate (c := '\n') rfl]
  have hdevice : SilentText (devicePrefix ++ quoted c.channel.identifier ++ "\";") := by
    rw [String.append_assoc]
    refine silentText_of_chars rfl (by decide) (by decide) ?_
    simp [newline_notMem_quoted]
  have hencoding : SilentText (encodingPrefix ++ encodingTag c.encoding ++ ";") := by
    rw [String.append_assoc]
    refine silentText_of_chars rfl (by decide) (by decide) ?_
    cases c.encoding <;> decide
  have hexchanges : SilentText (String.join (c.exchanges.map exchangeExpression) ++ "    ]") := by
    have hlines : String.join (c.exchanges.map exchangeExpression) = lines (c.exchanges.flatMap exchangeLines) :=
      (lines_flatMap c.exchanges exchangeLines).symm
    have heach : ∀ text ∈ c.exchanges.flatMap exchangeLines, SilentText text := by
      intro text htext
      obtain ⟨e, he, htext⟩ := List.mem_flatMap.1 htext
      exact silent_exchangeLines (hc e he) text htext
    have hend : SilentText "    ]" := silentText_of_line rfl (by decide) (by decide)
    rw [hlines, SilentText, String.toList_append, splitOn_lines, List.forall_mem_append]
    exact ⟨silent_linesOf heach, hend⟩
  have hbrace : SilentText "\x7d" := silentText_of_line rfl (by decide) (by decide)
  have hdeviceStart := silent_plain plain_deviceStart (by decide)
  have hencodingStart := silent_plain plain_encodingStart (by decide)
  have hexchangesStart := silent_plain plain_exchangesStart (by decide)
  simp only [middle, List.forall_mem_cons, List.forall_mem_append]
  exact ⟨hrate, hdeviceStart, hdevice, hencodingStart, hencoding, hexchangesStart, hexchanges, hbrace,
    List.forall_mem_nil _⟩

/-! ## What the template declares -/

/-- The types that the client imports. -/
def importedTypes : List String :=
  ["Client", "ClientResult", "EncodingKind", "Exchange", "FieldSet", "FieldValue", "FieldValues", "SemanticType",
    "Read", "Write"]

/-- The structure of the client, with its field. -/
def ownStructure : String × List String := ("DeviceClient", ["client"])

/-- The methods that are there for every contract, with their parameters. -/
def ownMethods : List (String × List String) :=
  [("new", ["transport"]), ("from_client", ["client"]), ("client", []), ("request_ping", [])]

theorem start_spec : importsEnd (linesOf start) = true ∧ imports (linesOf start) = importedTypes ∧
    ∀ line ∈ linesOf start, Only importFront line := by
  rw [linesOf_eq_map fun text htext => (plain_start text htext).newline]
  simp only [start, List.map_cons, List.map_nil]
  repeat rw [String.toList_ofList]
  decide

theorem clientStructure_spec : (∀ rest, structures (linesOf clientStructure ++ rest) = ownStructure :: structures rest) ∧
    ∀ line ∈ linesOf clientStructure, Only structureFront line := by
  rw [linesOf_eq_map fun text htext => (plain_clientStructure text htext).newline]
  simp only [clientStructure, List.map_cons, List.map_nil]
  repeat rw [String.toList_ofList]
  exact ⟨fun rest => rfl, by decide⟩

theorem clientMethods_spec : methods (linesOf clientMethods) = ownMethods ∧
    ∀ line ∈ linesOf clientMethods, Only methodFront line := by
  rw [linesOf_eq_map fun text htext => (plain_clientMethods text htext).newline]
  simp only [clientMethods, List.map_cons, List.map_nil]
  repeat rw [String.toList_ofList]
  decide

/-! ## What the client declares -/

section Exchanges

variable {es : List Exchange}

theorem methods_flatMap (hes : ∀ e ∈ es, e.Valid) : methods (linesOf (es.flatMap methodLines)) = es.map requestMethod := by
  induction es with
  | nil => rfl
  | cons e es ih =>
      rw [List.forall_mem_cons] at hes
      rw [List.flatMap_cons, linesOf_append, methods_append, methods_methodLines hes.1, ih hes.2]
      rfl

theorem only_methods (hes : ∀ e ∈ es, e.Valid) : ∀ line ∈ linesOf (es.flatMap methodLines), Only methodFront line := by
  intro line hline
  rw [linesOf, List.flatMap_assoc] at hline
  obtain ⟨e, he, hline⟩ := List.mem_flatMap.1 hline
  exact only_methodLines (hes e he) line hline

theorem structures_flatMap (hes : ∀ e ∈ es, e.Valid) (rest : List (List Char)) :
    structures (linesOf (es.flatMap structureLines) ++ rest) = es.map responseStructure ++ structures rest := by
  induction es with
  | nil => rfl
  | cons e es ih =>
      rw [List.forall_mem_cons] at hes
      rw [List.flatMap_cons, linesOf_append, List.append_assoc, structures_structureLines hes.1, ih hes.2]
      rfl

theorem only_structures (hes : ∀ e ∈ es, e.Valid) :
    ∀ line ∈ linesOf (es.flatMap structureLines), Only structureFront line := by
  intro line hline
  rw [linesOf, List.flatMap_assoc] at hline
  obtain ⟨e, he, hline⟩ := List.mem_flatMap.1 hline
  exact only_structureLines (hes e he) line hline

end Exchanges

section Source

variable {c : Contract}

theorem valid_of_returnsStructure (hc : ∀ e ∈ c.exchanges, e.Valid) :
    ∀ e ∈ c.exchanges.filter returnsStructure, e.Valid :=
  fun e he => hc e (List.mem_filter.1 he).1

theorem methods_client (hc : ∀ e ∈ c.exchanges, e.Valid) :
    methods (program c) = ownMethods ++ c.exchanges.map requestMethod := by
  have hstart := methods_eq_nil (without_of_only start_spec.2.2 (by decide) (by decide))
  have hmiddle := methods_eq_nil (without_of_silent (silent_linesOf (silent_middle hc)) (by decide))
  have hstructures := methods_eq_nil (without_of_only (only_structures (valid_of_returnsStructure hc))
    (by decide) (by decide))
  have hline : methods [[]] = [] := rfl
  have hown := methods_eq_nil (without_of_only clientStructure_spec.2 (by decide) (by decide))
  have hend : methods [['\x7d'], []] = [] := rfl
  simp only [program, methods_append, hstart, hmiddle, hstructures, hline, hown, clientMethods_spec.1,
    methods_flatMap hc, hend, List.nil_append, List.append_nil]

theorem structures_client (hc : ∀ e ∈ c.exchanges, e.Valid) :
    structures (program c) = (c.exchanges.filter returnsStructure).map responseStructure ++ [ownStructure] := by
  have hstart := structures_append (without_of_only start_spec.2.2 (by decide) (by decide))
  have hmiddle := structures_append (without_of_silent (silent_linesOf (silent_middle hc)) (by decide))
  have hline := structures_append (by decide : Without structureFront [[]])
  have hown := structures_append (without_of_only clientMethods_spec.2 (by decide) (by decide))
  have hmethods := structures_append (without_of_only (only_methods hc) (by decide) (by decide))
  rw [program, hstart, hmiddle, structures_flatMap (valid_of_returnsStructure hc), hline, clientStructure_spec.1, hown,
    hmethods]
  rfl

theorem imports_client (hc : ∀ e ∈ c.exchanges, e.Valid) : imports (program c) = importedTypes := by
  have hmiddle := imports_append (without_of_silent (silent_linesOf (silent_middle hc)) (by decide))
  have hstructures := imports_append (without_of_only (only_structures (valid_of_returnsStructure hc))
    (by decide) (by decide))
  have hline := imports_append (by decide : Without importFront [[]])
  have hown := imports_append (without_of_only clientStructure_spec.2 (by decide) (by decide))
  have hownMethods := imports_append (without_of_only clientMethods_spec.2 (by decide) (by decide))
  have hmethods := imports_append (without_of_only (only_methods hc) (by decide) (by decide))
  rw [program, imports_append_of_end start_spec.1, start_spec.2.1, hmiddle, hstructures, hline, hown, hownMethods, hmethods]
  rfl

end Source

/-! ## Names that stand beside each other -/

/-- A name without the mark of raw identifiers. -/
def unmarked (name : String) : String :=
  (("r#".toList.isPrefixOf? name.toList).map String.ofList).getD name

/-- Names that can stand beside each other: identifiers, marked where the language keeps the name for itself, no two of
which are the same but for the mark. -/
structure Usable (names : List String) : Prop where
  identifier : ∀ name ∈ names, isIdentifier (unmarked name) = true
  free : ∀ name ∈ names, name ∉ rustKeywords ++ rustUnmarkable
  markable : ∀ name ∈ names, unmarked name ∉ rustUnmarkable
  distinct : (names.map unmarked).Nodup

instance (names : List String) : Decidable (Usable names) :=
  decidable_of_iff ((∀ name ∈ names, isIdentifier (unmarked name) = true) ∧
      (∀ name ∈ names, name ∉ rustKeywords ++ rustUnmarkable) ∧
      (∀ name ∈ names, unmarked name ∉ rustUnmarkable) ∧ (names.map unmarked).Nodup)
    ⟨fun ⟨hi, hf, hm, hd⟩ => ⟨hi, hf, hm, hd⟩, fun ⟨hi, hf, hm, hd⟩ => ⟨hi, hf, hm, hd⟩⟩

theorem unmarked_rustIdentifier {name : String} (h : isIdentifier name = true) : unmarked (rustIdentifier name) = name := by
  rw [rustIdentifier, unmarked]
  split
  · rw [String.toList_append, List.isPrefixOf?_eq_some_iff_append_eq.2 rfl, Option.map_some, Option.getD_some,
      String.ofList_toList]
  · have hmark : '#' ∉ name.toList := notMem_of_isIdentifierPart (fun _ => isIdentifierPart_of_mem h) (by decide)
    have hnone : "r#".toList.isPrefixOf? name.toList = none :=
      isPrefixOf?_eq_none fun hbegins => hmark (hbegins.subset (by decide))
    rw [hnone]
    rfl

/-- What cannot be marked is left out, and the rest is marked. -/
theorem rustIdentifier_notMem {name : String} (h : name ∉ rustUnmarkable) :
    rustIdentifier name ∉ rustKeywords ++ rustUnmarkable := by
  rw [rustIdentifier]
  split
  · have hall : ∀ word ∈ rustKeywords ++ rustUnmarkable, '#' ∉ word.toList := by decide
    intro hmem
    refine hall _ hmem ?_
    rw [String.toList_append]
    exact List.mem_append_left _ (by decide)
  · next hword =>
    rw [List.mem_append, not_or]
    exact ⟨by simpa using hword, h⟩

theorem notMem_rustUnmarkable {name : String} (h : isReservedFieldName name = false) : name ∉ rustUnmarkable := by
  rw [isReservedFieldName, Bool.or_eq_false_iff, Bool.or_eq_false_iff] at h
  simpa using h.1.2

/-- The names of fields, as the client writes them. -/
theorem usable_rustIdentifier {fields : FieldSet} (h : fields.Valid) :
    Usable ((valued fields).map fun f => rustIdentifier f.name) := by
  have hsame : ∀ f ∈ valued fields, unmarked (rustIdentifier f.name) = f.name :=
    fun f hf => unmarked_rustIdentifier (isIdentifier_of_mem_valued h f hf)
  have hfree : ∀ f ∈ valued fields, f.name ∉ rustUnmarkable :=
    fun f hf => notMem_rustUnmarkable (h.unreserved f (List.mem_filter.1 hf).1)
  constructor
  · refine List.forall_mem_map.2 fun f hf => ?_
    rw [hsame f hf]
    exact isIdentifier_of_mem_valued h f hf
  · exact List.forall_mem_map.2 fun f hf => rustIdentifier_notMem (hfree f hf)
  · refine List.forall_mem_map.2 fun f hf => ?_
    rw [hsame f hf]
    exact hfree f hf
  · have hnames : ((valued fields).map fun f => rustIdentifier f.name).map unmarked = (valued fields).map Field.name := by
      rw [List.map_map]
      exact List.map_congr_left hsame
    rw [hnames]
    exact (List.filter_sublist.map Field.name).nodup h.distinct

/-! ## Names of methods and structures -/

theorem prefix_of_methodName (e : Exchange) : "request_".toList <+: (methodName e).toList := by
  rw [methodName, String.toList_append]
  exact List.prefix_append _ _

theorem suffix_of_messageName (e : Exchange) : "Response".toList <:+ (e.messageName .response).toList := by
  rw [Exchange.messageName, String.toList_append]
  exact List.suffix_append _ _

theorem nodup_methods {es : List Exchange} (hes : ValidExchanges es) :
    ((ownMethods ++ es.map requestMethod).map Prod.fst).Nodup := by
  have hown : ownMethods.map Prod.fst = ["new", "from_client", "client", "request_ping"] := rfl
  have hnames : (es.map requestMethod).map Prod.fst = es.map methodName := List.map_map
  rw [List.map_append, hown, hnames, List.nodup_append]
  refine ⟨by decide, ?_, ?_⟩
  · rw [List.Nodup, List.pairwise_map]
    refine hes.apart.imp fun happart heq => happart.1 ?_
    exact (String.append_right_inj _).1 heq
  · have hping : ∀ name ∈ ["new", "from_client", "client", "request_ping"], "request_".toList <+: name.toList →
        name = "request_" ++ snakeCase "Ping" := by decide
    rintro name hname _ hmethod rfl
    obtain ⟨e, he, rfl⟩ := List.mem_map.1 hmethod
    have hsame := hping _ hname (prefix_of_methodName e)
    exact (hes.each e he).snakeCase_ne (by decide) ((String.append_right_inj _).1 hsame).symm

theorem nodup_structures {es : List Exchange} (hes : ValidExchanges es) :
    (((es.filter returnsStructure).map responseStructure ++ [ownStructure]).map Prod.fst ++ importedTypes).Nodup := by
  have hnames : ((es.filter returnsStructure).map responseStructure).map Prod.fst =
      (es.filter returnsStructure).map fun e => e.messageName .response := List.map_map
  rw [List.map_append, hnames, List.append_assoc, List.nodup_append]
  refine ⟨?_, by decide, ?_⟩
  · rw [List.Nodup, List.pairwise_map]
    refine (hes.apart.sublist List.filter_sublist).imp fun happart heq => happart.1 ?_
    exact congrArg snakeCase ((String.append_left_inj _).1 heq)
  · have hother : ∀ name ∈ [ownStructure].map Prod.fst ++ importedTypes, ¬ "Response".toList <:+ name.toList := by
      decide
    rintro _ hstructure name hname rfl
    obtain ⟨e, _, rfl⟩ := List.mem_map.1 hstructure
    exact hother _ hname (suffix_of_messageName e)

/-- The client of a contract that is loaded has the methods of the exchanges besides its own and a structure for every
response in which several fields carry values. No two methods have one name, and no two of the structures and imported
types. The names of the parameters of each method, and of the fields of each structure, are identifiers, of which no
two are the same, and none is a word of the language that is not marked. -/
theorem client_names_apart {d : ContractDeclaration} {c : Contract} (hload : d.load = .ok c) : ∃ contents program,
    generate c = .ok ⟨[fileName], contents⟩ ∧ program = contents.toList.splitOn '\n' ∧
      methods program = ownMethods ++ c.exchanges.map requestMethod ∧
      structures program = (c.exchanges.filter returnsStructure).map responseStructure ++ [ownStructure] ∧
      imports program = importedTypes ∧
      ((methods program).map Prod.fst).Nodup ∧ ((structures program).map Prod.fst ++ imports program).Nodup ∧
      (∀ m ∈ methods program, Usable m.2) ∧ ∀ s ∈ structures program, Usable s.2 := by
  have hexchanges := ContractDeclaration.validExchanges_of_load hload
  obtain ⟨contents, hgenerate⟩ := exists_file c
  have hprogram : contents.toList.splitOn '\n' = program c := splitOn_client c hgenerate
  refine ⟨contents, _, hgenerate, rfl, ?_⟩
  rw [hprogram, methods_client hexchanges.each, structures_client hexchanges.each, imports_client hexchanges.each]
  refine ⟨rfl, rfl, rfl, nodup_methods hexchanges, nodup_structures hexchanges, ?_, ?_⟩
  · rw [List.forall_mem_append, List.forall_mem_map]
    exact ⟨by decide, fun e he => usable_rustIdentifier (hexchanges.each e he).request⟩
  · rw [List.forall_mem_append, List.forall_mem_map, List.forall_mem_singleton]
    exact ⟨fun e he => usable_rustIdentifier (hexchanges.each e (List.mem_filter.1 he).1).response, by decide⟩

end SerialContract.Host

namespace SerialContract.Bench

/-- An exchange and fields that are named by words of the host's language. -/
def loop : Exchange :=
  ⟨"loop", none, [⟨"type", .float⟩, ⟨"fn", .text⟩, ⟨"match", .nothing⟩], [⟨"in", .integer⟩, ⟨"r", .text⟩]⟩

def looping : ContractDeclaration := ⟨[loop.declaration], none, none, none⟩

end SerialContract.Bench

namespace SerialContract.Host

theorem client_names_apart_loop : ∃ c contents program, Bench.looping.load = .ok c ∧
    generate c = .ok ⟨[fileName], contents⟩ ∧ program = contents.toList.splitOn '\n' ∧
    methods program = ownMethods ++ [("request_loop", ["r#type", "r#fn"])] ∧
    structures program = [("loopResponse", ["r#in", "r"]), ("DeviceClient", ["client"])] ∧
    Usable ["r#type", "r#fn"] ∧ Usable ["r#in", "r"] := by
  have hload : Bench.looping.load = .ok ⟨[Bench.loop], .text, ⟨.usual, ""⟩, .standard⟩ := by decide
  obtain ⟨contents, program, hgenerate, hprogram, hmethods, hstructures, _, _, _, hparameters, hfields⟩ :=
    client_names_apart hload
  have hmethod : [Bench.loop].map requestMethod = [("request_loop", ["r#type", "r#fn"])] := by decide
  have hstructure : ([Bench.loop].filter returnsStructure).map responseStructure = [("loopResponse", ["r#in", "r"])] := by
    decide
  rw [hmethod] at hmethods
  rw [hstructure] at hstructures
  refine ⟨_, contents, program, hload, hgenerate, hprogram, hmethods, hstructures, ?_, ?_⟩
  · exact hparameters ("request_loop", ["r#type", "r#fn"]) (by rw [hmethods]; simp)
  · exact hfields ("loopResponse", ["r#in", "r"]) (by rw [hstructures]; simp)

end SerialContract.Host
