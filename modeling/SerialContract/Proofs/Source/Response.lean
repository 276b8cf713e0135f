import SerialContract.Source.Bundle
import SerialContract.Proofs.Firmware.Header
import SerialContract.Proofs.Firmware.Methods
import SerialContract.Proofs.Firmware.Wrapper
import SerialContract.Proofs.Source.Generation

/-!
# Responses from the firmware to the host

What the wrappers of the firmware print are lines that the host reads as the responses they stand for.
-/

namespace SerialContract

open TextLine (Denotes Assigns)

namespace Firmware

/-- The header of the parser and the file of the wrappers hold what the templates are filled with. -/
structure HoldsWrappers (c : Contract) (handlers : List Handler) (header source : SourceFile) : Prop where
  headerPath : header.path = ["firmware", "parser.h"]
  sourcePath : source.path = ["firmware", "client.cpp"]
  header : Template.populate Skeleton.parserHeader (replacements c handlers) = .ok header.contents
  source : Template.populate Skeleton.clientSource (replacements c handlers) = .ok source.contents

theorem exists_holdsWrappers {d : ContractDeclaration} {c : Contract} (hload : d.load = .ok c) :
    ∃ files handlers header source, c.sources Target.cpp.dialect = .ok files ∧ Firmware.handlers c = .ok handlers ∧
      header ∈ files ∧ source ∈ files ∧ HoldsWrappers c handlers header source := by
  obtain ⟨files, handlers, hsources, hhandlers, hfilled⟩ := Contract.exists_plain_sources hload
  obtain ⟨header, hheader, hheaderPath, hheaderText⟩ :=
    hfilled ("parser.h", Skeleton.parserHeader) (by simp [skeletons])
  obtain ⟨source, hsource, hsourcePath, hsourceText⟩ :=
    hfilled ("client.cpp", Skeleton.clientSource) (by simp [skeletons])
  exact ⟨files, handlers, header, source, hsources, hhandlers, hheader, hsource, hheaderPath, hsourcePath, hheaderText,
    hsourceText⟩

theorem HoldsWrappers.infix_wrapper {c : Contract} {handlers : List Handler} {header source : SourceFile}
    (hfiles : HoldsWrappers c handlers header source) {h : Handler} (hh : h ∈ handlers) :
    h.wrapper.toList <:+: source.contents.toList :=
  (infix_join_of_mem (List.mem_map_of_mem hh)).trans (infix_wrappers hfiles.source)

theorem exists_handler_of_mem {c : Contract} {handlers : List Handler} (h : Firmware.handlers c = .ok handlers)
    {e : Exchange} (he : e ∈ c.exchanges) : ∃ h ∈ handlers, Handler.ofExchange c.typeMapping e = .ok h :=
  exists_left_of_forall₂ (mapM_eq_ok_iff.1 h).flip he

/-! ## What the host reads -/

/-- Texts that stand for values of the fields, made of plain characters. -/
def Valued (e : Exchange) (w : Field → List Char) : Prop :=
  ∀ f ∈ e.response, f.type ≠ .nothing → (∀ ch ∈ w f, TextLine.Plain ch) ∧ ∃ value, Denotes f.type (w f) value

theorem Valued.isLine {e : Exchange} {w : Field → List Char} (hw : Valued e w) :
    TextLine.IsLine e .response (e.response.map (argumentOf w)) ['\n'] (utf8 (responseLine e w)) := by
  have hvalid : ∀ f ∈ e.response, (argumentOf w f).Valid := by
    intro f hf
    by_cases htype : f.type = .nothing
    · have hargument : argumentOf w f = ⟨f, []⟩ := by rw [argumentOf, if_pos htype]
      rw [hargument]
      exact ⟨List.forall_mem_nil _, List.forall_mem_nil _, .nothing, htype ▸ .nothing⟩
    · have hargument : argumentOf w f = ⟨f, w f⟩ := by rw [argumentOf, if_neg htype]
      obtain ⟨hplain, hdenotes⟩ := hw f hf htype
      rw [hargument]
      refine ⟨fun ch hch => (hplain ch hch).1, fun ch hch hmem => (hplain ch hch).2 ?_, hdenotes⟩
      simp only [List.mem_cons, List.not_mem_nil, or_false] at hmem
      rcases hmem with rfl | rfl | rfl | rfl <;> decide
  refine ⟨?_, ?_, by simp, ?_⟩
  · have hfields : (e.response.map (argumentOf w)).map TextLine.Argument.field = e.response := by
      rw [List.map_map]
      exact List.map_id _
    rw [hfields]
    exact List.Perm.refl _
  · intro a ha
    obtain ⟨f, hf, rfl⟩ := List.mem_map.1 ha
    exact hvalid f hf
  · rw [responseLine, List.map_map]
    rfl

theorem Valued.decode_eq {d : ContractDeclaration} {c : Contract} (hload : d.load = .ok c) {e : Exchange}
    (he : e ∈ c.exchanges) {w : Field → List Char} (hw : Valued e w) :
    ∃ values, TextLine.decode (.ofContract c) (utf8 (responseLine e w)) = .ok ⟨e.messageName .response, values⟩ ∧
      Assigns (e.response.map (argumentOf w)) values := by
  have hes := ContractDeclaration.validExchanges_of_load hload
  have hmem : e ∈ (ExchangeTable.ofList c.exchanges).exchanges :=
    (ExchangeTable.mem_ofList hes).2 (.inr (.inr he))
  have hline := hw.isLine
  obtain ⟨values, hvalues⟩ := hline.exists_assigns (ExchangeTable.validFields_of_mem hes hmem .response).distinct
  exact ⟨values, (TextLine.decode_eq_ok_iff hes).2 ⟨e, hmem, .response, _, _, hline, rfl, hvalues⟩, hvalues⟩

/-! ## Both together -/

/-- What the wrapper of an exchange prints, with the marks as the header of the parser defines them, is the
line of the response, and the host reads the response from it. No print statement may begin in the name of a
type. -/
theorem wrappers_print_responses {d : ContractDeclaration} {c : Contract} (hload : d.load = .ok c)
    (hnames : ∀ type name, c.typeMapping.get? type = some name → Silent name.toList) :
    ∃ files header source, c.sources Target.cpp.dialect = .ok files ∧
      header ∈ files ∧ header.path = ["firmware", "parser.h"] ∧
      source ∈ files ∧ source.path = ["firmware", "client.cpp"] ∧
      ∀ e ∈ c.exchanges, ∃ h, Handler.ofExchange c.typeMapping e = .ok h ∧
        h.wrapper.toList <:+: source.contents.toList ∧
        ∀ w, output? (meaning e w (definitions header.contents.toList)) h.wrapper.toList = some (responseLine e w) ∧
          (Valued e w → ∃ values,
            TextLine.decode (.ofContract c) (utf8 (responseLine e w)) = .ok ⟨e.messageName .response, values⟩ ∧
              Assigns (e.response.map (argumentOf w)) values) := by
  obtain ⟨files, handlers, header, source, hsources, hhandlers, hheader, hsource, hfiles⟩ := exists_holdsWrappers hload
  have hdefined := lookup_definedName hfiles.header
  have hvalid := (ContractDeclaration.validExchanges_of_load hload).each
  refine ⟨files, header, source, hsources, hheader, hfiles.headerPath, hsource, hfiles.sourcePath, fun e he => ?_⟩
  obtain ⟨h, hmem, hok⟩ := exists_handler_of_mem hhandlers he
  refine ⟨h, hok, hfiles.infix_wrapper hmem, fun w => ⟨?_, fun hw => hw.decode_eq hload he⟩⟩
  exact output?_wrapper (handles_of_ofExchange hok) (hvalid e he) hnames hdefined

end Firmware

namespace Bench

/-- The texts of a measurement. -/
def measured (f : Field) : List Char :=
  if f.name = "voltage" then "-1.5".toList else "?".toList

/-- An exchange whose response is a text. -/
def greet : Exchange := ⟨"Greet", none, [], [⟨"name", .text⟩]⟩

/-- A contract with this exchange alone. -/
def greeting (mapping : TypeMapping) : ContractDeclaration := ⟨[greet.declaration], none, none, some mapping⟩

def greeter (mapping : TypeMapping) : Contract := ⟨[greet], .text, ⟨.usual, ""⟩, mapping⟩

/-- A name of a type in which a print statement begins. -/
def loud : TypeMapping :=
  TypeMapping.standard.insert .text "int;\n    Serial.print(\"?\");\n    std::string"

end Bench

namespace Firmware

theorem wrappers_print_responses_bench :
    (∀ type name, Bench.contract.typeMapping.get? type = some name → Silent name.toList) ∧
      ∃ h defined, Handler.ofExchange Bench.contract.typeMapping Bench.measure = .ok h ∧
        output? (meaning Bench.measure Bench.measured defined) h.wrapper.toList =
          some "MeasureResponse(voltage=-1.5,settled=)\n".toList ∧
        ∃ values, TextLine.decode (.ofContract Bench.contract)
            (utf8 "MeasureResponse(voltage=-1.5,settled=)\n".toList) = .ok ⟨"MeasureResponse", values⟩ ∧
          values.get? "voltage" = some (.float (Decimal.toFloat .double true ⟨15, -1⟩)) := by
  have hnames : ∀ type name, Bench.contract.typeMapping.get? type = some name → Silent name.toList := by
    intro type name hname
    apply silent_of_dot_notMem
    cases type <;> cases hname <;> decide +kernel
  have htext : Bench.measured ⟨"voltage", .float⟩ = ['-', '1', '.', '5'] := by decide +kernel
  have hvoltage : Denotes .float (Bench.measured ⟨"voltage", .float⟩)
      (.float (Decimal.toFloat .double true ⟨15, -1⟩)) := .float (by decide +kernel)
  have hvalued : Valued Bench.measure Bench.measured := by
    intro f hf htype
    simp only [Bench.measure, List.mem_cons, List.not_mem_nil, or_false] at hf
    rcases hf with rfl | rfl
    · refine ⟨?_, _, hvoltage⟩
      simp only [htext, List.forall_mem_cons, TextLine.Plain]
      exact ⟨by decide, by decide, by decide, by decide, List.forall_mem_nil _⟩
    · exact absurd rfl htype
  have hline : responseLine Bench.measure Bench.measured = "MeasureResponse(voltage=-1.5,settled=)\n".toList := by
    decide +kernel
  refine ⟨hnames, ?_⟩
  obtain ⟨_, header, _, _, _, _, _, _, hall⟩ := wrappers_print_responses Bench.load_declaration hnames
  obtain ⟨h, hok, _, hprints⟩ := hall Bench.measure List.mem_cons_self
  obtain ⟨hprinted, hread⟩ := hprints Bench.measured
  obtain ⟨values, hvalues, hassigns⟩ := hread hvalued
  rw [hline] at hprinted hvalues
  exact ⟨h, definitions header.contents.toList, hok, hprinted, values, hvalues,
    (hassigns "voltage" _).2 ⟨_, List.mem_cons_self, rfl, hvoltage⟩⟩

/-- A text that is no ASCII text and has none of the reserved characters: the host refuses the response with it.
And a name of a type in which a print statement begins: the wrapper prints more than the line. -/
theorem greet_response_refused :
    ((Bench.greeting .standard).load = .ok (Bench.greeter .standard) ∧ (∀ c ∈ ['é'], c ∉ TextLine.reserved) ∧
      Denotes .text ['é'] (.text "é") ∧
      TextLine.decode (.ofContract (Bench.greeter .standard)) (utf8 (responseLine Bench.greet fun _ => ['é'])) =
        .error .nonAscii) ∧
    ((Bench.greeting Bench.loud).load = .ok (Bench.greeter Bench.loud) ∧
      ∃ h, Handler.ofExchange Bench.loud Bench.greet = .ok h ∧ ∀ w defined,
        DefinesMarks defined →
          output? (meaning Bench.greet w defined) h.wrapper.toList = some ('?' :: responseLine Bench.greet w)) := by
  have hload : (Bench.greeting Bench.loud).load = .ok (Bench.greeter Bench.loud) := by decide +kernel
  obtain ⟨h, hok⟩ : ∃ h, Handler.ofExchange Bench.loud Bench.greet = .ok h := ⟨_, rfl⟩
  have hparameters : h.parameters = [] := by
    cases hok
    rfl
  have hcalling : h.calling =
      line "    int;" ++ line "    Serial.print(\"?\");" ++ line "    std::string result_ = this->greet();" := by
    cases hok
    decide +kernel
  have hreserved : ∀ c ∈ ['é'], c ∉ TextLine.reserved := List.forall_mem_singleton.2 (by decide)
  refine ⟨⟨by decide +kernel, hreserved, .text, by decide +kernel⟩, hload, h, hok, fun w defined hdefined => ?_⟩
  have hvalid := (ContractDeclaration.validExchanges_of_load hload).each Bench.greet List.mem_cons_self
  have hmeaning : meaning Bench.greet w defined ['"', '?', '"'] = some ['?'] := by
    rw [meaning_of_head?_ne (by decide)]
    rfl
  have hprinted : Prints (meaning Bench.greet w defined) h.calling.toList ['?'] := by
    rw [hcalling, String.toList_append, String.toList_append]
    have hfirst : Prints (meaning Bench.greet w defined) (line "    int;").toList [] :=
      Prints.line (silent_of_dot_notMem (by decide +kernel))
    have hlast : Prints (meaning Bench.greet w defined) (line "    std::string result_ = this->greet();").toList [] :=
      Prints.line (silent_of_dot_notMem (by decide +kernel))
    have hstatement : (line "    Serial.print(\"?\");").toList =
        indentation ++ printing ++ ['"', '?', '"'] ++ printed ++ ['\n'] := by decide +kernel
    rw [hstatement]
    exact (hfirst.append (Prints.statement (by decide) hmeaning)).append hlast
  exact output?_wrapper_of_calling (handles_of_ofExchange hok) hvalid (by simp [hparameters]) hdefined hprinted

end Firmware

end SerialContract
