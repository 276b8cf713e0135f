import SerialContract.Source.Bundle
import SerialContract.Proofs.Dialect.Rule
import SerialContract.Proofs.Firmware.Bundle
import SerialContract.Proofs.Template.Population

/-!
# Generation succeeds

What can keep the files of a contract from being generated is a dialect with a rule that cannot be applied,
and nothing else: the contract has been loaded, and the templates and what replaces their placeholders agree.
Every file is its template with all placeholders replaced, those of the firmware turned into the dialect.
-/

namespace SerialContract

/-! ## The host's client -/

namespace Host

/-- The names of all placeholders that are replaced. -/
def placeholders : List String :=
  ["baud_rate", "identifier", "encoding", "exchange_constructors", "response_structs", "request_methods"]

theorem contains_replacements (c : Contract) {name : String} :
    (replacements c).contains name = true ↔ name ∈ placeholders :=
  NameMap.contains_ofList

theorem placeholder_mem : ∀ name ∈ Template.names skeleton, name ∈ placeholders := by
  apply Template.mem_of_mem_names_lines
  repeat refine List.forall_mem_cons.2 ⟨Template.mem_of_mem_names_of_chars rfl (by decide +kernel), ?_⟩
  exact List.forall_mem_nil _

theorem exists_file (c : Contract) : ∃ contents, generate c = .ok ⟨[fileName], contents⟩ := by
  have hfilled := Template.populate_eq_ok fun name hname =>
    (contains_replacements c).2 (placeholder_mem name hname)
  exact ⟨_, bind_eq_ok.2 ⟨_, fillSource_eq_ok.2 hfilled, rfl⟩⟩

theorem filled_of_generate {c : Contract} {file : SourceFile} (h : generate c = .ok file) :
    Template.Filled skeleton (replacements c) file.contents := by
  obtain ⟨contents, hcontents, hfile⟩ := bind_eq_ok.1 h
  cases hfile
  exact Template.filled_of_populate (fillSource_eq_ok.1 hcontents)

end Host

/-! ## Both ends -/

namespace Contract

/-- The paths of the files, in the order in which they are generated. -/
def filePaths : List String :=
  ["firmware/parser.h", "firmware/parser.cpp", "firmware/client.h", "firmware/client.cpp", "firmware/firmware.ino",
    "client.rs"]

theorem sources_of_fault (c : Contract) {dialect : Dialect} {fault : TemplateError} (h : dialect.compile = .error fault) :
    c.sources dialect = .error (.dialect fault) := by
  rw [sources, h]
  rfl

/-- In a dialect that can be made ready the firmware comes first, every file made of its template, and the host's
client last. -/
theorem exists_sources {d : ContractDeclaration} {c : Contract} (hload : d.load = .ok c) {dialect : Dialect}
    {compiled : CompiledDialect} (h : dialect.compile = .ok compiled) : ∃ firmware handlers contents,
      Firmware.generate c compiled = .ok firmware ∧ Firmware.handlers c = .ok handlers ∧
        List.Forall₂ (Firmware.Made c handlers compiled) Firmware.skeletons firmware ∧
        Host.generate c = .ok ⟨[Host.fileName], contents⟩ ∧
        c.sources dialect = .ok (firmware ++ [⟨[Host.fileName], contents⟩]) := by
  obtain ⟨firmware, hfirmware⟩ := Firmware.exists_files hload (Dialect.apply_of_compile h)
  obtain ⟨handlers, hhandlers, hmade⟩ := Firmware.generate_eq_ok_iff.1 hfirmware
  obtain ⟨contents, hclient⟩ := Host.exists_file c
  refine ⟨firmware, handlers, contents, hfirmware, hhandlers, hmade, hclient, ?_⟩
  rw [sources, h, hclient]
  simp only [Except.mapError, bind, Except.bind, hfirmware, pure, Except.pure]

theorem pathTexts_of_generate {c : Contract} {compiled : CompiledDialect} {files : List SourceFile}
    (h : Firmware.generate c compiled = .ok files) (contents : String) :
    (files ++ [(⟨[Host.fileName], contents⟩ : SourceFile)]).map SourceFile.pathText = filePaths := by
  have htexts : files.map SourceFile.pathText = (files.map SourceFile.path).map ("/".intercalate ·) := by
    rw [List.map_map]
    rfl
  have hclient : SourceFile.pathText ⟨[Host.fileName], contents⟩ = "/".intercalate [Host.fileName] := rfl
  rw [List.map_append, htexts, Firmware.paths_of_generate h, List.map_singleton, hclient]
  decide +kernel

/-- A file whose contents are a filled template, turned into a dialect. -/
def Rendered (compiled : CompiledDialect) (template : String) (replacements : Template.Replacements)
    (file : SourceFile) : Prop :=
  ∃ filled, Template.Filled template replacements filled ∧ compiled.apply filled = .ok file.contents

theorem rendered_of_made {c : Contract} {handlers : List Firmware.Handler} {compiled : CompiledDialect}
    {skeleton : String × String} {file : SourceFile} (h : Firmware.Made c handlers compiled skeleton file) :
    Rendered compiled skeleton.2 (Firmware.replacements c handlers) file := by
  obtain ⟨filled, hfilled, happly, _⟩ := h
  exact ⟨filled, Template.filled_of_populate hfilled, happly⟩

theorem exists_rendered_sources {d : ContractDeclaration} {c : Contract} (hload : d.load = .ok c) {dialect : Dialect}
    {compiled : CompiledDialect} (h : dialect.compile = .ok compiled) : ∃ firmware client handlers,
      c.sources dialect = .ok (firmware ++ [client]) ∧
        (firmware ++ [client]).map SourceFile.pathText = filePaths ∧ Firmware.handlers c = .ok handlers ∧
        List.Forall₂ (fun skeleton => Rendered compiled skeleton.2 (Firmware.replacements c handlers))
          Firmware.skeletons firmware ∧
        Template.Filled Host.skeleton (Host.replacements c) client.contents := by
  obtain ⟨firmware, handlers, contents, hfirmware, hhandlers, hmade, hclient, hsources⟩ := exists_sources hload h
  exact ⟨firmware, ⟨[Host.fileName], contents⟩, handlers, hsources, pathTexts_of_generate hfirmware contents, hhandlers,
    hmade.imp fun _ _ => rendered_of_made, Host.filled_of_generate hclient⟩

/-- In a dialect that can be made ready, every file of the firmware is made of its template. -/
theorem exists_made_sources {d : ContractDeclaration} {c : Contract} (hload : d.load = .ok c) {dialect : Dialect}
    {compiled : CompiledDialect} (hcompile : dialect.compile = .ok compiled) :
    ∃ files handlers, c.sources dialect = .ok files ∧
      files.map SourceFile.path =
        Firmware.skeletons.map (fun skeleton => [Firmware.directory, skeleton.1]) ++ [[Host.fileName]] ∧
      Firmware.handlers c = .ok handlers ∧
      ∀ skeleton ∈ Firmware.skeletons, ∃ file ∈ files, Firmware.Made c handlers compiled skeleton file := by
  obtain ⟨firmware, handlers, _, hfirmware, hhandlers, hmade, _, hsources⟩ := exists_sources hload hcompile
  refine ⟨_, handlers, hsources, ?_, hhandlers, fun skeleton hskeleton => ?_⟩
  · rw [List.map_append, Firmware.paths_of_generate hfirmware]
    rfl
  · obtain ⟨file, hfile, hmade⟩ := exists_left_of_forall₂ hmade.flip hskeleton
    exact ⟨file, List.mem_append_left _ hfile, hmade⟩

/-- In plain C++ the files of the firmware are the filled templates. -/
theorem exists_plain_sources {d : ContractDeclaration} {c : Contract} (hload : d.load = .ok c) :
    ∃ files handlers, c.sources Target.cpp.dialect = .ok files ∧ Firmware.handlers c = .ok handlers ∧
      ∀ skeleton ∈ Firmware.skeletons, ∃ file ∈ files, file.path = [Firmware.directory, skeleton.1] ∧
        Template.populate skeleton.2 (Firmware.replacements c handlers) = .ok file.contents := by
  have hcompile : Target.cpp.dialect.compile = .ok ⟨"cpp", []⟩ := rfl
  obtain ⟨files, handlers, hsources, _, hhandlers, hmade⟩ := exists_made_sources hload hcompile
  refine ⟨files, handlers, hsources, hhandlers, fun skeleton hskeleton => ?_⟩
  obtain ⟨file, hfile, filled, hfilled, happly, hpath⟩ := hmade skeleton hskeleton
  cases happly
  exact ⟨file, hfile, hpath, hfilled⟩

/-- Of a contract that is loaded, files are generated in a dialect if and only if the dialect can be made
ready; else its fault is reported. There are always the same six files. Those of the firmware are their templates
with every placeholder replaced, and then turned into the dialect; the host's client is its template with every
placeholder replaced. -/
theorem sources_total {d : ContractDeclaration} {c : Contract} (hload : d.load = .ok c) (dialect : Dialect) :
    (∀ fault, c.sources dialect = .error fault ↔
        ∃ cause, dialect.compile = .error cause ∧ fault = .dialect cause) ∧
      ∀ compiled, dialect.compile = .ok compiled → ∃ firmware client handlers,
        c.sources dialect = .ok (firmware ++ [client]) ∧
          (firmware ++ [client]).map SourceFile.pathText = filePaths ∧ Firmware.handlers c = .ok handlers ∧
          List.Forall₂ (fun skeleton => Rendered compiled skeleton.2 (Firmware.replacements c handlers))
            Firmware.skeletons firmware ∧
          Template.Filled Host.skeleton (Host.replacements c) client.contents := by
  refine ⟨fun fault => ?_, fun compiled hcompile => exists_rendered_sources hload hcompile⟩
  cases hcompile : dialect.compile with
  | error cause => simp [sources_of_fault c hcompile, eq_comm]
  | ok compiled =>
      obtain ⟨_, _, _, hfiles, _⟩ := exists_rendered_sources hload hcompile
      simp [hfiles]

end Contract

namespace Bench

/-- A dialect with a rule whose pattern names a placeholder twice. -/
def twice : Dialect := ⟨"twice", [⟨"\x7b\x7ba\x7d\x7d\x7b\x7ba\x7d\x7d", ""⟩]⟩

end Bench

namespace Contract

theorem sources_total_bench : (∃ firmware client,
      Bench.contract.sources Target.arduino.dialect = .ok (firmware ++ [client]) ∧
        (firmware ++ [client]).map SourceFile.pathText = filePaths ∧
        Template.Filled Host.skeleton (Host.replacements Bench.contract) client.contents) ∧
    Bench.contract.sources Bench.twice =
      .error (.dialect (.repeatedPlaceholder "a" "\x7b\x7ba\x7d\x7d\x7b\x7ba\x7d\x7d")) := by
  constructor
  · have hready : Target.arduino.dialect.compile.toOption.isSome := by decide +kernel
    cases hcompile : Target.arduino.dialect.compile with
    | error fault =>
        rw [hcompile] at hready
        cases hready
    | ok compiled =>
        obtain ⟨firmware, client, _, hsources, hpaths, _, _, hclient⟩ :=
          (sources_total Bench.load_declaration Target.arduino.dialect).2 compiled hcompile
        exact ⟨firmware, client, hsources, hpaths, hclient⟩
  · exact ((sources_total Bench.load_declaration Bench.twice).1 _).2 ⟨_, by decide +kernel, rfl⟩

end Contract

end SerialContract
