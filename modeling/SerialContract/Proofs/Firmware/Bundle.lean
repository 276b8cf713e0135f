import SerialContract.Firmware.Bundle
import SerialContract.Proofs.Contract.WellFormed
import SerialContract.Proofs.Firmware.Handler
import SerialContract.Proofs.NameMap
import SerialContract.Proofs.Template.Lines

/-!
# The firmware of a contract

Every type has a name in a contract that is loaded, so every exchange has a handler. And every placeholder
of the firmware's templates is replaced.
-/

namespace SerialContract

theorem ContractDeclaration.exists_typeName_of_load {d : ContractDeclaration} {c : Contract} (h : d.load = .ok c)
    (type : FieldType) : ∃ name, c.typeMapping.get? type = some name := by
  obtain ⟨hviolations, _, _, _, _, hmapping⟩ := load_eq_ok_iff.1 h
  obtain ⟨name, hname, _⟩ := (violations_eq_nil.1 hviolations).typeNames type
  rw [hmapping]
  exact ⟨name, hname⟩

theorem fillSource_eq_ok {name template filled : String} {replacements : Template.Replacements} :
    fillSource name template replacements = .ok filled ↔ Template.populate template replacements = .ok filled := by
  rw [fillSource, mapError_eq_ok, Template.fill?, mapError_eq_ok]

namespace Firmware

/-! ## Handlers -/

theorem exists_handlers {d : ContractDeclaration} {c : Contract} (hload : d.load = .ok c) :
    ∃ handlers, Firmware.handlers c = .ok handlers :=
  exists_mapM_eq_ok fun e _ => exists_handler (ContractDeclaration.exists_typeName_of_load hload) e

/-! ## Placeholders -/

/-- The names of all placeholders that are replaced. -/
def placeholders : List String :=
  ["max_args", "float_precision", "error_field", "baud_rate", "response_structs", "virtual_declarations",
    "wrapper_declarations", "respond_invocations", "wrapper_implementations", "handler_stubs"] ++
    Mark.all.map Mark.placeholder

theorem contains_replacements (c : Contract) (handlers : List Handler) {name : String} :
    (replacements c handlers).contains name = true ↔ name ∈ placeholders :=
  NameMap.contains_ofList

theorem placeholders_nodup : placeholders.Nodup := by
  decide

theorem get?_mark (c : Contract) (handlers : List Handler) (m : Mark) :
    (replacements c handlers).get? m.placeholder = some (escaped m.char) := by
  have hmem : m ∈ Mark.all := by cases m <;> decide
  exact NameMap.get?_ofList_of_mem placeholders_nodup
    (List.mem_append_right _ (List.mem_map.2 ⟨m, hmem, rfl⟩))

theorem placeholder_mem : ∀ skeleton ∈ skeletons, ∀ name ∈ Template.names skeleton.2, name ∈ placeholders := by
  simp only [skeletons, List.forall_mem_cons]
  refine ⟨?_, ?_, ?_, ?_, ?_, List.forall_mem_nil _⟩
  all_goals
    apply Template.mem_of_mem_names_lines
    repeat refine List.forall_mem_cons.2 ⟨Template.mem_of_mem_names_of_chars rfl (by decide +kernel), ?_⟩
    exact List.forall_mem_nil _

/-- A template of the firmware that is filled is made of its lines, each filled. -/
theorem eq_lines_of_populate {c : Contract} {handlers : List Handler} {name filled : String} {texts : List String}
    (hskeleton : (name, lines texts) ∈ skeletons)
    (h : Template.populate (lines texts) (replacements c handlers) = .ok filled) :
    filled = lines (texts.map (Template.filledLine (replacements c handlers))) := by
  have hnames : ∀ name ∈ texts.flatMap Template.names, (replacements c handlers).contains name = true := by
    rw [← Template.names_lines]
    exact fun name hname => (contains_replacements c handlers).2 (placeholder_mem _ hskeleton name hname)
  rw [Template.populate_lines hnames] at h
  exact (Except.ok.inj h).symm

/-! ## Files -/

variable {c : Contract} {dialect : CompiledDialect} {files : List SourceFile}

/-- A file is made of a template that is filled and then turned into a dialect. -/
def Made (c : Contract) (handlers : List Handler) (dialect : CompiledDialect) (skeleton : String × String)
    (file : SourceFile) : Prop :=
  ∃ filled, Template.populate skeleton.2 (replacements c handlers) = .ok filled ∧
    dialect.apply filled = .ok file.contents ∧ file.path = [directory, skeleton.1]

theorem generate_eq_ok_iff : generate c dialect = .ok files ↔
    ∃ handlers, Firmware.handlers c = .ok handlers ∧ List.Forall₂ (Made c handlers dialect) skeletons files := by
  have hmade : ∀ handlers skeleton file, (do
      let filled ← fillSource skeleton.1 skeleton.2 (replacements c handlers)
      let turned ← (dialect.apply filled).mapError (SourceError.template skeleton.1)
      return SourceFile.mk [directory, skeleton.1] turned) = .ok file ↔ Made c handlers dialect skeleton file := by
    intro handlers skeleton ⟨path, contents⟩
    simp only [bind_eq_ok, fillSource_eq_ok, mapError_eq_ok, pure, Except.pure, Except.ok.injEq, SourceFile.mk.injEq,
      Made]
    constructor
    · rintro ⟨filled, hfilled, turned, hturned, hpath, rfl⟩
      exact ⟨filled, hfilled, hturned, hpath.symm⟩
    · rintro ⟨filled, hfilled, hturned, hpath⟩
      exact ⟨filled, hfilled, contents, hturned, hpath.symm, rfl⟩
  simp only [generate, bind_eq_ok, mapError_eq_ok, mapM_eq_ok_iff, hmade]

/-- The firmware of a contract that is loaded can be made in every dialect that is ready. -/
theorem exists_files {d : ContractDeclaration} (hload : d.load = .ok c)
    (hdialect : ∀ text, ∃ turned, dialect.apply text = .ok turned) : ∃ files, generate c dialect = .ok files := by
  obtain ⟨handlers, hhandlers⟩ := exists_handlers hload
  have hmade : ∀ skeleton ∈ skeletons, ∃ file, Made c handlers dialect skeleton file := by
    intro skeleton hskeleton
    have hfilled := Template.populate_eq_ok fun name hname =>
      (contains_replacements c handlers).2 (placeholder_mem skeleton hskeleton name hname)
    obtain ⟨turned, hturned⟩ := hdialect _
    exact ⟨⟨[directory, skeleton.1], turned⟩, _, hfilled, hturned, rfl⟩
  obtain ⟨files, hfiles⟩ := exists_forall₂ hmade
  exact ⟨files, generate_eq_ok_iff.2 ⟨handlers, hhandlers, hfiles⟩⟩

theorem paths_of_generate (h : generate c dialect = .ok files) :
    files.map SourceFile.path = skeletons.map fun skeleton => [directory, skeleton.1] := by
  obtain ⟨handlers, _, hfiles⟩ := generate_eq_ok_iff.1 h
  clear h
  generalize skeletons = list at hfiles
  induction hfiles with
  | nil => rfl
  | cons hfile _ ih =>
      obtain ⟨_, _, _, hpath⟩ := hfile
      rw [List.map_cons, List.map_cons, hpath, ih]

end Firmware

end SerialContract
