import Mathlib.Data.List.DropRight
import SerialContract.Proofs.Contract.CaseConversion
import SerialContract.Proofs.Firmware.Methods
import SerialContract.Proofs.Source.Generation

/-!
# Methods and the members of the class that answers requests

The class that answers requests has members of its own, and the sketch calls two of them on the device. No check
keeps the names of exchanges from them: a handler takes the name of a member if and only if the snake case of the
exchange, up to what camel case forgets, is that of the member, and then a call leads to the handler.
-/

namespace SerialContract.Firmware

/-! ## Reading the programs -/

/-- The member that a line of a class declares: the identifier in front of the parentheses. -/
def memberName? (line : List Char) : Option String :=
  (cutAt '(' line).map fun (front, _) => String.ofList (front.rtakeWhile isIdentifierPart)

/-- The members that a header declares. -/
def memberNames (program : List Char) : List String :=
  (program.splitOn '\n').filterMap memberName?

/-- The member of the device that a line calls. -/
def calledName? (line : List Char) : Option String := do
  let call ← "    device.".toList.isPrefixOf? line
  let (name, _) ← cutAt '(' call
  return String.ofList name

/-- The members of the device that a sketch calls. -/
def calledNames (program : List Char) : List String :=
  (program.splitOn '\n').filterMap calledName?

/-- The members that the class has of its own, but for those that make and destroy it. -/
def ownMembers : List String :=
  ["begin", "respond", "pingWrapper", "unidentifiedCommand", "badCommandFormat"]

/-- The members that the sketch calls on the device. -/
def deviceCalls : List String := ["begin", "respond"]

theorem memberNames_clientHeader : memberNames Skeleton.clientHeader.toList = "Client" :: "Client" :: ownMembers := by
  rw [memberNames, Skeleton.clientHeader, splitOn_toList_lines]
  simp only [List.flatMap_cons, List.flatMap_nil]
  repeat rw [String.toList_ofList]
  decide

theorem calledNames_sketch : calledNames Skeleton.sketch.toList = deviceCalls := by
  rw [calledNames, Skeleton.sketch, splitOn_toList_lines]
  simp only [List.flatMap_cons, List.flatMap_nil]
  repeat rw [String.toList_ofList]
  decide

section Filled

variable {c : Contract} {handlers : List Handler} {name text filled : String} {texts : List String}

/-- A line of a template without placeholders is a line of the filled template. -/
theorem line_of_populate (hskeleton : (name, lines texts) ∈ skeletons)
    (h : Template.populate (lines texts) (replacements c handlers) = .ok filled) (htext : text ∈ texts)
    (hplain : Template.PlainLine text) : text.toList ∈ filled.toList.splitOn '\n' := by
  rw [eq_lines_of_populate hskeleton h, splitOn_toList_lines]
  refine List.mem_append_left _ (List.mem_flatMap.2 ⟨_, List.mem_map_of_mem htext, ?_⟩)
  rw [Template.filledLine_plain hplain.parts, List.splitOn_eq_singleton hplain.newline]
  exact List.mem_singleton_self _

theorem mem_memberNames (text : String) (h : Template.populate (lines texts) (replacements c handlers) = .ok filled)
    (hskeleton : ("client.h", lines texts) ∈ skeletons) (htext : text ∈ texts) (hplain : Template.PlainLine text)
    (hname : memberName? text.toList = some name) : name ∈ memberNames filled.toList :=
  List.mem_filterMap.2 ⟨_, line_of_populate hskeleton h htext hplain, hname⟩

theorem mem_calledNames (text : String) (h : Template.populate (lines texts) (replacements c handlers) = .ok filled)
    (hskeleton : ("firmware.ino", lines texts) ∈ skeletons) (htext : text ∈ texts) (hplain : Template.PlainLine text)
    (hname : calledName? text.toList = some name) : name ∈ calledNames filled.toList :=
  List.mem_filterMap.2 ⟨_, line_of_populate hskeleton h htext hplain, hname⟩

theorem ownMembers_declared (h : Template.populate Skeleton.clientHeader (replacements c handlers) = .ok filled) :
    ∀ name ∈ ownMembers, name ∈ memberNames filled.toList := by
  have hskeleton : ("client.h", Skeleton.clientHeader) ∈ skeletons := by simp [skeletons]
  simp only [ownMembers, List.forall_mem_cons]
  exact ⟨mem_memberNames "    void begin();" h hskeleton (by decide) (.of_chars rfl (by decide) (by decide)) (by decide),
    mem_memberNames "    void respond();" h hskeleton (by decide) (.of_chars rfl (by decide) (by decide)) (by decide),
    mem_memberNames "    void pingWrapper() const;" h hskeleton (by decide)
      (.of_chars rfl (by decide) (by decide)) (by decide),
    mem_memberNames "    void unidentifiedCommand(const std::string& name) const;" h hskeleton (by decide)
      (.of_chars rfl (by decide) (by decide)) (by decide),
    mem_memberNames "    void badCommandFormat() const;" h hskeleton (by decide)
      (.of_chars rfl (by decide) (by decide)) (by decide), List.forall_mem_nil _⟩

theorem deviceCalls_called (h : Template.populate Skeleton.sketch (replacements c handlers) = .ok filled) :
    ∀ name ∈ deviceCalls, name ∈ calledNames filled.toList := by
  have hskeleton : ("firmware.ino", Skeleton.sketch) ∈ skeletons := by simp [skeletons]
  simp only [deviceCalls, List.forall_mem_cons]
  exact ⟨mem_calledNames "    device.begin();" h hskeleton (by decide)
      (.of_chars rfl (by decide) (by decide)) (by decide),
    mem_calledNames "    device.respond();" h hskeleton (by decide)
      (.of_chars rfl (by decide) (by decide)) (by decide), List.forall_mem_nil _⟩

end Filled

/-! ## Names of members -/

theorem camelCase_ownMember : ∀ name ∈ ownMembers, camelCase name = name ∧ tidySnakeCase name = snakeCase name := by
  decide

theorem camelCase_mem_ownMembers {name : String} :
    camelCase name ∈ ownMembers ↔ tidySnakeCase name ∈ ownMembers.map snakeCase := by
  have hsame : ∀ word ∈ ownMembers, camelCase name = word ↔ snakeCase word = tidySnakeCase name := by
    intro word hword
    obtain ⟨hcamel, htidy⟩ := camelCase_ownMember word hword
    rw [← htidy, eq_comm (b := tidySnakeCase name), ← camelCase_eq_iff, hcamel]
  rw [List.mem_map]
  constructor
  · exact fun hmem => ⟨camelCase name, hmem, (hsame _ hmem).1 rfl⟩
  · rintro ⟨word, hmem, hword⟩
    rw [(hsame word hmem).2 hword]
    exact hmem

/-- A wrapper can only take the name of the method that answers a ping. -/
theorem wrapperName_mem_ownMembers {h : Handler} :
    h.wrapperName ∈ ownMembers ↔ tidySnakeCase h.exchange.name = "ping" := by
  have hping : tidySnakeCase "ping" = "ping" := by decide
  have hwrapper : "ping" ++ "Wrapper" = "pingWrapper" := by decide
  have honly : ∀ word ∈ ownMembers, "Wrapper".toList <:+ word.toList → word = "pingWrapper" := by decide
  have hname : h.wrapperName = "pingWrapper" ↔ h.name = "ping" := by
    rw [← hwrapper, Handler.wrapperName, String.append_left_inj]
  have hcamel : camelCase "ping" = "ping" := by decide
  rw [← hping, ← camelCase_eq_iff, hcamel, ← Handler.name, ← hname]
  constructor
  · intro hmem
    refine honly _ hmem ?_
    rw [Handler.wrapperName, String.toList_append]
    exact List.suffix_append _ _
  · intro heq
    rw [heq]
    decide

/-! ## Where calls lead -/

/-- The class in which a call finds the member of a name. The classes are searched one after another, each in front
of the one that it extends. -/
def declaringClass? (classes : List (String × List String)) (name : String) : Option String :=
  (classes.find? (·.2.contains name)).map Prod.fst

/-- The class of the device, which overrides the handlers, and the class that it extends. -/
def deviceClasses (handlers : List Handler) : List (String × List String) := [
  ("Device", handlers.map Handler.name),
  ("Client", ownMembers ++ handlers.map Handler.name ++ handlers.map Handler.wrapperName)]

theorem declaringClass?_deviceClasses {handlers : List Handler} {name : String} (hname : name ∈ ownMembers) :
    declaringClass? (deviceClasses handlers) name =
      some (if name ∈ handlers.map Handler.name then "Device" else "Client") := by
  rw [declaringClass?, deviceClasses]
  by_cases hoverridden : name ∈ handlers.map Handler.name
  · rw [if_pos hoverridden, List.find?_cons_of_pos (by simpa using hoverridden)]
    rfl
  · rw [if_neg hoverridden, List.find?_cons_of_neg (by simpa using hoverridden),
      List.find?_cons_of_pos (by simp [hname])]
    rfl

/-- A call leads to the member of the class itself if and only if no exchange is named like it. -/
theorem declaringClass?_eq_client_iff {c : Contract} {handlers : List Handler} (h : Firmware.handlers c = .ok handlers)
    {name : String} (hname : name ∈ deviceCalls) :
    declaringClass? (deviceClasses handlers) name = some "Client" ↔ ∀ e ∈ c.exchanges, tidySnakeCase e.name ≠ name := by
  have hown : name ∈ ownMembers := (by decide : ∀ called ∈ deviceCalls, called ∈ ownMembers) name hname
  have hsnake : snakeCase name = name := (by decide : ∀ called ∈ deviceCalls, snakeCase called = called) name hname
  obtain ⟨hcamel, htidy⟩ := camelCase_ownMember name hown
  rw [hsnake] at htidy
  have hclass : some (if name ∈ handlers.map Handler.name then "Device" else "Client") = some "Client" ↔
      name ∉ handlers.map Handler.name := by
    split <;> simp_all
  rw [declaringClass?_deviceClasses hown, hclass, names_of_handlers h]
  simp only [List.mem_map, exists_exists_and_eq_and, not_exists, not_and]
  refine forall₂_congr fun e _ => not_congr ?_
  rw [← hcamel, camelCase_eq_iff, hcamel, htidy]

/-- A handler takes the name of a member of the class that answers requests if and only if the snake case of its
exchange, up to what camel case forgets, is that of the member, and a wrapper if and only if it is `ping`. A call of
the sketch leads to the member of that class if and only if no exchange is named like it. -/
theorem handlers_take_members_iff {d : ContractDeclaration} {c : Contract} (hload : d.load = .ok c) :
    ∃ files handlers header sketch, c.sources Target.cpp.dialect = .ok files ∧ Firmware.handlers c = .ok handlers ∧
      header ∈ files ∧ header.path = ["firmware", "client.h"] ∧
      sketch ∈ files ∧ sketch.path = ["firmware", "firmware.ino"] ∧
      memberNames Skeleton.clientHeader.toList = "Client" :: "Client" :: ownMembers ∧
      (∀ name ∈ ownMembers, name ∈ memberNames header.contents.toList) ∧
      calledNames Skeleton.sketch.toList = deviceCalls ∧
      (∀ name ∈ deviceCalls, name ∈ calledNames sketch.contents.toList) ∧
      handlers.map Handler.name = (c.exchanges.map Exchange.name).map camelCase ∧
      (∀ h ∈ handlers, (h.name ∈ ownMembers ↔ tidySnakeCase h.exchange.name ∈ ownMembers.map snakeCase) ∧
        (h.wrapperName ∈ ownMembers ↔ tidySnakeCase h.exchange.name = "ping")) ∧
      ∀ name ∈ deviceCalls, declaringClass? (deviceClasses handlers) name = some "Client" ↔
        ∀ e ∈ c.exchanges, tidySnakeCase e.name ≠ name := by
  obtain ⟨files, handlers, hsources, hhandlers, hfilled⟩ := Contract.exists_plain_sources hload
  obtain ⟨header, hheader, hheaderPath, hheaderText⟩ :=
    hfilled ("client.h", Skeleton.clientHeader) (by simp [skeletons])
  obtain ⟨sketch, hsketch, hsketchPath, hsketchText⟩ :=
    hfilled ("firmware.ino", Skeleton.sketch) (by simp [skeletons])
  exact ⟨files, handlers, header, sketch, hsources, hhandlers, hheader, hheaderPath, hsketch, hsketchPath,
    memberNames_clientHeader, ownMembers_declared hheaderText, calledNames_sketch, deviceCalls_called hsketchText,
    names_of_handlers hhandlers, fun h _ => ⟨camelCase_mem_ownMembers, wrapperName_mem_ownMembers⟩,
    fun name hname => declaringClass?_eq_client_iff hhandlers hname⟩

end SerialContract.Firmware

namespace SerialContract.Bench

/-- Exchanges that are named like the start of the device and, but for an underscore, like a ping. -/
def begin : Exchange := ⟨"begin", none, [], []⟩

def ping : Exchange := ⟨"ping_", none, [], []⟩

def starting : ContractDeclaration := ⟨[begin.declaration, ping.declaration], none, none, none⟩

end SerialContract.Bench

namespace SerialContract.Firmware

theorem handlers_take_members_bench : ∃ handlers, Firmware.handlers Bench.contract = .ok handlers ∧
    (∀ h ∈ handlers, h.name ∉ ownMembers) ∧ declaringClass? (deviceClasses handlers) "begin" = some "Client" ∧
    declaringClass? (deviceClasses handlers) "respond" = some "Client" := by
  have hnames : ∀ e ∈ Bench.contract.exchanges, camelCase e.name ∉ ownMembers := by decide
  have hcalls : ∀ name ∈ deviceCalls, ∀ e ∈ Bench.contract.exchanges, tidySnakeCase e.name ≠ name := by decide
  obtain ⟨_, handlers, _, _, _, hhandlers, _, _, _, _, _, _, _, _, hall, _, hcalled⟩ :=
    handlers_take_members_iff Bench.load_declaration
  refine ⟨handlers, hhandlers, fun h hh => ?_, ?_, ?_⟩
  · have hname : h.name ∈ (Bench.contract.exchanges.map Exchange.name).map camelCase :=
      hall ▸ List.mem_map_of_mem hh
    simp only [List.mem_map, exists_exists_and_eq_and] at hname
    obtain ⟨e, he, heq⟩ := hname
    exact heq ▸ hnames e he
  · exact (hcalled "begin" (by decide)).2 (hcalls "begin" (by decide))
  · exact (hcalled "respond" (by decide)).2 (hcalls "respond" (by decide))

/-- The contract is loaded, a handler and a wrapper have the names of members, and the call that starts the device
leads to the handler. -/
theorem handler_hides_member : ∃ c handlers, Bench.starting.load = .ok c ∧ Firmware.handlers c = .ok handlers ∧
    handlers.map Handler.name = ["begin", "ping"] ∧ "begin" ∈ ownMembers ∧
    handlers.map Handler.wrapperName = ["beginWrapper", "pingWrapper"] ∧ "pingWrapper" ∈ ownMembers ∧
    declaringClass? (deviceClasses handlers) "begin" = some "Device" := by
  have hload : Bench.starting.load = .ok ⟨[Bench.begin, Bench.ping], .text, ⟨.usual, ""⟩, .standard⟩ := by
    decide
  exact ⟨_, _, hload, rfl, by decide, by decide, by decide, by decide, by decide⟩

end SerialContract.Firmware
