import SerialContract.Proofs.Firmware.Methods
import SerialContract.Proofs.Source.Generation

/-!
# Methods of different exchanges

No two exchanges of a contract have the same snake case. The firmware's methods are named by the camel case, and
so they are different where camel case forgets no difference between the snake cases.
-/

namespace SerialContract.Firmware

/-- The methods of all exchanges stand in the files, those of one exchange below those of the one in front of it. -/
structure HoldsMethods (handlers : List Handler) (header source sketch : SourceFile) : Prop where
  declarations : (String.join (handlers.map Handler.declaration)).toList <:+: header.contents.toList
  wrapperDeclarations : (String.join (handlers.map Handler.wrapperDeclaration)).toList <:+: header.contents.toList
  branches : (String.join (handlers.map Handler.branch)).toList <:+: source.contents.toList
  wrappers : (String.join (handlers.map Handler.wrapper)).toList <:+: source.contents.toList
  overrides : ("\n".intercalate (handlers.map Handler.stub)).toList <:+: sketch.contents.toList

/-- The files declare, define and call methods that are named by the camel case of the exchanges. They are
different if and only if the snake cases are, up to the underscores that camel case forgets. If it forgets none,
they are different. -/
theorem method_names_nodup_iff {d : ContractDeclaration} {c : Contract} (hload : d.load = .ok c) :
    ∃ files handlers header source sketch, c.sources Target.cpp.dialect = .ok files ∧
      Firmware.handlers c = .ok handlers ∧ header ∈ files ∧ header.path = ["firmware", "client.h"] ∧
      source ∈ files ∧ source.path = ["firmware", "client.cpp"] ∧
      sketch ∈ files ∧ sketch.path = ["firmware", "firmware.ino"] ∧ HoldsMethods handlers header source sketch ∧
      handlers.map Handler.name = (c.exchanges.map Exchange.name).map camelCase ∧
      ((handlers.map Handler.name).Nodup ↔ (c.exchanges.map fun e => tidySnakeCase e.name).Nodup) ∧
      ((handlers.map Handler.wrapperName).Nodup ↔ (c.exchanges.map fun e => tidySnakeCase e.name).Nodup) ∧
      ((∀ e ∈ c.exchanges, Tidy e.name) → (c.exchanges.map fun e => tidySnakeCase e.name).Nodup) := by
  obtain ⟨files, handlers, hsources, hhandlers, hfilled⟩ := Contract.exists_plain_sources hload
  obtain ⟨header, hheader, hheaderPath, hheaderText⟩ :=
    hfilled ("client.h", Skeleton.clientHeader) (by simp [skeletons])
  obtain ⟨source, hsource, hsourcePath, hsourceText⟩ :=
    hfilled ("client.cpp", Skeleton.clientSource) (by simp [skeletons])
  obtain ⟨sketch, hsketch, hsketchPath, hsketchText⟩ :=
    hfilled ("firmware.ino", Skeleton.sketch) (by simp [skeletons])
  have hmethods : HoldsMethods handlers header source sketch :=
    ⟨infix_declarations hheaderText, infix_wrapperDeclarations hheaderText, infix_branches hsourceText,
      infix_wrappers hsourceText, infix_stubs hsketchText⟩
  have hnames := names_nodup_iff hhandlers
  exact ⟨files, handlers, header, source, sketch, hsources, hhandlers, hheader, hheaderPath, hsource, hsourcePath,
    hsketch, hsketchPath, hmethods, names_of_handlers hhandlers, hnames, wrapperNames_nodup_iff.trans hnames,
    tidySnakeCases_nodup hload⟩

end SerialContract.Firmware

namespace SerialContract.Bench

/-- Exchanges whose names differ by an underscore in front of a digit. -/
def led : Exchange := ⟨"led1", none, [], []⟩

def otherLed : Exchange := ⟨"led_1", none, [], []⟩

def leds : ContractDeclaration := ⟨[led.declaration, otherLed.declaration], none, none, none⟩

end SerialContract.Bench

namespace SerialContract.Firmware

theorem method_names_nodup_bench : (∀ e ∈ Bench.contract.exchanges, Tidy e.name) ∧
    ∃ handlers, Firmware.handlers Bench.contract = .ok handlers ∧
      handlers.map Handler.name = ["measure", "logRequest"] ∧ (handlers.map Handler.name).Nodup ∧
      (handlers.map Handler.wrapperName).Nodup := by
  have htidy : ∀ e ∈ Bench.contract.exchanges, Tidy e.name := by decide
  obtain ⟨_, handlers, _, _, _, _, hhandlers, _, _, _, _, _, _, _, hnames, hnodup, hwrappers, hall⟩ :=
    method_names_nodup_iff Bench.load_declaration
  refine ⟨htidy, handlers, hhandlers, ?_, hnodup.2 (hall htidy), hwrappers.2 (hall htidy)⟩
  rw [hnames]
  decide

/-- The contract is loaded, and both its exchanges have the same handler. -/
theorem method_names_collide : ∃ c handlers, Bench.leds.load = .ok c ∧ c.exchanges = [Bench.led, Bench.otherLed] ∧
    Firmware.handlers c = .ok handlers ∧ handlers.map Handler.name = ["led1", "led1"] ∧
    handlers.map Handler.declaration =
      ["    virtual void led1() const = 0;\n", "    virtual void led1() const = 0;\n"] ∧
    ¬ (handlers.map Handler.name).Nodup := by
  have hload : Bench.leds.load = .ok ⟨[Bench.led, Bench.otherLed], .text, ⟨.usual, ""⟩, .standard⟩ := by
    decide
  refine ⟨_, _, hload, rfl, rfl, ?_, ?_, ?_⟩
  · decide
  · decide
  · decide

end SerialContract.Firmware
