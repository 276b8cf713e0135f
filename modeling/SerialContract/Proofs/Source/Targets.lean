import SerialContract.Proofs.Firmware.Programs
import SerialContract.Proofs.Source.Generation

/-!
# What the targets have in common

With the types that a contract has by default, the firmware for Arduino boards differs from that in plain C++ in two
words: the directive that includes strings and the name of their type. Both are replaced as whole tokens outside of
literals, so that whatever the contract names, on the wire and in the program, has the same name for both targets.
-/

namespace SerialContract

namespace Firmware

theorem handles_of_load {d : ContractDeclaration} {c : Contract} (hload : d.load = .ok c) {handlers : List Handler}
    (hhandlers : Firmware.handlers c = .ok handlers) :
    ∀ h ∈ handlers, ∃ e : Exchange, e.Valid ∧ Handles c.typeMapping e h := by
  intro h hh
  obtain ⟨e, he, hok⟩ := exists_left_of_forall₂ (mapM_eq_ok_iff.1 hhandlers) hh
  exact ⟨e, (ContractDeclaration.validExchanges_of_load hload).each e he, handles_of_ofExchange hok⟩

end Firmware

namespace Contract

/-- With the types that a contract has by default, the firmware for Arduino boards is that in plain C++ with every
directive that includes strings replaced, and then every name of their type. The literals stay the same, and the
tokens but for those of the replaced words. -/
theorem sources_arduino_replaced {d : ContractDeclaration} {c : Contract} (hload : d.load = .ok c)
    (hmapping : c.typeMapping = .standard) :
    ∃ plain turned, c.sources Target.cpp.dialect = .ok plain ∧ c.sources Target.arduino.dialect = .ok turned ∧
      turned.map SourceFile.path = plain.map SourceFile.path ∧ (plain.map SourceFile.path).Nodup ∧
      ∀ name ∈ ["client.h", "client.cpp", "firmware.ino"], ∃ before after : String,
        ⟨["firmware", name], before⟩ ∈ plain ∧ ⟨["firmware", name], after⟩ ∈ turned ∧
        after.toList = replaceEvery "std::string".toList "String".toList
          (replaceEvery "#include <string>".toList "#include <WString.h>".toList before.toList) ∧
        literals after.toList = literals before.toList ∧
        tokens after.toList = replaceEvery (tokens "std::string".toList) (tokens "String".toList)
          (replaceEvery (tokens "#include <string>".toList) (tokens "#include <WString.h>".toList)
            (tokens before.toList)) := by
  have hcompile : Target.cpp.dialect.compile = .ok ⟨"cpp", []⟩ := rfl
  obtain ⟨plain, handlers, hplain, hpaths, hhandlers, hmade⟩ := exists_made_sources hload hcompile
  obtain ⟨turned, others, hturned, hturnedPaths, hothers, hturnedMade⟩ :=
    exists_made_sources hload Target.compile_arduino
  obtain rfl : handlers = others := Except.ok.inj (hhandlers.symm.trans hothers)
  have hnodup : (plain.map SourceFile.path).Nodup := by
    rw [hpaths]
    decide
  refine ⟨plain, turned, hplain, hturned, hturnedPaths.trans hpaths.symm, hnodup, fun name hname => ?_⟩
  obtain ⟨skeleton, hskeleton, rfl⟩ : ∃ skeleton ∈ Firmware.programs, skeleton.1 = name := List.mem_map.1 hname
  have hmem : skeleton ∈ Firmware.skeletons := List.mem_of_mem_drop hskeleton
  obtain ⟨⟨path, before⟩, hbefore, filled, hfilled, happly, rfl⟩ := hmade skeleton hmem
  cases happly
  obtain ⟨⟨path, after⟩, hafter, again, hagain, happly, rfl⟩ := hturnedMade skeleton hmem
  obtain rfl : before = again := Except.ok.inj (hfilled.symm.trans hagain)
  have hvalid := Firmware.handles_of_load hload hhandlers
  rw [hmapping] at hvalid
  have hportable := Firmware.portable_of_populate hvalid hskeleton hfilled
  have hrewritten : after.toList = Target.typeReplaced (Target.includeReplaced before.toList) := by
    have happlied := CompiledRule.applyAll_eq Target.closed_of_mem_readyRules before
    obtain rfl := Except.ok.inj (happlied.symm.trans happly)
    rw [String.toList_ofList, Target.rewriteAll_readyRules hportable.uncalled]
  refine ⟨before, after, hbefore, hafter, ?_, ?_, ?_⟩
  · exact hrewritten
  · rw [hrewritten]
    exact hportable.type.literals_eq.trans hportable.directive.literals_eq
  · have hdirective := congrArg (replaceEvery (tokens Target.stringType) (tokens Target.boardType))
      hportable.directive.tokens_eq
    rw [hrewritten]
    exact hportable.type.tokens_eq.trans hdirective

theorem sources_arduino_replaced_bench : Bench.contract.typeMapping = .standard ∧ ∃ plain turned,
    Bench.contract.sources Target.cpp.dialect = .ok plain ∧ Bench.contract.sources Target.arduino.dialect = .ok turned ∧
      ∃ before after : String, ⟨["firmware", "client.cpp"], before⟩ ∈ plain ∧
        ⟨["firmware", "client.cpp"], after⟩ ∈ turned ∧
        after.toList = replaceEvery "std::string".toList "String".toList
          (replaceEvery "#include <string>".toList "#include <WString.h>".toList before.toList) ∧
        literals after.toList = literals before.toList := by
  have hmapping : Bench.contract.typeMapping = .standard := rfl
  obtain ⟨plain, turned, hplain, hturned, _, _, hfiles⟩ := sources_arduino_replaced Bench.load_declaration hmapping
  obtain ⟨before, after, hbefore, hafter, hreplaced, hliterals, _⟩ := hfiles "client.cpp" (by decide)
  exact ⟨hmapping, plain, turned, hplain, hturned, before, after, hbefore, hafter, hreplaced, hliterals⟩

end Contract

end SerialContract
