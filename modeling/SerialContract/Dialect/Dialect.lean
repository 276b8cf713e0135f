import SerialContract.Document.Reading
import SerialContract.Dialect.Rule

/-!
# Dialects

Firmware is written in plain C++ and then turned into what the toolchain of a board understands. A
dialect is the list of rules that does so; the dialects of the known boards are called targets.
-/

namespace SerialContract

/-- A named list of rules, applied in order. -/
structure Dialect where
  name : String
  rules : List Rule
  deriving DecidableEq, Repr

/-- A dialect whose rules are ready to apply. -/
structure CompiledDialect where
  name : String
  rules : List CompiledRule
  deriving DecidableEq, Repr

/-- A dialect made ready; the first rule that cannot be says why. -/
def Dialect.compile (dialect : Dialect) : Except TemplateError CompiledDialect :=
  (dialect.rules.mapM Rule.compile).map fun rules => ⟨dialect.name, rules⟩

/-- A text turned into a dialect. -/
def CompiledDialect.apply (dialect : CompiledDialect) (text : String) : Except TemplateError String :=
  CompiledRule.applyAll dialect.rules text

/-! ## Targets -/

/-- The boards with dialects of their own. -/
inductive Target where
  | arduino
  | cpp
  deriving DecidableEq, Repr

namespace Target

/-- What a target is called. -/
def name : Target → String
  | arduino => "arduino"
  | cpp => "cpp"

/-- The rules from plain C++ to what Arduino boards have in place of it. -/
def arduinoRules : List Rule := [
  ⟨"#include <string>", "#include <WString.h>"⟩,
  ⟨"std::stoi(\x7b\x7bexpr\x7d\x7d)", "\x7b\x7bexpr\x7d\x7d.toInt()"⟩,
  ⟨"std::stod(\x7b\x7bexpr\x7d\x7d)", "\x7b\x7bexpr\x7d\x7d.toDouble()"⟩,
  ⟨"std::stof(\x7b\x7bexpr\x7d\x7d)", "\x7b\x7bexpr\x7d\x7d.toFloat()"⟩,
  ⟨"std::string", "String"⟩,
  ⟨".substr(\x7b\x7bexpr1\x7d\x7d, \x7b\x7bexpr2\x7d\x7d)",
    ".substring(\x7b\x7bexpr1\x7d\x7d, \x7b\x7bexpr1\x7d\x7d + \x7b\x7bexpr2\x7d\x7d)"⟩,
  ⟨".substr(\x7b\x7bexpr\x7d\x7d)", ".substring(\x7b\x7bexpr\x7d\x7d)"⟩,
  ⟨".find(", ".indexOf("⟩]

/-- The dialect of a target. Plain C++ is left as it is. -/
def dialect (target : Target) : Dialect :=
  match target with
  | arduino => ⟨target.name, arduinoRules⟩
  | cpp => ⟨target.name, []⟩

/-- The target that a word names, in small or capital letters, or else the word in small letters. -/
def ofWord (word : String) : Except String Target :=
  let lowered := word.map Char.toLower
  if lowered = "arduino" then .ok arduino
  else if lowered = "cpp" ∨ lowered = "c++" then .ok cpp
  else .error lowered

/-- What is said of a word in small letters that names no target. -/
def unknownMessage (word : String) : String :=
  s!"unknown target `{word}`, expected arduino or cpp"

end Target

/-! ## Dialects in documents -/

namespace Outline

variable {Node : Type} (o : Outline Node)

/-- A rule. -/
def rule? (node : Node) : Option Rule := do
  let members ← o.record? ["match", "replace"] node
  let pattern ← member? members "match" o.text?
  let replacement ← member? members "replace" o.text?
  some ⟨pattern, replacement⟩

/-- A dialect. -/
def dialect? (node : Node) : Option Dialect := do
  let members ← o.record? ["name", "rules"] node
  let name ← member? members "name" o.text?
  let rules ← memberD? members "rules" [] (o.list? o.rule?)
  some ⟨name, rules⟩

end Outline

/-- The dialect that a YAML text declares. -/
def Dialect.ofYaml? (text : String) : Option Dialect :=
  Yaml.read? Outline.dialect? text

end SerialContract
