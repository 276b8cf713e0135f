import SerialContract.Dialect.Search

/-!
# Rules

A rule replaces every match of a pattern by a template filled with what the pattern captured. Not every
pair of templates is a rule: a pattern names a placeholder once, and a replacement names no others.
-/

namespace SerialContract

open Template (Part)

/-- Why a pair of templates is no rule, or a template cannot be filled. -/
inductive TemplateError where
  /-- Placeholders of a template that nothing replaces. -/
  | missingReplacements (names : List String)
  /-- A placeholder that a pattern names twice. -/
  | repeatedPlaceholder (name template : String)
  /-- A placeholder of a pattern whose name starts with a digit or the like. -/
  | unusableName
  /-- A pattern that takes more memory than is granted. -/
  | tooLarge
  deriving DecidableEq, Repr

/-- The text of an error, if it has one. -/
def TemplateError.message? : TemplateError → Option String
  | missingReplacements names => some ("replacements missing variable(s): " ++ ", ".intercalate names)
  | repeatedPlaceholder name template =>
    some s!"placeholder `{name}` appears more than once in match template `{template}`"
  | unusableName | tooLarge => none

/-- A template with all its placeholders replaced. -/
def Template.fill? (template : String) (replacements : Template.Replacements) :
    Except TemplateError String :=
  (Template.populate template replacements).mapError .missingReplacements

/-- A pattern and what replaces its matches. -/
structure Rule where
  pattern : String
  replacement : String
  deriving DecidableEq, Repr

/-- The first of the names that has been named before, by `earlier` or in the list. -/
def firstRepeated? (earlier : List String) : List String → Option String
  | [] => none
  | name :: rest =>
    if name ∈ earlier then some name else firstRepeated? (name :: earlier) rest

/-- Whether a placeholder of this name can capture: the name starts with a letter or `_`. -/
def isCaptureName (name : String) : Bool :=
  match name.toList with
  | [] => false
  | c :: _ => isAlphabetic c || c == '_'

/-- How many bytes a pattern takes when it is made ready: every byte of it is a state of its own, and
every placeholder repeats the states of the whole class of captured characters. -/
def Template.footprint (parts : List Part) : Nat :=
  parts.foldl (fun bytes part => match part with
    | .plain c => bytes + 32 * c.utf8Size
    | .placeholder _ => bytes + 50116) 144

/-- How many bytes a pattern may take. -/
def footprintLimit : Nat := 10 * 1024 * 1024

/-- A rule ready to apply: the parts of its pattern and of its replacement. -/
structure CompiledRule where
  pattern : List Part
  replacement : List Part
  deriving DecidableEq, Repr

namespace Rule

/-- What keeps a rule from being applied. -/
def fault? (rule : Rule) : Option TemplateError :=
  let captured := Template.names rule.pattern
  match firstRepeated? [] captured with
  | some name => some (.repeatedPlaceholder name rule.pattern)
  | none =>
    match Template.missing captured.contains (Template.names rule.replacement) with
    | [] =>
      if !captured.all isCaptureName then some .unusableName
      else if footprintLimit < Template.footprint (Template.parts rule.pattern) then some .tooLarge
      else none
    | lacking => some (.missingReplacements lacking)

/-- A rule made ready. -/
def compile (rule : Rule) : Except TemplateError CompiledRule :=
  match rule.fault? with
  | some fault => .error fault
  | none => .ok ⟨Template.parts rule.pattern, Template.parts rule.replacement⟩

end Rule

namespace CompiledRule

/-- What a stretch of a text becomes, unless the replacement has a placeholder that captures nothing. -/
def replaced (rule : CompiledRule) : Pattern.Stretch → Except TemplateError (List Char)
  | .kept c => .ok [c]
  | .found m =>
    (Template.populateParts (NameMap.ofList m.captures) rule.replacement).mapError .missingReplacements

/-- A text with every match of the rule replaced. -/
def apply (rule : CompiledRule) (text : String) : Except TemplateError String := do
  let pieces ← (Pattern.search rule.pattern text.toList).mapM rule.replaced
  return String.ofList pieces.flatten

/-- Applies rules in order, each to the whole text before the next. -/
def applyAll (rules : List CompiledRule) (text : String) : Except TemplateError String :=
  rules.foldlM (fun text rule => rule.apply text) text

end CompiledRule

/-- A text with every match of a single rule replaced. -/
def Rule.apply (rule : Rule) (text : String) : Except TemplateError String := do
  (← rule.compile).apply text

end SerialContract
