import SerialContract.Contract.FieldType
import SerialContract.Dialect.Dialect

/-!
# Generated files

A file that is generated from a contract, and what can keep it from being generated.
-/

namespace SerialContract

/-- A file: where it belongs, and what it holds. -/
structure SourceFile where
  path : List String
  contents : String
  deriving DecidableEq, Repr

namespace SourceFile

/-- The path as a text. -/
def pathText (file : SourceFile) : String :=
  "/".intercalate file.path

/-- The last part of the path. -/
def name (file : SourceFile) : String :=
  file.path.getLastD ""

end SourceFile

/-- What can keep files from being generated. -/
inductive SourceError where
  /-- A template that cannot be filled. -/
  | template (name : String) (fault : TemplateError)
  /-- A dialect with a rule that cannot be applied. -/
  | dialect (fault : TemplateError)
  /-- A type in use that has no name. -/
  | unmappedType (type : FieldType)
  deriving DecidableEq

/-- The text of an error, if it has one. -/
def SourceError.message? : SourceError → Option String
  | template name fault => fault.message?.map fun message => s!"template `{name}`: {message}"
  | dialect fault => fault.message?
  | unmappedType type => some ("type mapping has no entry for `" ++ type.name ++ "`")

/-- A template filled to become the contents of a file. -/
def fillSource (name template : String) (replacements : Template.Replacements) :
    Except SourceError String :=
  (Template.fill? template replacements).mapError (.template name)

end SerialContract
