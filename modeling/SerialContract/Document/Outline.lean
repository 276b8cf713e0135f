import SerialContract.Document.Json
import SerialContract.Document.Yaml.Node

/-!
# Outlines of documents

Contracts and dialects are read from documents of two formats. An outline says what a node of a
format offers to its reader: a text, a whole number, one word of several, a list, the members of a
record, the entries of a table, or its absence.
-/

namespace SerialContract

/-- What the nodes of a format offer. Every question may be refused by a node. -/
structure Outline (Node : Type) where
  /-- The text of a node. -/
  text? : Node → Option String
  /-- The whole number of a node. -/
  whole? : Node → Option Nat
  /-- The word that a node chooses. -/
  choice? : Node → Option String
  /-- The node itself, or nothing if it stands for something left out. -/
  present? : Node → Option (Option Node)
  /-- The items of a list. -/
  items? : Node → Option (List Node)
  /-- The named members of a record with members of the given names. -/
  members? : List String → Node → Option (List (String × Node))
  /-- The entries of a table that words lead to. -/
  entries? : Node → Option (List (String × Node))

/-! ## JSON -/

namespace JsonValue

/-- The string of a value. -/
def text? : JsonValue → Option String
  | string s => some s
  | _ => none

/-- The whole number of a value. -/
def whole? : JsonValue → Option Nat
  | whole n => some n
  | _ => none

/-- A string chooses a word, and so does an object whose only member leads from the word to null. -/
def choice? : JsonValue → Option String
  | string s => some s
  | object [(word, null)] => some word
  | _ => none

/-- Null stands for something left out. -/
def present? : JsonValue → Option (Option JsonValue)
  | null => some none
  | v => some (some v)

/-- The items of an array. -/
def items? : JsonValue → Option (List JsonValue)
  | array items => some items
  | _ => none

/-- The members of an object, or the items of an array in the order of the names. -/
def members? (names : List String) : JsonValue → Option (List (String × JsonValue))
  | object members => some members
  | array items => if items.length ≤ names.length then some (names.zip items) else none
  | _ => none

/-- The members of an object. -/
def entries? : JsonValue → Option (List (String × JsonValue))
  | object members => some members
  | _ => none

/-- What a JSON value offers. -/
def outline : Outline JsonValue := ⟨text?, whole?, choice?, present?, items?, members?, entries?⟩

end JsonValue

/-! ## YAML -/

namespace Yaml

/-- The words that stand for nothing. -/
def nullWords : List String := ["~", "null", "Null", "NULL"]

/-- The tag of what stands for nothing. -/
def nullTag : Tag := utf8 "tag:yaml.org,2002:null".toList

/-- The tag of a whole number. -/
def wholeTag : Tag := utf8 "tag:yaml.org,2002:int".toList

/-- The word of a tag of the document's own, which stands behind an exclamation mark or is one. -/
def Tag.word? : Tag → Option String
  | mark :: rest =>
    if utf8 ['!'] = [mark] then
      String.fromUTF8? ⟨(if rest.isEmpty then [mark] else rest).toArray⟩
    else none
  | [] => none

/-- A whole number: decimal without a zero in front, or marked as of base sixteen, eight or two; a
plus may stand in front of it. -/
def readWhole (text : List Char) : Option Nat :=
  match (match text with | '+' :: rest => rest | _ => text) with
  | '0' :: 'x' :: digits => readDigits 16 digits
  | '0' :: 'o' :: digits => readDigits 8 digits
  | '0' :: 'b' :: digits => readDigits 2 digits
  | '0' :: c :: rest => if (c :: rest).all Char.isDigit then none else readDigits 10 ('0' :: c :: rest)
  | digits => readDigits 10 digits

namespace Document

variable (doc : Document)

/-- A scalar, however it is written, is a text. -/
def text? (node : Node) : Option String :=
  match doc.resolve node with
  | some (.scalar _ _ text) => some text
  | _ => none

/-- A plain scalar can be a whole number, and so can a literal one with the tag of whole numbers. -/
def whole? (node : Node) : Option Nat :=
  match doc.resolve node with
  | some (.scalar style tag text) =>
    if style = .plain ∨ (style = .literal ∧ tag = some wholeTag) then readWhole text.toList else none
  | _ => none

/-- A tag of the document's own chooses its word, if nothing follows it; otherwise a text does. -/
def choice? (node : Node) : Option String :=
  match doc.resolve node with
  | some (.scalar style tag text) =>
    match tag.bind Tag.word? with
    | some word => if style = .plain ∧ (text.isEmpty ∨ text ∈ nullWords) then some word else none
    | none => some text
  | _ => none

/-- A plain scalar without a tag stands for something left out if it is empty or a word for nothing;
with the tag of such words only a word may follow. -/
def present? (node : Node) : Option (Option Node) :=
  match doc.resolve node with
  | some (.scalar .plain none text) =>
    if text.isEmpty ∨ text ∈ nullWords then some none else some (some node)
  | some (.scalar .plain (some tag) text) =>
    if tag = nullTag then (if text ∈ nullWords then some none else none) else some (some node)
  | some _ => some (some node)
  | none => none

/-- The items of a sequence; an empty plain scalar is a sequence without items. -/
def items? (node : Node) : Option (List Node) :=
  match doc.resolve node with
  | some (.sequence _ items) => some items
  | some (.scalar .plain _ "") => some []
  | _ => none

/-- The entries of a mapping, named as `name?` says; an empty plain scalar is a mapping without
entries. -/
def named? (name? : Node → Option String) (node : Node) : Option (List (String × Node)) :=
  match doc.resolve node with
  | some (.mapping _ entries) => entries.mapM fun (key, value) => (name? key).map (·, value)
  | some (.scalar .plain _ "") => some []
  | _ => none

/-- What a YAML node offers. -/
def outline : Outline Node where
  text? := doc.text?
  whole? := doc.whole?
  choice? := doc.choice?
  present? := doc.present?
  items? := doc.items?
  members? := fun _ => doc.named? doc.text?
  entries? := doc.named? doc.choice?

/-- How deep the nodes of a contract or a dialect are nested at most. -/
def greatestDepth : Nat := 32

/-- Whether no more aliases are followed than the document may repeat itself. -/
def repeatsLittle : Bool :=
  (doc.follow greatestDepth (100 * parts doc.root) doc.root).isSome

end Document

end Yaml

end SerialContract
