import SerialContract.Document.Yaml.Token
import SerialContract.NameMap

/-!
# YAML documents

The tokens of a text form one document: a tree of scalars, sequences and mappings. An alias stands
for the node that was anchored under its number; the number of an anchor is the count of different
names that were anchored before it.
-/

namespace SerialContract.Yaml

/-- The bytes of a tag. -/
abbrev Tag := List UInt8

/-- A node of a document. -/
inductive Node where
  | scalar (style : ScalarStyle) (tag : Option Tag) (text : String)
  | sequence (tag : Option Tag) (items : List Node)
  | mapping (tag : Option Tag) (entries : List (Node × Node))
  | alias (number : Nat)

namespace Node

/-- The node that stands where nothing is written. -/
def empty : Node := scalar .plain none ""

end Node

/-- The anchors of a document: the number that each name stands for now, and the anchored nodes. -/
structure Anchors where
  numbers : NameMap Nat
  nodes : List (Nat × Node)

namespace Anchors

/-- No anchors. -/
def none : Anchors := ⟨.empty, []⟩

/-- The number of a new anchor, under which no node stands yet. -/
def enter (a : Anchors) (name : String) : Nat × Anchors :=
  let number := a.numbers.entries.length
  (number, ⟨a.numbers.insert name number, a.nodes.filter (·.1 ≠ number)⟩)

/-- The anchors with a node that is now complete, unless a later one took its number. -/
def complete (a : Anchors) (number : Nat) (node : Node) : Anchors :=
  if (a.nodes.lookup number).isSome then a else { a with nodes := (number, node) :: a.nodes }

end Anchors

/-- What is left of the tokens, and the anchors so far. -/
structure Reading where
  tokens : List Token
  anchors : Anchors

/-- A step of reading, which may fail. -/
abbrev Reader := StateT Reading Option

namespace Reader

/-- The next token. -/
def peek : Reader (Option Token) := do return (← get).tokens.head?

/-- Passes over the next token. -/
def skip : Reader Unit := modify fun r => { r with tokens := r.tokens.tail }

/-- Whether the next token is one of the given ones; no token at all counts as none of them. -/
def isNext (options : List Token) : Reader Bool := do
  return (← peek).any options.contains

/-- What may stand in front of a node: an anchor and a tag in either order. -/
def properties : Reader (Option String × Option (String × Tag)) := do
  match ← peek with
  | some (.anchor name) =>
    skip
    match ← peek with
    | some (.tag handle suffix) => skip; return (some name, some (handle, suffix))
    | _ => return (some name, none)
  | some (.tag handle suffix) =>
    skip
    match ← peek with
    | some (.anchor name) => skip; return (some name, some (handle, suffix))
    | _ => return (none, some (handle, suffix))
  | _ => return (none, none)

/-- The full tag; a handle stands for its expansion. -/
def fullTag (handles : List (String × Tag)) : Option (String × Tag) → Reader (Option Tag)
  | none => return none
  | some (handle, suffix) =>
    if handle.isEmpty then return some suffix
    else
      match handles.lookup handle with
      | some expansion => return some (expansion ++ suffix)
      | none => failure

mutual

/-- A node. `block` admits blocks and `indentless` also a sequence that is not indented. -/
def node (handles : List (String × Tag)) (steps : Nat) (block indentless : Bool) : Reader Node :=
  match steps with
  | 0 => failure
  | steps + 1 => do
    match ← peek with
    | some (.alias name) =>
      skip
      match (← get).anchors.numbers.get? name with
      | some number => return .alias number
      | none => failure
    | _ =>
      let (anchor, short) ← properties
      let tag ← fullTag handles short
      match anchor with
      | none => content handles steps block indentless tag (tag.isSome)
      | some name =>
        let (number, anchors) := (← get).anchors.enter name
        modify ({ · with anchors })
        let result ← content handles steps block indentless tag true
        modify fun r => { r with anchors := r.anchors.complete number result }
        return result

/-- A node behind its anchor and tag; `marked` tells that there is one of them. -/
def content (handles : List (String × Tag)) (steps : Nat) (block indentless : Bool)
    (tag : Option Tag) (marked : Bool) : Reader Node :=
  match steps with
  | 0 => failure
  | steps + 1 => do
    match ← peek with
    | some .blockEntry =>
      if indentless then return .sequence tag (← looseItems handles steps)
      else if marked then return .scalar .plain tag ""
      else failure
    | some (.scalar style text) => skip; return .scalar style tag text
    | some .flowSequenceStart => skip; return .sequence tag (← flowItems handles steps true)
    | some .flowMappingStart => skip; return .mapping tag (← flowEntries handles steps true)
    | some .blockSequenceStart =>
      if block then skip; return .sequence tag (← blockItems handles steps)
      else if marked then return .scalar .plain tag ""
      else failure
    | some .blockMappingStart =>
      if block then skip; return .mapping tag (← blockEntries handles steps)
      else if marked then return .scalar .plain tag ""
      else failure
    | _ => if marked then return .scalar .plain tag "" else failure

/-- The items of a block sequence, up to its end. -/
def blockItems (handles : List (String × Tag)) (steps : Nat) : Reader (List Node) :=
  match steps with
  | 0 => failure
  | steps + 1 => do
    match ← peek with
    | some .blockEntry =>
      skip
      let item ← if ← isNext [.blockEntry, .blockEnd] then pure Node.empty
        else node handles steps true false
      return item :: (← blockItems handles steps)
    | some .blockEnd => skip; return []
    | _ => failure

/-- The items of a sequence that is not indented. -/
def looseItems (handles : List (String × Tag)) (steps : Nat) : Reader (List Node) :=
  match steps with
  | 0 => failure
  | steps + 1 => do
    match ← peek with
    | some .blockEntry =>
      skip
      let item ← if ← isNext [.blockEntry, .key, .value, .blockEnd] then pure Node.empty
        else node handles steps true false
      return item :: (← looseItems handles steps)
    | _ => return []

/-- The entries of a block mapping, up to its end. -/
def blockEntries (handles : List (String × Tag)) (steps : Nat) : Reader (List (Node × Node)) :=
  match steps with
  | 0 => failure
  | steps + 1 => do
    match ← peek with
    | some .key =>
      skip
      let name ← if ← isNext [.key, .value, .blockEnd] then pure Node.empty
        else node handles steps true true
      let value ← blockValue handles steps
      return (name, value) :: (← blockEntries handles steps)
    | some .blockEnd => skip; return []
    | _ => failure

/-- The value of an entry of a block mapping, which may be left out. -/
def blockValue (handles : List (String × Tag)) (steps : Nat) : Reader Node :=
  match steps with
  | 0 => failure
  | steps + 1 => do
    if ← isNext [.value] then
      skip
      if ← isNext [.key, .value, .blockEnd] then return Node.empty else node handles steps true true
    else return Node.empty

/-- The items of a sequence in brackets, up to the closing one. -/
def flowItems (handles : List (String × Tag)) (steps : Nat) (first : Bool) :
    Reader (List Node) :=
  match steps with
  | 0 => failure
  | steps + 1 => do
    if ← isNext [.flowSequenceEnd] then skip; return []
    else
      if !first then (if ← isNext [.flowEntry] then skip else failure)
      if ← isNext [.key] then
        skip
        let entry ← flowPair handles steps
        return .mapping none [entry] :: (← flowItems handles steps false)
      else if ← isNext [.flowSequenceEnd] then skip; return []
      else
        let item ← node handles steps false false
        return item :: (← flowItems handles steps false)

/-- The only entry of a mapping that stands in a sequence without brackets of its own. A value right
behind the mark of the key is passed over together with its mark. -/
def flowPair (handles : List (String × Tag)) (steps : Nat) : Reader (Node × Node) :=
  match steps with
  | 0 => failure
  | steps + 1 => do
    let name ← if ← isNext [.value, .flowEntry, .flowSequenceEnd] then skip; pure Node.empty
      else node handles steps false false
    if ← isNext [.value] then
      skip
      if ← isNext [.flowEntry, .flowSequenceEnd] then return (name, Node.empty)
      else return (name, ← node handles steps false false)
    else return (name, Node.empty)

/-- The entries of a mapping in brackets, up to the closing one. -/
def flowEntries (handles : List (String × Tag)) (steps : Nat) (first : Bool) :
    Reader (List (Node × Node)) :=
  match steps with
  | 0 => failure
  | steps + 1 => do
    if ← isNext [.flowMappingEnd] then skip; return []
    else
      if !first then (if ← isNext [.flowEntry] then skip else failure)
      if ← isNext [.key] then
        skip
        let name ← if ← isNext [.value, .flowEntry, .flowMappingEnd] then pure Node.empty
          else node handles steps false false
        let value ← flowValue handles steps
        return (name, value) :: (← flowEntries handles steps false)
      else if ← isNext [.flowMappingEnd] then skip; return []
      else
        let name ← node handles steps false false
        return (name, Node.empty) :: (← flowEntries handles steps false)

/-- The value of an entry of a mapping in brackets, which may be left out. -/
def flowValue (handles : List (String × Tag)) (steps : Nat) : Reader Node :=
  match steps with
  | 0 => failure
  | steps + 1 => do
    if ← isNext [.value] then
      skip
      if ← isNext [.flowEntry, .flowMappingEnd] then return Node.empty
      else node handles steps false false
    else return Node.empty

end

end Reader

/-- The handles that every document knows. -/
def standardHandles : List (String × Tag) :=
  [("!", utf8 ['!']), ("!!", utf8 "tag:yaml.org,2002:".toList)]

/-- The handles that directives declare, behind `seen`, and the tokens behind the directives. -/
def readDirectives (versioned : Bool) (seen : List (String × Tag)) :
    List Token → Option (List (String × Tag) × List Token)
  | .version major minor :: rest =>
    if versioned || major ≠ 1 || !(minor == 1 || minor == 2) then none
    else readDirectives true seen rest
  | .handle name expansion :: rest =>
    if (seen.lookup name).isSome then none
    else readDirectives versioned (seen ++ [(name, expansion)]) rest
  | rest => some (seen, rest)

/-- A document: its root and its anchored nodes. -/
structure Document where
  root : Node
  nodes : List (Nat × Node)

namespace Document

/-- The document without content. -/
def empty : Document := ⟨.empty, []⟩

/-- The document whose root starts the tokens; only marks of its end may follow. -/
def ofContent? (handles : List (String × Tag)) (tokens : List Token) : Option Document := do
  let steps := 4 * tokens.length + 4
  let (root, left) ← (Reader.node handles steps true false).run ⟨tokens, .none⟩
  if left.tokens.all (· == .documentEnd) then some ⟨root, left.anchors.nodes⟩ else none

/-- The one document of the tokens. -/
def ofTokens? (tokens : List Token) : Option Document := do
  match tokens with
  | [] => some empty
  | first :: _ =>
    let (handles, rest) ← readDirectives false [] tokens
    match rest with
    | .documentStart :: body =>
      match body with
      | [] => some empty
      | .documentEnd :: more => if more.all (· == .documentEnd) then some empty else none
      | _ => ofContent? (handles ++ standardHandles) body
    | _ =>
      match first with
      | .version .. | .handle .. => none
      | _ => ofContent? standardHandles tokens

mutual

/-- How many parts a node is written with: one for a scalar or an alias, and two for brackets. -/
def parts : Node → Nat
  | .sequence _ items => partsOfItems items + 2
  | .mapping _ entries => partsOfEntries entries + 2
  | _ => 1

/-- How many parts the items of a sequence are written with. -/
def partsOfItems : List Node → Nat
  | [] => 0
  | item :: rest => parts item + partsOfItems rest

/-- How many parts the entries of a mapping are written with. -/
def partsOfEntries : List (Node × Node) → Nat
  | [] => 0
  | (name, value) :: rest => parts name + parts value + partsOfEntries rest

end

/-- How many more aliases may be followed after all of a node is seen, down to some depth, if `budget`
aliases may be followed in all. -/
def follow (doc : Document) (depth budget : Nat) (node : Node) : Option Nat :=
  match depth with
  | 0 => some budget
  | depth + 1 =>
    match node with
    | .scalar .. => some budget
    | .sequence _ items => items.foldlM (doc.follow depth) budget
    | .mapping _ entries =>
      entries.foldlM (fun budget (name, value) => do
        doc.follow depth (← doc.follow depth budget name) value) budget
    | .alias number =>
      match doc.nodes.lookup number, budget with
      | some target, budget + 1 => doc.follow depth budget target
      | some _, 0 => none
      | none, _ => some budget

/-- The node that a node stands for. -/
def resolve (doc : Document) : Node → Option Node
  | .alias number => doc.nodes.lookup number
  | node => some node

end Document

/-- The document that a text writes. -/
def parse? (text : String) : Option Document := do
  Document.ofTokens? (← tokens? text)

end SerialContract.Yaml
