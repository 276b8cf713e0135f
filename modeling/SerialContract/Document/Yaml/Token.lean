import SerialContract.Document.Yaml.Scalar

/-!
# YAML tokens

A text is cut into tokens. Block structure is found from the columns at which tokens stand, so some
tokens have no characters of their own: the start and the end of a block, and the start of a key,
which is known only once a colon follows it and is then put in front of what the key is made of.
-/

namespace SerialContract.Yaml

/-- The pieces of a text. -/
inductive Token where
  | version (major minor : Nat)
  | handle (name : String) (expansion : List UInt8)
  | documentStart
  | documentEnd
  | blockSequenceStart
  | blockMappingStart
  | blockEnd
  | flowSequenceStart
  | flowSequenceEnd
  | flowMappingStart
  | flowMappingEnd
  | blockEntry
  | flowEntry
  | key
  | value
  | alias (name : String)
  | anchor (name : String)
  | tag (handle : String) (suffix : List UInt8)
  | scalar (style : ScalarStyle) (text : String)
  deriving DecidableEq

/-- A token that may turn out to start a key: its place, how many tokens are in front of it, and
whether it must be a key because of its column. -/
structure Candidate where
  required : Bool
  position : Nat
  mark : Mark

/-- The state of the cutting: the number of characters of the whole text, what is left of it, the tokens
so far with the last first and their number, the open brackets with the candidate of each level with
the innermost first, the columns of the open blocks, and whether a key may start here. -/
structure Scan where
  size : Nat
  rest : Source
  tokens : List Token
  count : Nat
  flow : Nat
  candidates : List (Option Candidate)
  indent : Int
  outer : List Int
  keyAllowed : Bool

namespace Scan

/-- The state in front of a text. -/
def start (s : Source) : Scan := ⟨s.length, s, [], 0, 0, [none], -1, [], true⟩

/-- The state with one more token. -/
def emit (s : Scan) (t : Token) : Scan :=
  { s with tokens := t :: s.tokens, count := s.count + 1 }

/-- The state with a token in front of the later ones, `position` tokens being earlier. -/
def emitAt (s : Scan) (position : Nat) (t : Token) : Scan :=
  let later := s.count - position
  { s with tokens := s.tokens.take later ++ t :: s.tokens.drop later, count := s.count + 1 }

/-- The state some characters on. -/
def skip (s : Scan) (n : Nat) : Scan := { s with rest := s.rest.drop n }

/-- The column of the next character. -/
def column (s : Scan) : Int := s.rest.column

/-- The blocks that are left, the innermost apart, when those further right than a column are closed,
and how many are closed. -/
def popBlocks (column indent : Int) (closed : Nat) (outer : List Int) : Int × List Int × Nat :=
  if column < indent then
    match outer with
    | [] => (indent, [], closed)
    | next :: more => popBlocks column next (closed + 1) more
  else (indent, outer, closed)

/-- The state after closing the blocks that stand further right than a column. -/
def closeBlocks (s : Scan) (column : Int) : Scan :=
  if s.flow ≠ 0 then s
  else
    let (indent, outer, closed) := popBlocks column s.indent 0 s.outer
    { s with
      indent, outer
      tokens := List.replicate closed .blockEnd ++ s.tokens, count := s.count + closed }

/-- The state after opening a block at a column, unless one is open there already. The token of the
block comes after `position` tokens, or last. -/
def openBlock (s : Scan) (column : Int) (position : Option Nat) (t : Token) : Scan :=
  if s.flow = 0 ∧ s.indent < column then
    let opened := { s with indent := column, outer := s.indent :: s.outer }
    match position with
    | some p => opened.emitAt p t
    | none => opened.emit t
  else s

/-- The state without a candidate at this level, unless there is one that must be a key. -/
def dropCandidate (s : Scan) : Option Scan :=
  match s.candidates with
  | some c :: more => if c.required then none else some { s with candidates := none :: more }
  | _ => some s

/-- The state with the next token as a candidate, if a key may start here. -/
def saveCandidate (s : Scan) : Option Scan :=
  if s.keyAllowed then do
    let required := s.flow == 0 && s.indent == s.column
    let s ← s.dropCandidate
    some { s with candidates := some ⟨required, s.count, s.rest.mark⟩ :: s.candidates.tail }
  else some s

/-- Whether a candidate is on an earlier line or too far back to start a key. -/
def isStale (here : Mark) (c : Candidate) : Bool :=
  c.mark.line < here.line || c.mark.index + 1024 < here.index

/-- The state without the candidate at this level if that is stale, unless it must be a key. -/
def dropStale (s : Scan) : Option Scan :=
  if s.candidates.head?.join.any (isStale s.rest.mark) then s.dropCandidate else some s

/-- The state behind blanks, comments and line breaks. -/
def skipGap (steps : Nat) (s : Scan) : Scan :=
  match steps with
  | 0 => s
  | steps + 1 =>
    let rest := if s.rest.column == 0 && s.rest.char == '\ufeff' then s.rest.tail else s.rest
    let tabs := s.flow ≠ 0 || !s.keyAllowed
    let rest := rest.dropUntil fun c => !(c == ' ' || (tabs && c == '\t'))
    let rest := rest.dropComment
    if isBreak rest.char then
      skipGap steps { s with rest := rest.dropBreak, keyAllowed := s.keyAllowed || s.flow == 0 }
    else { s with rest }

/-! ## Directives, anchors and tags -/

/-- Whether a character may stand in a tag. -/
def isTagChar (verbatim : Bool) (c : Char) : Bool :=
  isNameChar c || [';', '/', '?', ':', '@', '&', '=', '+', '$', '.', '!', '~', '*', '\x27', '(',
    ')', '%'].contains c || (verbatim && [',', '[', ']'].contains c)

/-- The byte of an escape, a percent sign and two digits, and the rest. -/
def readOctet (s : Source) : Option (UInt8 × Source) :=
  if s.char == '%' then
    (readDigits 16 [s.charAt 1, s.charAt 2]).map fun n => (UInt8.ofNat n, s.drop 3)
  else none

/-- Some escapes whose bytes each continue a character, and the rest. -/
def readContinuation (count : Nat) (s : Source) : Option (List UInt8 × Source) :=
  match count with
  | 0 => some ([], s)
  | count + 1 => do
    let (octet, rest) ← readOctet s
    if octet / 64 = 2 then
      let (more, rest) ← readContinuation count rest
      some (octet :: more, rest)
    else none

/-- The bytes of a character that is written as escapes, and the rest. The first byte tells how many
bytes there are; which character they make up does not matter. -/
def readEscapedChar (s : Source) : Option (List UInt8 × Source) := do
  let (octet, rest) ← readOctet s
  let count ←
    if octet < 0x80 then some 0
    else if octet / 32 = 6 then some 1
    else if octet / 16 = 14 then some 2
    else if octet / 8 = 30 then some 3
    else none
  let (more, rest) ← readContinuation count rest
  some (octet :: more, rest)

/-- The bytes of a tag, and the rest. -/
def readTagBytes (steps : Nat) (verbatim : Bool) (s : Source) : Option (List UInt8 × Source) :=
  match steps with
  | 0 => some ([], s)
  | steps + 1 =>
    if !isTagChar verbatim s.char then some ([], s)
    else do
      let (bytes, rest) ← if s.char == '%' then readEscapedChar s else some (utf8 [s.char], s.tail)
      let (more, rest) ← readTagBytes steps verbatim rest
      some (bytes ++ more, rest)

/-- The bytes that count in a tag: it ends in front of the first zero. -/
def beforeZero (bytes : List UInt8) : List UInt8 :=
  bytes.takeWhile (· != 0)

/-- A name between exclamation marks, of which the second may be missing, and the rest. -/
def readHandle (s : Source) : Option (List Char × Source) :=
  if s.char != '!' then none
  else
    let name := s.tail.takeUntil (!isNameChar ·)
    let rest := s.tail.dropUntil (!isNameChar ·)
    if rest.char == '!' then some ('!' :: name ++ ['!'], rest.tail) else some ('!' :: name, rest)

/-- A tag, and the rest. -/
def readTag (steps : Nat) (inFlow : Bool) (s : Source) : Option (Token × Source) := do
  let (token, rest) ←
    if s.charAt 1 == '<' then do
      let (bytes, rest) ← readTagBytes steps true (s.drop 2)
      if bytes.isEmpty || rest.char != '>' then none
      else some (Token.tag "" (beforeZero bytes), rest.tail)
    else do
      let (handle, rest) ← readHandle s
      if 2 ≤ handle.length ∧ handle.getLast? = some '!' then
        let (bytes, rest) ← readTagBytes steps false rest
        if bytes.isEmpty then none
        else some (Token.tag (String.ofList handle) (beforeZero bytes), rest)
      else
        let (bytes, rest) ← readTagBytes steps false rest
        let suffix := beforeZero (utf8 handle.tail ++ bytes)
        if suffix.isEmpty then some (Token.tag "" (utf8 ['!']), rest)
        else some (Token.tag "!" suffix, rest)
  if isWordEnd rest.char || (inFlow && rest.char == ',') then some (token, rest) else none

/-- A name behind its indicator, which a blank or a closing indicator must follow, and the rest. -/
def readAnchor (s : Source) : Option (String × Source) :=
  let name := s.tail.takeUntil (!isNameChar ·)
  let rest := s.tail.dropUntil (!isNameChar ·)
  if name.isEmpty then none
  else if isWordEnd rest.char || ['?', ':', ',', ']', '}', '%', '@', '\x60'].contains rest.char then
    some (String.ofList name, rest)
  else none

/-- A run of at most nine digits, and the rest. -/
def readVersionNumber (s : Source) : Option (Nat × Source) :=
  let digits := s.takeUntil (!Char.isDigit ·)
  if 9 < digits.length then none
  else (readDigits 10 digits).map (·, s.dropUntil (!Char.isDigit ·))

/-- What is left behind blanks. -/
def dropSpaces (s : Source) : Source := s.dropUntil fun c => !isSpace c

/-- A directive from its indicator on, and the rest behind its line. -/
def readDirective (steps : Nat) (s : Source) : Option (Token × Source) := do
  let name := s.tail.takeUntil (!isNameChar ·)
  let rest := s.tail.dropUntil (!isNameChar ·)
  if name.isEmpty || !isWordEnd rest.char then none
  else
    let body := dropSpaces rest
    let (token, rest) ←
      if name = "YAML".toList then do
        let (major, rest) ← readVersionNumber body
        if rest.char != '.' then none
        else
          let (minor, rest) ← readVersionNumber rest.tail
          some (Token.version major minor, rest)
      else if name = "TAG".toList then do
        let (handle, rest) ← readHandle body
        if handle.getLast? ≠ some '!' ∨ !isSpace rest.char then none
        else
          let (bytes, rest) ← readTagBytes steps true (dropSpaces rest)
          if bytes.isEmpty || !isWordEnd rest.char then none
          else some (Token.handle (String.ofList handle) (beforeZero bytes), rest)
      else none
    let rest := (dropSpaces rest).dropComment
    if isLineEnd rest.char then some (token, rest.dropBreak) else none

/-! ## One token after another -/

/-- The state behind a token without a text, which ends the document or its start. -/
def scanMarker (s : Scan) (t : Token) : Option Scan := do
  let s ← (s.closeBlocks (-1)).dropCandidate
  some (({ s with keyAllowed := false }.skip 3).emit t)

/-- The state behind a directive. -/
def scanDirective (s : Scan) : Option Scan := do
  let s ← (s.closeBlocks (-1)).dropCandidate
  let (t, rest) ← readDirective s.size s.rest
  some ({ s with keyAllowed := false, rest }.emit t)

/-- The state behind an opening bracket. -/
def scanOpening (s : Scan) (t : Token) : Option Scan := do
  let s ← s.saveCandidate
  some (({ s with
    candidates := none :: s.candidates, flow := s.flow + 1, keyAllowed := true }.skip 1).emit t)

/-- The state behind a closing bracket. -/
def scanClosing (s : Scan) (t : Token) : Option Scan := do
  let s ← s.dropCandidate
  let s := if s.flow = 0 then s else { s with candidates := s.candidates.tail, flow := s.flow - 1 }
  some (({ s with keyAllowed := false }.skip 1).emit t)

/-- The state behind a comma between brackets. -/
def scanFlowEntry (s : Scan) : Option Scan := do
  let s ← s.dropCandidate
  some (({ s with keyAllowed := true }.skip 1).emit .flowEntry)

/-- The state behind the dash of an entry. -/
def scanBlockEntry (s : Scan) : Option Scan := do
  if s.flow = 0 ∧ !s.keyAllowed then none
  else
    let s ← (s.openBlock s.column none .blockSequenceStart).dropCandidate
    some (({ s with keyAllowed := true }.skip 1).emit .blockEntry)

/-- The state behind the question mark of a key. -/
def scanKey (s : Scan) : Option Scan := do
  if s.flow = 0 ∧ !s.keyAllowed then none
  else
    let s ← (s.openBlock s.column none .blockMappingStart).dropCandidate
    some (({ s with keyAllowed := s.flow == 0 }.skip 1).emit .key)

/-- The state behind the colon of a value. A candidate turns out to be the start of a key. -/
def scanValue (s : Scan) : Option Scan :=
  match s.candidates with
  | some c :: more =>
    let keyed := (s.emitAt c.position .key).openBlock c.mark.column (some c.position)
      .blockMappingStart
    some (({ keyed with candidates := none :: more, keyAllowed := false }.skip 1).emit .value)
  | _ =>
    if s.flow = 0 ∧ !s.keyAllowed then none
    else
      let s := s.openBlock s.column none .blockMappingStart
      some (({ s with keyAllowed := s.flow == 0 }.skip 1).emit .value)

/-- The state behind an anchor or an alias. -/
def scanAnchor (s : Scan) (token : String → Token) : Option Scan := do
  let s ← s.saveCandidate
  let (name, rest) ← readAnchor s.rest
  some ({ s with keyAllowed := false, rest }.emit (token name))

/-- The state behind a tag. -/
def scanTag (s : Scan) : Option Scan := do
  let s ← s.saveCandidate
  let (t, rest) ← readTag s.size (s.flow ≠ 0) s.rest
  some ({ s with keyAllowed := false, rest }.emit t)

/-- The state behind a block scalar. -/
def scanBlock (s : Scan) (literal : Bool) : Option Scan := do
  let s ← s.dropCandidate
  let (text, rest) ← readBlock s.size literal s.indent s.rest
  let style := if literal then ScalarStyle.literal else .folded
  some ({ s with keyAllowed := true, rest }.emit (.scalar style (String.ofList text)))

/-- The state behind a quoted scalar. -/
def scanQuoted (s : Scan) (single : Bool) : Option Scan := do
  let s ← s.saveCandidate
  let (text, rest) ← readQuoted s.size single s.rest.tail
  let style := if single then ScalarStyle.singleQuoted else .doubleQuoted
  some ({ s with keyAllowed := false, rest }.emit (.scalar style (String.ofList text)))

/-- The state behind a plain scalar; behind one that a line break follows a key may start. -/
def scanPlain (s : Scan) : Option Scan := do
  let s ← s.saveCandidate
  let (text, broke, rest) ← readPlain s.size (s.flow ≠ 0) (s.indent + 1) .none s.rest
  some ({ s with keyAllowed := broke, rest }.emit (.scalar .plain (String.ofList text)))

/-- The characters that have a meaning at the start of a token. -/
def indicators : List Char :=
  ['-', '?', ':', ',', '[', ']', '{', '}', '#', '&', '*', '!', '|', '>', '\x27', '"', '%', '@',
    '\x60']

/-- Whether a plain scalar starts here. -/
def startsPlain (s : Scan) : Bool :=
  let c := s.rest.char
  !(isWordEnd c || indicators.contains c) || (c == '-' && !isSpace (s.rest.charAt 1)) ||
    (s.flow == 0 && (c == '?' || c == ':') && !isWordEnd (s.rest.charAt 1))

/-- The state behind the token that starts here. -/
def scanToken (s : Scan) : Option Scan :=
  let c := s.rest.char
  let inFlow := s.flow ≠ 0
  let standsAlone := isWordEnd (s.rest.charAt 1)
  if s.rest.column == 0 && c == '%' then s.scanDirective
  else if s.rest.startsMarkerOf '-' then s.scanMarker .documentStart
  else if s.rest.startsMarkerOf '.' then s.scanMarker .documentEnd
  else if c == '[' then s.scanOpening .flowSequenceStart
  else if c == '{' then s.scanOpening .flowMappingStart
  else if c == ']' then s.scanClosing .flowSequenceEnd
  else if c == '}' then s.scanClosing .flowMappingEnd
  else if c == ',' then s.scanFlowEntry
  else if c == '-' && standsAlone then s.scanBlockEntry
  else if c == '?' && (inFlow || standsAlone) then s.scanKey
  else if c == ':' && (inFlow || standsAlone) then s.scanValue
  else if c == '*' then s.scanAnchor .alias
  else if c == '&' then s.scanAnchor .anchor
  else if c == '!' then s.scanTag
  else if c == '|' && !inFlow then s.scanBlock true
  else if c == '>' && !inFlow then s.scanBlock false
  else if c == '\x27' then s.scanQuoted true
  else if c == '"' then s.scanQuoted false
  else if s.startsPlain then s.scanPlain
  else none

/-- The tokens up to the end of the text. -/
def scanAll (steps : Nat) (s : Scan) : Option (List Token) := do
  let s ← (s.skipGap s.size).dropStale
  let s := s.closeBlocks s.column
  if s.rest.char == endMarker then
    let s ← (s.closeBlocks (-1)).dropCandidate
    some s.tokens.reverse
  else
    match steps with
    | 0 => none
    | steps + 1 => scanAll steps (← s.scanToken)

end Scan

/-- The tokens of a text. -/
def tokens? (text : String) : Option (List Token) := do
  let s ← source? text
  Scan.scanAll s.length (Scan.start s)

end SerialContract.Yaml
