import SerialContract.Document.Yaml.Source
import SerialContract.Number.Digits
import SerialContract.Text.Cut

/-!
# YAML scalars

Reading plain, quoted and block scalars. Every reader returns the text of the scalar and what is
left behind it, or nothing if the scalar breaks a rule. A reader goes at most `steps` steps, and needs
no more of them than there are characters.
-/

namespace SerialContract.Yaml

/-- How a scalar is written. -/
inductive ScalarStyle where
  | plain
  | singleQuoted
  | doubleQuoted
  | literal
  | folded
  deriving DecidableEq

/-- What stands between two words: blanks, or line breaks, of which the first is held apart. -/
structure Gap where
  broke : Bool
  blanks : List Char
  first : List Char
  others : List Char

namespace Gap

/-- No gap. -/
def none : Gap := ⟨false, [], [], []⟩

/-- The gap of an escaped line break. -/
def escaped : Gap := ⟨true, [], [], []⟩

/-- What a gap becomes in a value: a single line break becomes a space, and of several line breaks
the first is left out. -/
def folded (g : Gap) : List Char :=
  if !g.broke then g.blanks
  else if g.first == ['\n'] then (if g.others.isEmpty then [' '] else g.others)
  else g.first ++ g.others

/-- The gap with one more blank, which counts only on the line of the word before. -/
def addBlank (g : Gap) (c : Char) : Gap :=
  if g.broke then g else { g with blanks := g.blanks ++ [c] }

/-- The gap with one more line break. -/
def addBreak (g : Gap) (text : List Char) : Gap :=
  if g.broke then { g with others := g.others ++ text } else ⟨true, [], text, g.others⟩

end Gap

/-- The gap at the front, and the rest. A tab within the indentation of a continued plain scalar is
refused; `indent` is the column at which such a scalar goes on, if it is one. -/
def readGap (steps : Nat) (indent : Option Int) (g : Gap) (s : Source) : Option (Gap × Source) :=
  match steps with
  | 0 => some (g, s)
  | steps + 1 =>
    if isSpace s.char then
      if g.broke && s.char == '\t' && indent.any (fun i => (s.column : Int) < i) then Option.none
      else readGap steps indent (g.addBlank s.char) s.tail
    else if isBreak s.char then readGap steps indent (g.addBreak s.breakText) s.dropBreak
    else some (g, s)

/-! ## Plain scalars -/

/-- The characters that end a plain scalar inside brackets. -/
def isFlowEnd (c : Char) : Bool :=
  c == ',' || c == '[' || c == ']' || c == '{' || c == '}'

/-- A word of a plain scalar, and the rest. -/
def readPlainWord (inFlow : Bool) : Source → Option (List Char × Source)
  | [] => some ([], [])
  | l :: rest =>
    if isWordEnd l.char then some ([], l :: rest)
    else if inFlow && l.char == ':' && (isFlowEnd (Source.char rest) || Source.char rest == '?') then Option.none
    else if (l.char == ':' && isWordEnd (Source.char rest)) || (inFlow && isFlowEnd l.char) then
      some ([], l :: rest)
    else (readPlainWord inFlow rest).map fun (word, after) => (l.char :: word, after)

/-- A plain scalar behind the gap `g`, whether a line break follows it, and the rest. -/
def readPlain (steps : Nat) (inFlow : Bool) (indent : Int) (g : Gap) (s : Source) :
    Option (List Char × Bool × Source) :=
  match steps with
  | 0 => some ([], g.broke, s)
  | steps + 1 =>
    if s.startsMarker || s.char == '#' then some ([], g.broke, s)
    else do
      let (word, rest) ← readPlainWord inFlow s
      if word.isEmpty then some ([], g.broke, rest)
      else
        let front := g.folded ++ word
        if !isSpace rest.char && !isBreak rest.char then some (front, false, rest)
        else
          let (next, after) ← readGap (steps + 1) (some indent) .none rest
          if !inFlow && (after.column : Int) < indent then some (front, next.broke, after)
          else
            let (more, broke, left) ← readPlain steps inFlow indent next after
            some (front ++ more, broke, left)

/-! ## Quoted scalars -/

/-- The characters of the escapes with one letter. -/
def simpleEscapes : List (Char × Char) := [
  ('0', '\x00'), ('a', '\x07'), ('b', '\x08'), ('t', '\t'), ('\t', '\t'), ('n', '\n'),
  ('v', '\x0b'), ('f', '\x0c'), ('r', '\r'), ('e', '\x1b'), (' ', ' '), ('"', '"'), ('/', '/'),
  ('\\', '\\'), ('N', '\u0085'), ('_', '\u00a0'), ('L', '\u2028'), ('P', '\u2029')]

/-- How many digits follow the letter of an escape of a code point. -/
def escapeWidths : List (Char × Nat) := [('x', 2), ('u', 4), ('U', 8)]

/-- The character of an escape behind its backslash, and the rest. -/
def readEscape (s : Source) : Option (Char × Source) :=
  match simpleEscapes.lookup s.char, escapeWidths.lookup s.char with
  | some c, _ => some (c, s.tail)
  | Option.none, some width => do
    let n ← readDigits 16 ((s.tail.take width).map (·.char))
    if n.isValidChar then some (Char.ofNat n, s.tail.drop width) else Option.none
  | Option.none, Option.none => Option.none

/-- A run of characters within quotes up to a blank, a line break or the closing quote, the gap
that an escaped line break starts, and the rest. -/
def readQuotedWord (steps : Nat) (single : Bool) (s : Source) : Option (List Char × Gap × Source) :=
  match steps with
  | 0 => some ([], .none, s)
  | steps + 1 =>
    if isWordEnd s.char then some ([], .none, s)
    else if single then
      if s.char == '\x27' then
        if s.charAt 1 == '\x27' then do
          let (word, g, rest) ← readQuotedWord steps single (s.drop 2)
          some ('\x27' :: word, g, rest)
        else some ([], .none, s)
      else do
        let (word, g, rest) ← readQuotedWord steps single s.tail
        some (s.char :: word, g, rest)
    else if s.char == '"' then some ([], .none, s)
    else if s.char == '\\' then
      if isBreak (s.charAt 1) then some ([], .escaped, s.tail.dropBreak)
      else do
        let (c, rest) ← readEscape s.tail
        let (word, g, rest) ← readQuotedWord steps single rest
        some (c :: word, g, rest)
    else do
      let (word, g, rest) ← readQuotedWord steps single s.tail
      some (s.char :: word, g, rest)

/-- A quoted scalar from behind its opening quote, and the rest behind its closing one. -/
def readQuoted (steps : Nat) (single : Bool) (s : Source) : Option (List Char × Source) :=
  match steps with
  | 0 => Option.none
  | steps + 1 =>
    if s.startsMarker || s.char == endMarker then Option.none
    else do
      let (word, g, rest) ← readQuotedWord (steps + 1) single s
      if rest.char == (if single then '\x27' else '"') then some (word, rest.tail)
      else
        let (g, rest) ← readGap (steps + 1) Option.none g rest
        let (more, left) ← readQuoted steps single rest
        some (word ++ g.folded ++ more, left)

/-! ## Block scalars -/

/-- What becomes of the line breaks at the end of a block scalar. -/
inductive Chomping where
  | strip
  | clip
  | keep
  deriving DecidableEq

/-- The chomping that a sign asks for. -/
def Chomping.of? : Char → Option Chomping
  | '-' => some strip
  | '+' => some keep
  | _ => Option.none

/-- The head of a block scalar behind its indicator: chomping and depth in either order. -/
def readBlockHead (s : Source) : Option (Chomping × Nat × Source) :=
  let depthOf (s : Source) : Option (Nat × Source) :=
    if s.char == '0' then Option.none
    else if s.char.isDigit then some (s.char.toNat - '0'.toNat, s.tail) else some (0, s)
  match Chomping.of? s.char with
  | some chomping => (depthOf s.tail).map fun (depth, rest) => (chomping, depth, rest)
  | Option.none => do
    let (depth, rest) ← depthOf s
    if depth = 0 then some (.clip, 0, rest)
    else
      match Chomping.of? rest.char with
      | some chomping => some (chomping, depth, rest.tail)
      | Option.none => some (.clip, depth, rest)

/-- The line breaks and the indentation in front of the next line of a block scalar: the widest
indentation, the breaks and the rest. An `indent` of zero is not yet known. -/
def readIndentation (steps : Nat) (indent widest : Nat) (breaks : List Char) (s : Source) :
    Option (Nat × List Char × Source) :=
  match steps with
  | 0 => some (widest, breaks, s)
  | steps + 1 =>
    if (indent == 0 || s.column < indent) && s.char == ' ' then
      readIndentation steps indent widest breaks s.tail
    else if (indent == 0 || s.column < indent) && s.char == '\t' then Option.none
    else if isBreak s.char then
      readIndentation steps indent (max widest s.column) (breaks ++ s.breakText) s.dropBreak
    else some (max widest s.column, breaks, s)

/-- The lines of a block scalar from a line on. `pending` is the break at the end of the line
before, `breaks` are the empty lines after it, and `wasBlank` tells whether that line started with a
blank. Behind the text come the last break and the empty lines after it. -/
def readLines (steps : Nat) (literal : Bool) (indent : Nat) (wasBlank : Bool)
    (pending breaks : List Char) (s : Source) :
    Option (List Char × List Char × List Char × Source) :=
  match steps with
  | 0 => some ([], pending, breaks, s)
  | steps + 1 =>
    if s.column == indent && s.char != endMarker then do
      let isBlank := isSpace s.char
      let joined :=
        if !literal && pending == ['\n'] && !wasBlank && !isBlank then
          (if breaks.isEmpty then [' '] else []) ++ breaks
        else pending ++ breaks
      let line := s.takeUntil isLineEnd
      let rest := s.dropUntil isLineEnd
      let (_, more, next) ← readIndentation (steps + 1) indent 0 [] rest.dropBreak
      let (text, last, left, after) ← readLines steps literal indent isBlank rest.breakText more next
      some (joined ++ line ++ text, last, left, after)
    else some ([], pending, breaks, s)

/-- A block scalar from its indicator on, inside the indentation `outer`, and the rest. -/
def readBlock (steps : Nat) (literal : Bool) (outer : Int) (s : Source) :
    Option (List Char × Source) := do
  let (chomping, depth, rest) ← readBlockHead s.tail
  let rest := (rest.dropUntil fun c => !isSpace c).dropComment
  if !isLineEnd rest.char then Option.none
  else
    let body := rest.dropBreak
    let known := if depth = 0 then 0 else (max outer 0).toNat + depth
    let (widest, breaks, first) ← readIndentation steps known 0 [] body
    let indent := if known = 0 then max (max widest (outer + 1).toNat) 1 else known
    let (text, last, left, after) ← readLines steps literal indent false [] breaks first
    let tail := match chomping with
      | .strip => []
      | .clip => last
      | .keep => last ++ left
    some (text ++ tail, after)

end SerialContract.Yaml
