/-!
# Located characters

The characters of a YAML text, each with its place. A character that no text may hold stands at the
end, so that every reader finds a character to look at.
-/

namespace SerialContract.Yaml

/-- A place in a text: the characters in front of it, its line and its column. -/
structure Mark where
  index : Nat
  line : Nat
  column : Nat

/-- A character at its place. -/
structure Located where
  char : Char
  mark : Mark

/-- What is left of a text. -/
abbrev Source := List Located

/-- The character that stands for the end. -/
def endMarker : Char := '\x00'

/-- Whether a text may hold a character. -/
def isPrintable (c : Char) : Bool :=
  let n := c.toNat
  n == 0x09 || n == 0x0A || n == 0x0D || (0x20 ≤ n && n ≤ 0x7E) || n == 0x85 ||
    (0xA0 ≤ n && n ≤ 0xD7FF) || (0xE000 ≤ n && n ≤ 0xFFFD) || 0x10000 ≤ n

/-- Whether a character ends a line. -/
def isBreak (c : Char) : Bool :=
  c == '\r' || c == '\n' || c == '\u0085' || c == '\u2028' || c == '\u2029'

/-- Whether a character is a space or a tab. -/
def isSpace (c : Char) : Bool :=
  c == ' ' || c == '\t'

/-- Whether a character ends a line or the text. -/
def isLineEnd (c : Char) : Bool :=
  isBreak c || c == endMarker

/-- Whether a character ends a word. -/
def isWordEnd (c : Char) : Bool :=
  isSpace c || isLineEnd c

/-- Whether a character may stand in the name of an anchor, a handle or a directive. -/
def isNameChar (c : Char) : Bool :=
  c.isAlphanum || c == '_' || c == '-'

/-- The place behind a character. A carriage return in front of a line feed ends no line. -/
def Mark.after (m : Mark) (c : Char) (next : Option Char) : Mark :=
  if isBreak c && !(c == '\r' && next == some '\n') then ⟨m.index + 1, m.line + 1, 0⟩
  else ⟨m.index + 1, m.line, m.column + 1⟩

/-- The characters with their places, from a place on. -/
def locateFrom (m : Mark) : List Char → Source
  | [] => [⟨endMarker, m⟩]
  | c :: rest => ⟨c, m⟩ :: locateFrom (m.after c rest.head?) rest

/-- The source of a text, if it may hold all its characters. -/
def source? (text : String) : Option Source :=
  if text.toList.all isPrintable then some (locateFrom ⟨0, 0, 0⟩ text.toList) else none

namespace Source

/-- What is left behind the next character. -/
def tail (s : Source) : Source := List.tail s

/-- What is left some characters on. -/
def drop (s : Source) (n : Nat) : Source := List.drop n s

/-- The next character. -/
def char (s : Source) : Char :=
  (s.head?.map (·.char)).getD endMarker

/-- The character some places ahead. -/
def charAt (s : Source) (n : Nat) : Char :=
  (s[n]?.map (·.char)).getD endMarker

/-- The place of the next character. -/
def mark (s : Source) : Mark :=
  (s.head?.map (·.mark)).getD ⟨0, 0, 0⟩

/-- The column of the next character. -/
def column (s : Source) : Nat := s.mark.column

/-- The characters in front of the first that `stop` holds of. -/
def takeUntil (s : Source) (stop : Char → Bool) : List Char :=
  (s.takeWhile fun l => !stop l.char).map (·.char)

/-- What is left from the first character on that `stop` holds of. -/
def dropUntil (s : Source) (stop : Char → Bool) : Source :=
  s.dropWhile fun l => !stop l.char

/-- What is left behind a line break. -/
def dropBreak : Source → Source
  | [] => []
  | l :: rest =>
    if l.char == '\r' && char rest == '\n' then tail rest
    else if isBreak l.char then rest else l :: rest

/-- How a line break stands in a value: separators of lines and paragraphs stay, all others become
line feeds. -/
def breakText (s : Source) : List Char :=
  if s.char == '\u2028' || s.char == '\u2029' then [s.char]
  else if isBreak s.char then ['\n'] else []

/-- What is left behind a comment. -/
def dropComment (s : Source) : Source :=
  if s.char == '#' then s.dropUntil isLineEnd else s

/-- Whether a line starts with three times the character and a blank. -/
def startsMarkerOf (s : Source) (c : Char) : Bool :=
  s.column == 0 && s.char == c && s.charAt 1 == c && s.charAt 2 == c && isWordEnd (s.charAt 3)

/-- Whether a line starts with the marker of the start or of the end of a document. -/
def startsMarker (s : Source) : Bool :=
  s.startsMarkerOf '-' || s.startsMarkerOf '.'

end Source

end SerialContract.Yaml
