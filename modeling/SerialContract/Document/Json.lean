import SerialContract.Number.Digits

/-!
# JSON texts

A JSON text is cut into tokens, and a stack of unfinished arrays and objects turns the tokens into a
value. Members of an object keep their order and may repeat a name. Of numbers only those written as
plain digits are told apart, because nothing that is read from a document takes any other.
-/

namespace SerialContract

/-- A JSON value. -/
inductive JsonValue where
  | null
  | bool (b : Bool)
  | whole (n : Nat)
  | otherNumber
  | string (s : String)
  | array (items : List JsonValue)
  | object (members : List (String × JsonValue))

namespace JsonValue

/-- The pieces of a JSON text between which blanks may stand. -/
inductive Token where
  | openArray
  | closeArray
  | openObject
  | closeObject
  | comma
  | colon
  | string (s : String)
  | literal (v : JsonValue)

/-- The characters that may stand between tokens. -/
def isGap (c : Char) : Bool :=
  c == ' ' || c == '\n' || c == '\t' || c == '\r'

/-- The character of a code point, unless that is a surrogate. -/
def charOf? (n : Nat) : Option Char :=
  if h : n.isValidChar then some (Char.ofNatAux n h) else none

/-- The number written by four digits of base sixteen, and the rest. -/
def fourDigits? : List Char → Option (Nat × List Char)
  | a :: b :: c :: d :: rest => (readDigits 16 [a, b, c, d]).map (·, rest)
  | _ => none

/-- The rest of a `\u` escape: four digits, and the other half of a surrogate pair. -/
def readCodePoint (text : List Char) : Option (Char × List Char) :=
  match fourDigits? text with
  | none => none
  | some (high, rest) =>
    if 0xD800 ≤ high ∧ high < 0xDC00 then
      match rest with
      | '\\' :: 'u' :: more =>
        match fourDigits? more with
        | some (low, rest) =>
          if 0xDC00 ≤ low ∧ low < 0xE000 then
            (charOf? (0x10000 + (high - 0xD800) * 0x400 + (low - 0xDC00))).map (·, rest)
          else none
        | none => none
      | _ => none
    else (charOf? high).map (·, rest)

/-- The character that an escape stands for, from what follows the backslash. -/
def readEscape : List Char → Option (Char × List Char)
  | '"' :: rest => some ('"', rest)
  | '\\' :: rest => some ('\\', rest)
  | '/' :: rest => some ('/', rest)
  | 'b' :: rest => some ('\x08', rest)
  | 'f' :: rest => some ('\x0c', rest)
  | 'n' :: rest => some ('\n', rest)
  | 'r' :: rest => some ('\r', rest)
  | 't' :: rest => some ('\t', rest)
  | 'u' :: rest => readCodePoint rest
  | _ => none

theorem fourDigits?_length {text rest : List Char} {n : Nat}
    (h : fourDigits? text = some (n, rest)) : rest.length < text.length := by
  unfold fourDigits? at h
  split at h
  · simp only [Option.map_eq_some_iff, Prod.mk.injEq] at h
    obtain ⟨_, _, _, rfl⟩ := h
    simp only [List.length_cons]
    omega
  · cases h

theorem readCodePoint_length {text rest : List Char} {c : Char}
    (h : readCodePoint text = some (c, rest)) : rest.length < text.length := by
  unfold readCodePoint at h
  split at h
  · cases h
  · next high after first =>
    have shorter := fourDigits?_length first
    split at h
    · split at h
      · next more =>
        split at h
        · next low rest' second =>
          have shorter' := fourDigits?_length second
          simp only [List.length_cons] at shorter
          split at h
          · simp only [Option.map_eq_some_iff, Prod.mk.injEq] at h
            obtain ⟨_, _, _, rfl⟩ := h
            omega
          · cases h
        · cases h
      · cases h
    · simp only [Option.map_eq_some_iff, Prod.mk.injEq] at h
      obtain ⟨_, _, _, rfl⟩ := h
      exact shorter

theorem readEscape_length {text rest : List Char} {c : Char}
    (h : readEscape text = some (c, rest)) : rest.length < text.length := by
  unfold readEscape at h
  split at h
  case h_9 =>
    have := readCodePoint_length h
    simp only [List.length_cons]
    omega
  all_goals first
    | (cases h; done)
    | (cases h; simp)

/-- A string from behind its opening quote, and the rest behind its closing one. -/
def readText : List Char → Option (List Char × List Char)
  | [] => none
  | c :: rest =>
    if c = '"' then some ([], rest)
    else if c = '\\' then
      match _ : readEscape rest with
      | some (d, after) => (readText after).map fun (s, tail) => (d :: s, tail)
      | none => none
    else if c.toNat < 0x20 then none
    else (readText rest).map fun (s, tail) => (c :: s, tail)
termination_by text => text.length
decreasing_by
  · have := readEscape_length ‹_›
    simp only [List.length_cons]
    omega
  · simp

/-- The digits in front of the point: a zero alone, or digits that start with another. -/
def readWhole : List Char → Option (List Char × List Char)
  | [] => none
  | c :: rest =>
    if c = '0' then some (['0'], rest)
    else if c.isDigit then some (c :: rest.takeWhile Char.isDigit, rest.dropWhile Char.isDigit)
    else none

/-- Whether a fraction follows, and what follows after it. -/
def readFraction : List Char → Option (Bool × List Char)
  | '.' :: rest =>
    if (rest.takeWhile Char.isDigit).isEmpty then none else some (true, rest.dropWhile Char.isDigit)
  | rest => some (false, rest)

/-- Whether a power of ten follows, and what follows after it. -/
def readPowerOfTen : List Char → Option (Bool × List Char)
  | [] => some (false, [])
  | c :: rest =>
    if c = 'e' ∨ c = 'E' then
      let digits := (splitSign rest).2
      if (digits.takeWhile Char.isDigit).isEmpty then none
      else some (true, digits.dropWhile Char.isDigit)
    else some (false, c :: rest)

/-- A number, and the rest. -/
def readNumber (text : List Char) : Option (JsonValue × List Char) := do
  let negative := text.head? = some '-'
  let (digits, rest) ← readWhole (if negative then text.tail else text)
  let (fraction, rest) ← readFraction rest
  let (power, rest) ← readPowerOfTen rest
  if negative || fraction || power then some (otherNumber, rest)
  else (readDigits 10 digits).map fun n => (whole n, rest)

/-- The words of the format. -/
def words : List (String × JsonValue) := [("null", null), ("true", bool true), ("false", bool false)]

/-- The first token of a text that starts with one, and the rest. -/
def readToken : List Char → Option (Token × List Char)
  | '[' :: rest => some (.openArray, rest)
  | ']' :: rest => some (.closeArray, rest)
  | '{' :: rest => some (.openObject, rest)
  | '}' :: rest => some (.closeObject, rest)
  | ',' :: rest => some (.comma, rest)
  | ':' :: rest => some (.colon, rest)
  | '"' :: rest => (readText rest).map fun (s, tail) => (.string (String.ofList s), tail)
  | text =>
    match words.findSome? fun (word, v) => (word.toList.isPrefixOf? text).map (v, ·) with
    | some (v, rest) => some (.literal v, rest)
    | none => (readNumber text).map fun (v, rest) => (.literal v, rest)

/-- The tokens of a text, found in at most `steps` steps. -/
def tokensIn (steps : Nat) (text : List Char) : Option (List Token) :=
  match steps, text with
  | _, [] => some []
  | 0, _ => none
  | steps + 1, c :: rest =>
    if isGap c then tokensIn steps rest
    else
      match readToken (c :: rest) with
      | some (token, rest) => (tokensIn steps rest).map (token :: ·)
      | none => none

/-- The tokens of a text; every step takes a character at least. -/
def tokens? (text : List Char) : Option (List Token) :=
  tokensIn text.length text

/-- An array or object that is not yet finished, with what it holds so far, the last first. -/
inductive Unfinished where
  | array (items : List JsonValue)
  | object (members : List (String × JsonValue)) (name : String)

mutual

/-- The value of the tokens, which go on with a value, inside the unfinished ones. -/
def buildValue (outer : List Unfinished) : List Token → Option JsonValue
  | .openArray :: .closeArray :: rest => buildAfter (array []) outer rest
  | .openArray :: rest => buildValue (.array [] :: outer) rest
  | .openObject :: .closeObject :: rest => buildAfter (object []) outer rest
  | .openObject :: .string name :: .colon :: rest => buildValue (.object [] name :: outer) rest
  | .string s :: rest => buildAfter (string s) outer rest
  | .literal v :: rest => buildAfter v outer rest
  | _ => none

/-- The value of the tokens, which go on behind the value `v`, inside the unfinished ones. -/
def buildAfter (v : JsonValue) (outer : List Unfinished) : List Token → Option JsonValue
  | [] => if outer.isEmpty then some v else none
  | token :: rest =>
    match outer, token, rest with
    | .array items :: outer, .comma, rest => buildValue (.array (v :: items) :: outer) rest
    | .array items :: outer, .closeArray, rest =>
      buildAfter (array (v :: items).reverse) outer rest
    | .object members name :: outer, .comma, .string next :: .colon :: rest =>
      buildValue (.object ((name, v) :: members) next :: outer) rest
    | .object members name :: outer, .closeObject, rest =>
      buildAfter (object ((name, v) :: members).reverse) outer rest
    | _, _, _ => none

end

/-- The value that a text writes. -/
def parse? (text : String) : Option JsonValue :=
  match tokens? text.toList with
  | some tokens => buildValue [] tokens
  | none => none

end JsonValue

end SerialContract
