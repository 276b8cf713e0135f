import SerialContract.Template.Part

/-!
# Patterns

A template is also a pattern: its characters match themselves, and a placeholder captures an expression,
which is one or more characters of words, operators, parentheses and blanks. A text is searched from
left to right, and a placeholder captures as much as it can. `stretches` cuts a text into what is kept
and what is matched.
-/

namespace SerialContract

open Template (Part)

/-- Whether a character may be part of a captured expression. -/
def isExpressionChar (c : Char) : Bool :=
  isWordChar c || ['+', '-', '*', '/', '(', ')', ' '].contains c

/-- The class of the captured characters as a regular expression. -/
def expressionClass : String := "[\\w+\\-*/() ]+"

/-- An item of a class of characters in a regular expression: all characters of words, or one character. -/
inductive ClassItem where
  | word
  | char (c : Char)
  deriving DecidableEq, Repr

/-- Whether an item stands for a character. -/
def ClassItem.holds : ClassItem → Char → Bool
  | word, c => isWordChar c
  | char d, c => c == d

/-- The items between the brackets of a class. A character behind a backslash stands for itself, but a `w` for all
characters of words; ranges are not read. -/
def classItems : List Char → List ClassItem
  | '\\' :: 'w' :: rest => .word :: classItems rest
  | '\\' :: c :: rest => .char c :: classItems rest
  | c :: rest => .char c :: classItems rest
  | [] => []

/-- An expression is one or more characters of the class. -/
theorem exists_classItems : ∃ items : List Char, expressionClass.toList = '[' :: items ++ [']', '+'] ∧
    ∀ c, isExpressionChar c = (classItems items).any (·.holds c) := by
  refine ⟨['\\', 'w', '+', '\\', '-', '*', '/', '(', ')', ' '], rfl, fun c => ?_⟩
  rw [Bool.eq_iff_iff]
  simp [isExpressionChar, classItems, ClassItem.holds]

/-- The longest expression in front of a text after which `next` succeeds. -/
def capture {α : Type} (next : List Char → Option α) : List Char → Option (List Char × α)
  | [] => none
  | c :: rest =>
    if isExpressionChar c then
      match capture next rest with
      | some (expression, result) => some (c :: expression, result)
      | none => (next rest).map fun result => ([c], result)
    else none

theorem capture_eq_some {α : Type} {next : List Char → Option α} {text expression : List Char}
    {result : α} (h : capture next text = some (expression, result)) :
    expression ≠ [] ∧ expression.all isExpressionChar ∧
      ∃ rest, text = expression ++ rest ∧ next rest = some result := by
  induction text generalizing expression with
  | nil => simp [capture] at h
  | cons c rest ih =>
    rw [capture] at h
    split at h
    · next expressive =>
      split at h
      · next longer =>
        cases h
        obtain ⟨_, all, after, rfl, ends⟩ := ih longer
        exact ⟨by simp, by simpa [expressive] using all, after, rfl, ends⟩
      · obtain ⟨_, ends, h⟩ := Option.map_eq_some_iff.1 h
        cases h
        exact ⟨by simp, by simpa using expressive, rest, rfl, ends⟩
    · cases h

namespace Pattern

/-- The expressions that the placeholders among the parts capture at the front of a text. -/
def matchAt : List Part → List Char → Option (List (List Char))
  | [], _ => some []
  | .plain _ :: _, [] => none
  | .plain c :: parts, d :: rest => if c = d then matchAt parts rest else none
  | .placeholder _ :: parts, text =>
    (capture (matchAt parts) text).map fun (expression, more) => expression :: more

/-- The text that the parts match when their placeholders capture these expressions. -/
def written : List Part → List (List Char) → List Char
  | .plain c :: parts, expressions => c :: written parts expressions
  | .placeholder _ :: parts, expression :: more => expression ++ written parts more
  | _, _ => []

theorem prefix_of_matchAt {parts : List Part} {text : List Char} {expressions : List (List Char)}
    (h : matchAt parts text = some expressions) : written parts expressions <+: text := by
  induction parts generalizing text expressions with
  | nil => exact List.nil_prefix
  | cons part parts ih =>
    cases part with
    | plain c =>
      cases text with
      | nil => cases h
      | cons d rest =>
        rw [matchAt] at h
        split at h
        · next same => exact same ▸ List.cons_prefix_cons.2 ⟨rfl, ih h⟩
        · cases h
    | placeholder name =>
      rw [matchAt] at h
      obtain ⟨⟨expression, more⟩, inner, rfl⟩ := Option.map_eq_some_iff.1 h
      obtain ⟨_, _, rest, rfl, ends⟩ := capture_eq_some inner
      exact (List.prefix_append_right_inj expression).2 (ih ends)

/-- A text that a pattern matches and what its placeholders capture of it. -/
structure Match where
  text : List Char
  captures : List (String × String)
  deriving DecidableEq, Repr

/-- The match whose placeholders capture these expressions. -/
def matched (parts : List Part) (expressions : List (List Char)) : Match :=
  ⟨written parts expressions,
    (parts.filterMap Part.name?).zip (expressions.map String.ofList)⟩

/-- A character that is kept, or a match. -/
inductive Stretch where
  | kept (c : Char)
  | found (m : Match)
  deriving DecidableEq, Repr

/-- The part of the text that a stretch covers. -/
def Stretch.text : Stretch → List Char
  | kept c => [c]
  | found m => m.text

/-- The matches of the pattern and the characters around them in a text, after its first `skipped`
characters. A match without characters keeps the character behind it. -/
def stretchesAfter (parts : List Part) : Nat → List Char → List Stretch
  | _ + 1, [] => []
  | skipped + 1, _ :: rest => stretchesAfter parts skipped rest
  | 0, [] => ((matchAt parts []).map (.found ∘ matched parts)).toList
  | 0, c :: rest =>
    match (matchAt parts (c :: rest)).map (matched parts) with
    | none => .kept c :: stretchesAfter parts 0 rest
    | some m =>
      match m.text.length with
      | 0 => .found m :: .kept c :: stretchesAfter parts 0 rest
      | more + 1 => .found m :: stretchesAfter parts more rest

/-- The matches of the pattern in a text and the characters around them. -/
def stretches (parts : List Part) (text : List Char) : List Stretch :=
  stretchesAfter parts 0 text

theorem flatMap_text_stretchesAfter (parts : List Part) (skipped : Nat) (text : List Char) :
    (stretchesAfter parts skipped text).flatMap Stretch.text = text.drop skipped := by
  induction text generalizing skipped with
  | nil =>
    cases skipped with
    | succ => simp [stretchesAfter]
    | zero =>
      rw [stretchesAfter]
      cases h : matchAt parts [] with
      | none => rfl
      | some expressions =>
        simp [Stretch.text, matched, List.prefix_nil.1 (prefix_of_matchAt h)]
  | cons c rest ih =>
    cases skipped with
    | succ skipped => simpa [stretchesAfter] using ih skipped
    | zero =>
      rw [stretchesAfter]
      split
      · simp [Stretch.text, ih]
      · next m h =>
        obtain ⟨expressions, captured, rfl⟩ := Option.map_eq_some_iff.1 h
        obtain ⟨after, whole⟩ : (matched parts expressions).text <+: c :: rest :=
          prefix_of_matchAt captured
        split
        · next none => simp [Stretch.text, List.eq_nil_of_length_eq_zero none, ih]
        · next more length =>
          have behind := congrArg (List.drop (matched parts expressions).text.length) whole
          rw [List.drop_left, length, List.drop_succ_cons] at behind
          simp [Stretch.text, ih, ← behind, whole]

/-- Matches and kept characters make up the text. -/
theorem flatMap_text_stretches (parts : List Part) (text : List Char) :
    (stretches parts text).flatMap Stretch.text = text :=
  flatMap_text_stretchesAfter parts 0 text

end Pattern

end SerialContract
