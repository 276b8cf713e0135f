import SerialContract.NameMap
import SerialContract.Text.CharClass
import SerialContract.Text.Cut

/-!
# Templates

A template is a text with placeholders, each a name between two opening and two closing braces. Braces
that do not enclose a name are text like any other. `Template.parts` cuts a template into its
characters and placeholders, and no character of it is lost.
-/

namespace SerialContract.Template

/-- The braces that open a placeholder. -/
def opening : List Char := ['{', '{']

/-- The braces that close a placeholder. -/
def closing : List Char := ['}', '}']

/-- Whether a character may stand in the name of a placeholder. -/
def isNameChar (c : Char) : Bool :=
  isAlphanumeric c || c == '_'

/-- A character of a template that stands for itself, or a placeholder. -/
inductive Part where
  | plain (c : Char)
  | placeholder (name : List Char)
  deriving DecidableEq, Repr

/-- How a part is written. -/
def Part.spelling : Part → List Char
  | .plain c => [c]
  | .placeholder name => opening ++ name ++ closing

/-- The name of a placeholder. -/
def Part.name? : Part → Option String
  | .plain _ => none
  | .placeholder name => some (String.ofList name)

/-- The name of the placeholder that a text begins with. -/
def leadingName? : List Char → Option (List Char)
  | '{' :: '{' :: rest =>
    match rest.takeWhile isNameChar, rest.dropWhile isNameChar with
    | c :: name, '}' :: '}' :: _ => some (c :: name)
    | _, _ => none
  | _ => none

/-- The parts of a text after its first `skipped` characters. -/
def partsAfter : Nat → List Char → List Part
  | _, [] => []
  | skipped + 1, _ :: rest => partsAfter skipped rest
  | 0, c :: rest =>
    match leadingName? (c :: rest) with
    | some name => .placeholder name :: partsAfter (name.length + 3) rest
    | none => .plain c :: partsAfter 0 rest

/-- The parts of a template, from left to right. -/
def parts (template : String) : List Part :=
  partsAfter 0 template.toList

/-- The names of the placeholders of a template, in the order in which they appear. -/
def names (template : String) : List String :=
  (parts template).filterMap Part.name?

/-! ## Markers -/

/-- A placeholder at its place: its name and the bytes from `start` up to `stop`. -/
structure Marker where
  name : String
  start : Nat
  stop : Nat
  deriving DecidableEq, Repr

/-- Whether a text can be the name of a placeholder. -/
def isName (text : List Char) : Bool :=
  !text.isEmpty && text.all isNameChar

/-- The placeholders of a text that starts at the byte `start`. If what stands between opening braces and
the next closing ones is no name, the search goes on behind the first of the opening braces. -/
def markersFrom (start : Nat) (text : List Char) : List Marker :=
  match _ : cutAtText opening text with
  | none => []
  | some (front, inner) =>
    match _ : cutAtText closing inner with
    | none => []
    | some (name, behind) =>
      let first := start + (utf8 front).length
      if isName name then
        let stop := first + (utf8 (opening ++ name ++ closing)).length
        ⟨String.ofList name, first, stop⟩ :: markersFrom stop behind
      else markersFrom (first + 1) ('{' :: inner)
termination_by text.length
decreasing_by
  · rw [append_of_cutAtText ‹cutAtText opening text = _›, append_of_cutAtText ‹cutAtText closing inner = _›]
    simp only [opening, List.length_append, List.length_cons]
    omega
  · rw [append_of_cutAtText ‹cutAtText opening text = _›]
    simp only [opening, List.length_append, List.length_cons, List.length_nil]
    omega

/-- The placeholders of a template with their places. -/
def markers (template : String) : List Marker :=
  markersFrom 0 template.toList

/-! ## Population -/

/-- The texts that take the places of placeholders, by the names of these. -/
abbrev Replacements := NameMap String

/-- The names among `wanted` that are not `given`, each once, in the order of their first use. -/
def missing (given : String → Bool) (wanted : List String) : List String :=
  (wanted.filter (!given ·)).eraseDups

/-- What stands in the place of a part once the placeholders are replaced. -/
def Part.filled (replacements : Replacements) : Part → List Char
  | .plain c => [c]
  | .placeholder name => ((replacements.get? (String.ofList name)).getD "").toList

/-- The parts with all placeholders replaced at once; the replacements are not searched again. -/
def fill (replacements : Replacements) (parts : List Part) : List Char :=
  parts.flatMap (Part.filled replacements)

/-- Parts with all their placeholders replaced. If some have no replacement, their names. -/
def populateParts (replacements : Replacements) (parts : List Part) : Except (List String) (List Char) :=
  match missing replacements.contains (parts.filterMap Part.name?) with
  | [] => .ok (fill replacements parts)
  | lacking => .error lacking

/-- A template with all its placeholders replaced. If some have no replacement, their names. -/
def populate (template : String) (replacements : Replacements) : Except (List String) String :=
  (populateParts replacements (parts template)).map String.ofList

/-! ## Parts make up the template -/

theorem spelling_eq_of_leadingName? {text name : List Char} (h : leadingName? text = some name) :
    ∃ rest, text = Part.spelling (.placeholder name) ++ rest := by
  unfold leadingName? at h
  split at h
  · next rest =>
    split at h
    · next front after hfront hafter =>
      obtain rfl := Option.some.inj h
      refine ⟨after, ?_⟩
      have whole := List.takeWhile_append_dropWhile (p := isNameChar) (l := rest)
      rw [hfront, hafter] at whole
      simp [Part.spelling, opening, closing, ← whole]
    · cases h
  · cases h

theorem flatMap_spelling_partsAfter (skipped : Nat) (text : List Char) :
    (partsAfter skipped text).flatMap Part.spelling = text.drop skipped := by
  induction text generalizing skipped with
  | nil => simp [partsAfter]
  | cons c rest ih =>
    match skipped with
    | skipped + 1 => simpa [partsAfter] using ih skipped
    | 0 =>
      rw [partsAfter]
      split
      · next name found =>
        obtain ⟨after, whole⟩ := spelling_eq_of_leadingName? found
        have tail : rest = ('{' :: name ++ closing) ++ after := by
          simpa [Part.spelling, opening] using (List.cons.inj whole).2
        rw [List.flatMap_cons, ih, whole, tail]
        simp [closing]
      · simp [Part.spelling, ih]

/-- The spellings of its parts make up a template. -/
theorem flatMap_spelling_parts (template : String) :
    (parts template).flatMap Part.spelling = template.toList :=
  flatMap_spelling_partsAfter 0 _

end SerialContract.Template
