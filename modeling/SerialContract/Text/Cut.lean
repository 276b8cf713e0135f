/-!
# Cutting texts

Cutting a text at its first occurrence of a character or of another text, and the bytes of a text.
-/

namespace SerialContract

/-- What stands in front of the first `c`, and what stands behind it. -/
def cutAt (c : Char) : List Char → Option (List Char × List Char)
  | [] => none
  | d :: rest =>
    if d = c then some ([], rest)
    else (cutAt c rest).map fun (front, back) => (d :: front, back)

/-- What stands in front of the first `mark`, and what stands behind it. -/
def cutAtText (mark : List Char) : List Char → Option (List Char × List Char)
  | [] => if mark.isEmpty then some ([], []) else none
  | c :: rest =>
    if mark.isPrefixOf (c :: rest) then some ([], (c :: rest).drop mark.length)
    else (cutAtText mark rest).map fun (front, back) => (c :: front, back)

theorem append_of_cutAtText {mark text front back : List Char} (h : cutAtText mark text = some (front, back)) :
    text = front ++ (mark ++ back) := by
  induction text generalizing front with
  | nil =>
    rw [cutAtText] at h
    split at h
    · next empty =>
      cases h
      simp [List.isEmpty_iff.1 empty]
    · cases h
  | cons c rest ih =>
    rw [cutAtText] at h
    split at h
    · next here =>
      cases h
      exact (List.prefix_iff_eq_append.1 (List.isPrefixOf_iff_prefix.1 here)).symm
    · obtain ⟨⟨more, behind⟩, later, same⟩ := Option.map_eq_some_iff.1 h
      cases same
      rw [ih later, List.cons_append]

/-- The text without `c` at its end, if that is how it ends. -/
def dropEnd? (c : Char) (text : List Char) : Option (List Char) :=
  if text.getLast? = some c then some text.dropLast else none

def utf8 (text : List Char) : List UInt8 :=
  text.flatMap String.utf8EncodeChar

def isAscii (bytes : List UInt8) : Bool :=
  bytes.all (· < 128)

/-- The characters that ASCII bytes stand for. -/
def ofAscii (bytes : List UInt8) : List Char :=
  bytes.map fun b => Char.ofNat b.toNat

end SerialContract
