import Mathlib.Data.List.TakeWhile
import SerialContract.Host.Quoted
import SerialContract.Proofs.Number.Digits
import SerialContract.Proofs.Text.Cut

/-!
# String literals of the host's language

How the text between the quotes of a string literal is read: with escapes for single characters, for ASCII
characters by two digits and for any character by its code point, and with line breaks that are left out behind
a backslash. A quoted text is read as that text.
-/

namespace SerialContract.Host

/-! ## Reading -/

/-- What one character behind a backslash stands for. -/
def simpleEscape? : Char → Option Char
  | 'n' => some '\n'
  | 'r' => some '\r'
  | 't' => some '\t'
  | '0' => some '\x00'
  | '\\' => some '\\'
  | '\x27' => some '\x27'
  | '"' => some '"'
  | _ => none

/-- The character of a code point in base sixteen, at most six digits among which lines may stand. -/
def codePoint? (digits : List Char) : Option Char :=
  let digits := if digits.head? = some '_' then [] else digits.filter (· ≠ '_')
  if digits.length ≤ 6 then
    (readDigits 16 digits).bind fun n => if n.isValidChar then some (Char.ofNat n) else none
  else none

/-- Whether a character is left out behind a backslash at the end of a line. -/
def isIndentation (c : Char) : Bool :=
  c == ' ' || c == '\n' || c == '\t' || c == '\r'

/-- What an escape stands for, from what follows the backslash, and the rest. -/
def readEscape : List Char → Option (List Char × List Char)
  | '\n' :: rest => some ([], rest.dropWhile isIndentation)
  | 'x' :: high :: low :: rest =>
    (readDigits 16 [high, low]).bind fun n => if n < 128 then some ([Char.ofNat n], rest) else none
  | 'u' :: '{' :: rest =>
    (cutAt '}' rest).bind fun (digits, after) => (codePoint? digits).map fun c => ([c], after)
  | c :: rest => (simpleEscape? c).map fun d => ([d], rest)
  | [] => none

theorem readEscape_length {text held rest : List Char} (h : readEscape text = some (held, rest)) :
    rest.length < text.length := by
  rw [readEscape.eq_def] at h
  split at h
  · next rest =>
    cases h
    exact Nat.lt_succ_of_le (List.dropWhile_suffix _).length_le
  · obtain ⟨n, _, h⟩ := Option.bind_eq_some_iff.1 h
    split at h
    · cases h
      simp only [List.length_cons]
      omega
    · cases h
  · next behind =>
    obtain ⟨⟨digits, after⟩, hcut, h⟩ := Option.bind_eq_some_iff.1 h
    obtain ⟨c, _, h⟩ := Option.map_eq_some_iff.1 h
    cases h
    have hlength := congrArg List.length (cutAt_eq_some.1 hcut).1
    simp only [List.length_append, List.length_cons] at hlength ⊢
    omega
  · obtain ⟨d, _, h⟩ := Option.map_eq_some_iff.1 h
    cases h
    simp
  · cases h

/-- The text from behind the opening quote of a literal, and what stands behind the closing one. -/
def readLiteral : List Char → Option (List Char × List Char)
  | [] => none
  | c :: rest =>
    if c = '"' then some ([], rest)
    else if c = '\\' then
      match _ : readEscape rest with
      | some (held, after) => (readLiteral after).map fun (text, behind) => (held ++ text, behind)
      | none => none
    else if c = '\r' then none
    else (readLiteral rest).map fun (text, behind) => (c :: text, behind)
termination_by text => text.length
decreasing_by
  · have := readEscape_length ‹_›
    simp only [List.length_cons]
    omega
  · simp

theorem readLiteral_escape {text held after : List Char} (h : readEscape text = some (held, after)) :
    readLiteral ('\\' :: text) = (readLiteral after).map fun (text, behind) => (held ++ text, behind) := by
  rw [readLiteral]
  split
  · next heq => cases heq
  · split
    · split
      · next hread =>
        cases h.symm.trans hread
        rfl
      · next hnone => cases h.symm.trans hnone
    · next hne => exact absurd rfl hne

theorem readLiteral_plain {c : Char} (hquote : c ≠ '"') (hbackslash : c ≠ '\\') (hreturn : c ≠ '\r')
    (rest : List Char) :
    readLiteral (c :: rest) = (readLiteral rest).map fun (text, behind) => (c :: text, behind) := by
  rw [readLiteral, if_neg hquote, if_neg hbackslash, if_neg hreturn]

/-! ## Quoted texts -/

theorem codePoint?_toDigits (c : Char) : codePoint? (Nat.toDigits 16 c.toNat) = some c := by
  have hline : '_' ∉ Nat.toDigits 16 c.toNat := by
    intro hmem
    obtain ⟨k, hk, heq⟩ := mem_toDigits_sixteen hmem
    exact absurd heq ((by decide : ∀ k < 16, '_' ≠ Nat.digitChar k) k hk)
  have hhead : (Nat.toDigits 16 c.toNat).head? ≠ some '_' := fun h => hline (List.mem_of_mem_head? h)
  have hall : (Nat.toDigits 16 c.toNat).filter (· ≠ '_') = Nat.toDigits 16 c.toNat := by
    rw [List.filter_eq_self]
    intro d hd
    exact decide_eq_true fun heq => hline (heq ▸ hd)
  have hlt : c.toNat < 16 ^ 6 := by
    rcases c.valid with h | ⟨_, h⟩ <;> (change c.toNat < _ at h; omega)
  have hlength : (Nat.toDigits 16 c.toNat).length ≤ 6 := (Nat.length_toDigits_le_iff (by decide) (by decide)).2 hlt
  have hvalid : c.toNat.isValidChar := c.valid
  simp only [codePoint?, hhead, ↓reduceIte, hall, hlength, readDigits_toDigits_sixteen, Option.bind_some, hvalid,
    Char.ofNat_toNat]

theorem readLiteral_quotedChar (c : Char) (rest : List Char) :
    readLiteral (quotedChar c ++ rest) = (readLiteral rest).map fun (text, behind) => (c :: text, behind) := by
  fun_cases quotedChar c with
  | case1 => exact readLiteral_escape (show readEscape ('t' :: rest) = some (['\t'], rest) from rfl)
  | case2 => exact readLiteral_escape (show readEscape ('r' :: rest) = some (['\r'], rest) from rfl)
  | case3 => exact readLiteral_escape (show readEscape ('n' :: rest) = some (['\n'], rest) from rfl)
  | case4 => exact readLiteral_escape (show readEscape ('\x27' :: rest) = some (['\x27'], rest) from rfl)
  | case5 => exact readLiteral_escape (show readEscape ('"' :: rest) = some (['"'], rest) from rfl)
  | case6 => exact readLiteral_escape (show readEscape ('\\' :: rest) = some (['\\'], rest) from rfl)
  | case7 c _ hreturn _ _ hquote hbackslash hprintable =>
      exact readLiteral_plain hquote hbackslash hreturn rest
  | case8 c =>
      have hcut : cutAt '}' (Nat.toDigits 16 c.toNat ++ '}' :: rest) = some (Nat.toDigits 16 c.toNat, rest) := by
        refine cutAt_append (fun hmem => ?_) rest
        obtain ⟨k, hk, heq⟩ := mem_toDigits_sixteen hmem
        exact absurd heq ((by decide : ∀ k < 16, '}' ≠ Nat.digitChar k) k hk)
      have hescape : readEscape ('u' :: '{' :: (Nat.toDigits 16 c.toNat ++ '}' :: rest)) = some ([c], rest) := by
        simp only [readEscape, hcut, Option.bind_some, codePoint?_toDigits, Option.map_some]
      have hspelling : ['\\', 'u', '{'] ++ Nat.toDigits 16 c.toNat ++ ['}'] ++ rest =
          '\\' :: 'u' :: '{' :: (Nat.toDigits 16 c.toNat ++ '}' :: rest) := by
        simp
      rw [hspelling]
      exact readLiteral_escape hescape

/-- A text between quotes is read as it was, whatever stands behind it. -/
theorem readLiteral_quoted (text : String) (rest : List Char) :
    readLiteral ((quoted text).toList ++ '"' :: rest) = some (text.toList, rest) := by
  rw [quoted, String.toList_ofList]
  induction text.toList with
  | nil => rw [List.flatMap_nil, List.nil_append, readLiteral, if_pos rfl]
  | cons c text ih =>
      rw [List.flatMap_cons, List.append_assoc, readLiteral_quotedChar, ih]
      rfl

end SerialContract.Host
