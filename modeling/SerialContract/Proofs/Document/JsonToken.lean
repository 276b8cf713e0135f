import Mathlib.Data.List.Infix
import Mathlib.Data.List.TakeWhile
import SerialContract.Document.Json
import SerialContract.Proofs.Number.Digits

/-!
# How the tokens of JSON texts are spelt

Strings with their escapes, numbers and words, as the format lets them be written, and how each is read whatever
stands behind it.
-/

namespace SerialContract.JsonValue

/-! ## Strings -/

/-- A number as four digits of base sixteen. -/
structure FourDigits (n : Nat) (digits : List Char) : Prop where
  length : digits.length = 4
  value : readDigits 16 digits = some n

/-- The characters that have an escape of their own, with what stands behind the backslash. -/
def shortEscapes : List (Char × Char) :=
  [('"', '"'), ('\\', '\\'), ('/', '/'), ('\x08', 'b'), ('\x0c', 'f'), ('\n', 'n'), ('\r', 'r'), ('\t', 't')]

/-- A text as it may be written between quotes. -/
inductive Escapes : List Char → List Char → Prop where
  | nil : Escapes [] []
  | plain {c : Char} {text spelled : List Char} (quote : c ≠ '"') (backslash : c ≠ '\\') (control : 0x20 ≤ c.toNat)
      (rest : Escapes text spelled) : Escapes (c :: text) (c :: spelled)
  | short {c mark : Char} {text spelled : List Char} (mem : (c, mark) ∈ shortEscapes) (rest : Escapes text spelled) :
      Escapes (c :: text) ('\\' :: mark :: spelled)
  | unit {c : Char} {digits text spelled : List Char} (value : FourDigits c.toNat digits)
      (rest : Escapes text spelled) : Escapes (c :: text) ('\\' :: 'u' :: (digits ++ spelled))
  | pair {c : Char} {high low : Nat} {first second text spelled : List Char} (hhigh : FourDigits high first)
      (hlow : FourDigits low second) (highRange : 0xD800 ≤ high ∧ high < 0xDC00)
      (lowRange : 0xDC00 ≤ low ∧ low < 0xE000)
      (value : c.toNat = 0x10000 + (high - 0xD800) * 0x400 + (low - 0xDC00)) (rest : Escapes text spelled) :
      Escapes (c :: text) ('\\' :: 'u' :: (first ++ '\\' :: 'u' :: (second ++ spelled)))

theorem fourDigits?_append {n : Nat} {digits : List Char} (h : FourDigits n digits) (rest : List Char) :
    fourDigits? (digits ++ rest) = some (n, rest) := by
  obtain ⟨hlength, hvalue⟩ := h
  match digits, hlength with
  | [a, b, c, d], _ =>
      rw [List.cons_append, List.cons_append, List.cons_append, List.cons_append, List.nil_append, fourDigits?, hvalue,
        Option.map_some]

theorem charOf?_toNat (c : Char) : charOf? c.toNat = some c := by
  have hvalid : c.toNat.isValidChar := c.valid
  rw [charOf?, dif_pos hvalid]
  rfl

theorem readCodePoint_unit {c : Char} {digits : List Char} (h : FourDigits c.toNat digits) (rest : List Char) :
    readCodePoint (digits ++ rest) = some (c, rest) := by
  have hsurrogate : ¬ (0xD800 ≤ c.toNat ∧ c.toNat < 0xDC00) := by
    have hvalid : c.toNat < 0xD800 ∨ 0xDFFF < c.toNat ∧ c.toNat < 0x110000 := c.valid
    omega
  rw [readCodePoint, fourDigits?_append h]
  simp only [hsurrogate, ↓reduceIte, charOf?_toNat, Option.map_some]

theorem readCodePoint_pair {c : Char} {high low : Nat} {first second : List Char} (hhigh : FourDigits high first)
    (hlow : FourDigits low second) (highRange : 0xD800 ≤ high ∧ high < 0xDC00)
    (lowRange : 0xDC00 ≤ low ∧ low < 0xE000)
    (value : c.toNat = 0x10000 + (high - 0xD800) * 0x400 + (low - 0xDC00)) (rest : List Char) :
    readCodePoint (first ++ '\\' :: 'u' :: (second ++ rest)) = some (c, rest) := by
  rw [readCodePoint, fourDigits?_append hhigh]
  simp only [highRange, and_self, ↓reduceIte, fourDigits?_append hlow, lowRange, ← value, charOf?_toNat,
    Option.map_some]

theorem readText_escape {text after : List Char} {c : Char} (h : readEscape text = some (c, after)) :
    readText ('\\' :: text) = (readText after).map fun (s, tail) => (c :: s, tail) := by
  rw [readText]
  split
  · next heq => cases heq
  · split
    · split
      · next hread =>
        cases h.symm.trans hread
        rfl
      · next hnone => cases h.symm.trans hnone
    · next hne => exact absurd rfl hne

theorem readText_plain {c : Char} (hquote : c ≠ '"') (hbackslash : c ≠ '\\') (hcontrol : 0x20 ≤ c.toNat)
    (rest : List Char) : readText (c :: rest) = (readText rest).map fun (s, tail) => (c :: s, tail) := by
  rw [readText, if_neg hquote, if_neg hbackslash, if_neg (Nat.not_lt.2 hcontrol)]

theorem readEscape_short {c mark : Char} (h : (c, mark) ∈ shortEscapes) (rest : List Char) :
    readEscape (mark :: rest) = some (c, rest) := by
  simp only [shortEscapes, List.mem_cons, Prod.mk.injEq, List.not_mem_nil, or_false] at h
  rcases h with ⟨rfl, rfl⟩ | ⟨rfl, rfl⟩ | ⟨rfl, rfl⟩ | ⟨rfl, rfl⟩ | ⟨rfl, rfl⟩ | ⟨rfl, rfl⟩ | ⟨rfl, rfl⟩ | ⟨rfl, rfl⟩
  all_goals rfl

theorem readEscape_u (rest : List Char) : readEscape ('u' :: rest) = readCodePoint rest := rfl

theorem readText_of_escapes {text spelled : List Char} (h : Escapes text spelled) (rest : List Char) :
    readText (spelled ++ '"' :: rest) = some (text, rest) := by
  induction h with
  | nil => rw [List.nil_append, readText, if_pos rfl]
  | plain quote backslash control _ ih =>
      rw [List.cons_append, readText_plain quote backslash control, ih]
      rfl
  | short mem _ ih =>
      rw [List.cons_append, List.cons_append, readText_escape (readEscape_short mem _), ih]
      rfl
  | unit value _ ih =>
      rw [List.cons_append, List.cons_append, List.append_assoc,
        readText_escape ((readEscape_u _).trans (readCodePoint_unit value _)), ih]
      rfl
  | pair hhigh hlow highRange lowRange value _ ih =>
      rw [List.cons_append, List.cons_append, List.append_assoc, List.cons_append, List.cons_append, List.append_assoc,
        readText_escape ((readEscape_u _).trans (readCodePoint_pair hhigh hlow highRange lowRange value _)), ih]
      rfl

/-! ## Numbers -/

/-- A run of digits. -/
structure IsDigits (digits : List Char) : Prop where
  ne_nil : digits ≠ []
  digit : ∀ c ∈ digits, c.isDigit = true

/-- The digits in front of the point: no zero stands in front of others. -/
def IsWhole (digits : List Char) : Prop :=
  digits = ['0'] ∨ IsDigits digits ∧ digits.head? ≠ some '0'

/-- A point and digits, if anything. -/
def IsFraction (text : List Char) : Prop :=
  text = [] ∨ ∃ digits, IsDigits digits ∧ text = '.' :: digits

/-- A power of ten, if anything. -/
def IsPower (text : List Char) : Prop :=
  text = [] ∨ ∃ mark sign digits, (mark = 'e' ∨ mark = 'E') ∧ (sign = [] ∨ sign = ['+'] ∨ sign = ['-']) ∧
    IsDigits digits ∧ text = mark :: (sign ++ digits)

/-- How numbers are written. -/
inductive WritesNumber : JsonValue → List Char → Prop where
  | whole (n : Nat) : WritesNumber (whole n) (decimalDigits n)
  | other {minus digits fraction power : List Char} (hminus : minus = [] ∨ minus = ['-']) (hdigits : IsWhole digits)
      (hfraction : IsFraction fraction) (hpower : IsPower power)
      (more : minus ≠ [] ∨ fraction ≠ [] ∨ power ≠ []) :
      WritesNumber otherNumber (minus ++ (digits ++ (fraction ++ power)))

/-- A number does not go on with the text behind it. -/
def EndsNumber (rest : List Char) : Prop :=
  ∀ c ∈ rest.head?, c.isDigit = false ∧ c ≠ '.' ∧ c ≠ 'e' ∧ c ≠ 'E'

theorem IsDigits.takeWhile_append {digits rest : List Char} (h : IsDigits digits)
    (hrest : ∀ c ∈ rest.head?, c.isDigit = false) :
    (digits ++ rest).takeWhile Char.isDigit = digits ∧ (digits ++ rest).dropWhile Char.isDigit = rest := by
  have hstop : rest.takeWhile Char.isDigit = [] ∧ rest.dropWhile Char.isDigit = rest := by
    cases rest with
    | nil => exact ⟨rfl, rfl⟩
    | cons c rest =>
        have hc := hrest c rfl
        exact ⟨List.takeWhile_cons_of_neg (by simp [hc]), List.dropWhile_cons_of_neg (by simp [hc])⟩
  rw [List.takeWhile_append_of_pos h.digit, List.dropWhile_append_of_pos h.digit, hstop.1, hstop.2, List.append_nil]
  exact ⟨rfl, rfl⟩

theorem readWhole_append {digits rest : List Char} (h : IsWhole digits) (hrest : ∀ c ∈ rest.head?, c.isDigit = false) :
    readWhole (digits ++ rest) = some (digits, rest) := by
  rcases h with rfl | ⟨h, hzero⟩
  · rfl
  · obtain ⟨c, more, rfl⟩ := List.exists_cons_of_ne_nil h.ne_nil
    obtain ⟨htake, hdrop⟩ := h.takeWhile_append hrest
    have hc : c ≠ '0' := fun heq => hzero (congrArg some heq)
    have hdigit := h.digit c List.mem_cons_self
    rw [List.cons_append, List.takeWhile_cons_of_pos hdigit] at htake
    rw [List.cons_append, List.dropWhile_cons_of_pos hdigit] at hdrop
    rw [List.cons_append, readWhole, if_neg hc, if_pos hdigit, htake, hdrop]

theorem readFraction_append {fraction rest : List Char} (h : IsFraction fraction)
    (hrest : ∀ c ∈ rest.head?, c.isDigit = false ∧ c ≠ '.') :
    readFraction (fraction ++ rest) = some (!fraction.isEmpty, rest) := by
  rcases h with rfl | ⟨digits, h, rfl⟩
  · rw [List.nil_append, readFraction.eq_def]
    split
    · exact absurd rfl (hrest '.' rfl).2
    · rfl
  · obtain ⟨htake, hdrop⟩ := h.takeWhile_append fun c hc => (hrest c hc).1
    rw [List.cons_append, readFraction, htake, hdrop, if_neg (by simpa using h.ne_nil)]
    rfl

theorem readPowerOfTen_append {power rest : List Char} (h : IsPower power) (hrest : EndsNumber rest) :
    readPowerOfTen (power ++ rest) = some (!power.isEmpty, rest) := by
  rcases h with rfl | ⟨mark, sign, digits, hmark, hsign, h, rfl⟩
  · cases rest with
    | nil => rfl
    | cons c rest =>
        obtain ⟨_, _, he, hE⟩ := hrest c rfl
        rw [List.nil_append, readPowerOfTen, if_neg (not_or.2 ⟨he, hE⟩)]
        rfl
  · obtain ⟨htake, hdrop⟩ := h.takeWhile_append fun c hc => (hrest c hc).1
    have hsplit : (splitSign (sign ++ (digits ++ rest))).2 = digits ++ rest := by
      rcases hsign with rfl | rfl | rfl
      · obtain ⟨c, more, rfl⟩ := List.exists_cons_of_ne_nil h.ne_nil
        rw [List.nil_append, splitSign_of_isDigit]
        intro d hd
        cases hd
        exact h.digit c List.mem_cons_self
      · rfl
      · rfl
    rw [List.cons_append, List.append_assoc, readPowerOfTen, if_pos hmark]
    simp only [hsplit, htake, hdrop]
    rw [if_neg (by simpa using h.ne_nil)]
    rfl

theorem IsWhole.digit {digits : List Char} (h : IsWhole digits) : ∀ c ∈ digits, c.isDigit = true := by
  rcases h with rfl | ⟨h, _⟩
  · exact List.forall_mem_singleton.2 rfl
  · exact h.digit

theorem IsWhole.ne_nil {digits : List Char} (h : IsWhole digits) : digits ≠ [] := by
  rcases h with rfl | ⟨h, _⟩
  · exact List.cons_ne_nil _ _
  · exact h.ne_nil

theorem isWhole_decimalDigits (n : Nat) : IsWhole (decimalDigits n) := by
  cases n with
  | zero => exact .inl rfl
  | succ n =>
      have hdigits : IsDigits (decimalDigits (n + 1)) := ⟨decimalDigits_ne_nil _, fun _ => isDigit_of_mem_decimalDigits⟩
      exact .inr ⟨hdigits, head?_decimalDigits n.succ_pos⟩

theorem IsPower.stops {power rest : List Char} (h : IsPower power) (hrest : EndsNumber rest) :
    ∀ c ∈ (power ++ rest).head?, c.isDigit = false ∧ c ≠ '.' := by
  rcases h with rfl | ⟨mark, sign, digits, hmark, _, _, rfl⟩
  · exact fun c hc => ⟨(hrest c hc).1, (hrest c hc).2.1⟩
  · intro c hc
    cases hc
    rcases hmark with rfl | rfl
    · decide
    · decide

theorem IsFraction.stops {fraction rest : List Char} (h : IsFraction fraction)
    (hrest : ∀ c ∈ rest.head?, c.isDigit = false ∧ c ≠ '.') : ∀ c ∈ (fraction ++ rest).head?, c.isDigit = false := by
  rcases h with rfl | ⟨digits, _, rfl⟩
  · exact fun c hc => (hrest c hc).1
  · intro c hc
    cases hc
    rfl

/-- A number is read by its parts: a minus, digits, a fraction and a power of ten. -/
theorem readNumber_parts {minus digits fraction power rest : List Char} (hminus : minus = [] ∨ minus = ['-'])
    (hdigits : IsWhole digits) (hfraction : IsFraction fraction) (hpower : IsPower power) (hrest : EndsNumber rest) :
    readNumber (minus ++ (digits ++ (fraction ++ (power ++ rest)))) =
      if minus ≠ [] ∨ fraction ≠ [] ∨ power ≠ [] then some (otherNumber, rest)
      else (readDigits 10 digits).map fun n => (whole n, rest) := by
  have hpowerStops := hpower.stops hrest
  have hwhole := readWhole_append hdigits (hfraction.stops hpowerStops)
  have hfractionRead := readFraction_append hfraction hpowerStops
  have hpowerRead := readPowerOfTen_append hpower hrest
  rcases hminus with rfl | rfl
  · have hhead : (digits ++ (fraction ++ (power ++ rest))).head? ≠ some '-' := by
      obtain ⟨c, more, rfl⟩ := List.exists_cons_of_ne_nil hdigits.ne_nil
      intro heq
      have hc := hdigits.digit c List.mem_cons_self
      cases heq
      cases hc
    rw [List.nil_append, readNumber]
    simp only [hhead, ↓reduceIte, hwhole, hfractionRead, hpowerRead, Option.bind_eq_bind, Option.bind_some]
    cases fraction <;> cases power <;> rfl
  · rw [readNumber]
    simp only [List.cons_append, List.nil_append, List.head?_cons, ↓reduceIte, List.tail_cons, hwhole, hfractionRead,
      hpowerRead, Option.bind_eq_bind, Option.bind_some, decide_true, Bool.true_or, ne_eq, List.cons_ne_nil,
      not_false_eq_true, true_or]

theorem readNumber_append {v : JsonValue} {text rest : List Char} (h : WritesNumber v text) (hrest : EndsNumber rest) :
    readNumber (text ++ rest) = some (v, rest) := by
  cases h with
  | whole n =>
      have hparts := readNumber_parts (.inl rfl) (isWhole_decimalDigits n) (.inl rfl) (.inl rfl) hrest
      rw [readDigits_decimalDigits] at hparts
      exact hparts
  | other hminus hdigits hfraction hpower more =>
      rw [List.append_assoc, List.append_assoc, List.append_assoc,
        readNumber_parts hminus hdigits hfraction hpower hrest, if_pos more]

/-- What numbers start with. -/
theorem WritesNumber.head {v : JsonValue} {text : List Char} (h : WritesNumber v text) :
    ∃ c more, text = c :: more ∧ (c = '-' ∨ c.isDigit = true) := by
  have hstart {digits : List Char} (hdigits : IsWhole digits) (back : List Char) :
      ∃ c more, digits ++ back = c :: more ∧ (c = '-' ∨ c.isDigit = true) := by
    obtain ⟨c, more, rfl⟩ := List.exists_cons_of_ne_nil hdigits.ne_nil
    exact ⟨c, more ++ back, rfl, .inr (hdigits.digit c List.mem_cons_self)⟩
  cases h with
  | whole n =>
      have hwhole := hstart (isWhole_decimalDigits n) []
      rwa [List.append_nil] at hwhole
  | other hminus hdigits _ _ _ =>
      rcases hminus with rfl | rfl
      · rw [List.nil_append]
        exact hstart hdigits _
      · exact ⟨'-', _, rfl, .inl rfl⟩

/-! ## Tokens -/

/-- How a token is spelt. -/
inductive Spelling : Token → List Char → Prop where
  | openArray : Spelling .openArray ['[']
  | closeArray : Spelling .closeArray [']']
  | openObject : Spelling .openObject ['{']
  | closeObject : Spelling .closeObject ['}']
  | comma : Spelling .comma [',']
  | colon : Spelling .colon [':']
  | string {s : String} {spelled : List Char} (h : Escapes s.toList spelled) :
      Spelling (.string s) ('"' :: (spelled ++ ['"']))
  | nullWord : Spelling (.literal null) ['n', 'u', 'l', 'l']
  | trueWord : Spelling (.literal (bool true)) ['t', 'r', 'u', 'e']
  | falseWord : Spelling (.literal (bool false)) ['f', 'a', 'l', 's', 'e']
  | number {v : JsonValue} {text : List Char} (h : WritesNumber v text) : Spelling (.literal v) text

/-- A word or a number. -/
def Token.isLiteral : Token → Bool
  | .literal _ => true
  | _ => false

/-- The words start with letters of their own. -/
theorem head?_of_mem_words : ∀ entry ∈ words, ∃ c ∈ ['n', 't', 'f'], entry.1.toList.head? = some c := by
  simp [words]

theorem readToken_number {c : Char} (h : c = '-' ∨ c.isDigit = true) (rest : List Char) :
    readToken (c :: rest) = (readNumber (c :: rest)).map fun (v, rest) => (.literal v, rest) := by
  have hne (d : Char) (hd : ¬ (d = '-' ∨ d.isDigit = true)) : c ≠ d := fun heq => hd (heq ▸ h)
  rw [readToken.eq_def]
  split
  case h_8 =>
    split
    · next hfound =>
      obtain ⟨entry, hentry, hword⟩ := List.exists_of_findSome?_eq_some hfound
      obtain ⟨after, hafter, _⟩ := Option.map_eq_some_iff.1 hword
      obtain ⟨d, hd, hhead⟩ := head?_of_mem_words entry hentry
      have hc : c = d := by
        obtain ⟨more, hmore⟩ := List.head?_eq_some_iff.1 hhead
        have happend := List.isPrefixOf?_eq_some_iff_append_eq.1 hafter
        rw [hmore] at happend
        exact (List.cons.inj happend).1.symm
      have hletters : ∀ d ∈ ['n', 't', 'f'], ¬ (d = '-' ∨ d.isDigit = true) :=
        List.forall_mem_cons.2 ⟨by decide, List.forall_mem_cons.2 ⟨by decide, List.forall_mem_singleton.2 (by decide)⟩⟩
      exact absurd hc (hne d (hletters d hd))
    · rfl
  all_goals next heq => exact absurd (List.cons.inj heq).1 (hne _ (by decide))

theorem readToken_append {t : Token} {text rest : List Char} (h : Spelling t text)
    (hrest : t.isLiteral = true → EndsNumber rest) : readToken (text ++ rest) = some (t, rest) := by
  cases h with
  | openArray => rfl
  | closeArray => rfl
  | openObject => rfl
  | closeObject => rfl
  | comma => rfl
  | colon => rfl
  | string h =>
      rw [List.cons_append, List.append_assoc, List.singleton_append, readToken, readText_of_escapes h, Option.map_some]
      simp only [String.ofList_toList]
  | nullWord => rfl
  | trueWord => rfl
  | falseWord => rfl
  | number h =>
      obtain ⟨c, more, rfl, hc⟩ := h.head
      rw [List.cons_append, readToken_number hc, ← List.cons_append, readNumber_append h (hrest rfl)]
      rfl

/-- No blank stands in front of a token. -/
theorem Spelling.head {t : Token} {text : List Char} (h : Spelling t text) :
    ∃ c more, text = c :: more ∧ isGap c = false := by
  cases h with
  | number h =>
      obtain ⟨c, more, rfl, hc⟩ := h.head
      refine ⟨c, more, rfl, Bool.eq_false_iff.2 fun hgap => ?_⟩
      simp only [isGap, Bool.or_eq_true, beq_iff_eq] at hgap
      rcases hgap with ((rfl | rfl) | rfl) | rfl
      all_goals exact absurd hc (by decide)
  | _ => exact ⟨_, _, rfl, by decide⟩

end SerialContract.JsonValue
