import Mathlib.Data.List.Basic
import SerialContract.Text.Cut

/-!
# Cutting texts, and their bytes

What a cut leaves, put together again with the character between, is the text that was cut. The bytes
of an ASCII text are its code points, so they stand for the same characters again. New bytes are spliced in for old
ones, and the others stay.
-/

namespace SerialContract

/-! ## Cuts -/

theorem cutAt_append {c : Char} {front : List Char} (h : c ∉ front) (back : List Char) :
    cutAt c (front ++ c :: back) = some (front, back) := by
  induction front with
  | nil => simp only [List.nil_append, cutAt, ↓reduceIte]
  | cons d front ih =>
      rw [List.mem_cons, not_or] at h
      simp only [List.cons_append, cutAt, Ne.symm h.1, ↓reduceIte, ih h.2, Option.map_some]

theorem dropEnd?_concat (c : Char) (front : List Char) : dropEnd? c (front ++ [c]) = some front := by
  simp [dropEnd?]

theorem dropEnd?_concat_ne {c d : Char} (h : d ≠ c) (front : List Char) : dropEnd? c (front ++ [d]) = none := by
  simp [dropEnd?, h]

theorem cutAt_eq_some {c : Char} {text front back : List Char} :
    cutAt c text = some (front, back) ↔ text = front ++ c :: back ∧ c ∉ front := by
  constructor
  · intro h
    induction text generalizing front with
    | nil => cases h
    | cons d rest ih =>
        rw [cutAt] at h
        split at h
        · next heq =>
          cases h
          exact ⟨by rw [heq]; rfl, List.not_mem_nil⟩
        · next hne =>
          obtain ⟨⟨f, b⟩, hcut, heq⟩ := Option.map_eq_some_iff.1 h
          cases heq
          obtain ⟨rfl, hf⟩ := ih hcut
          exact ⟨rfl, by simp [Ne.symm hne, hf]⟩
  · rintro ⟨rfl, h⟩
    exact cutAt_append h back

theorem cutAt_eq_none {c : Char} {text : List Char} : cutAt c text = none ↔ c ∉ text := by
  induction text with
  | nil => simp [cutAt]
  | cons d rest ih =>
      rw [cutAt]
      by_cases h : d = c
      · simp [h]
      · simp [h, ih, Ne.symm h]

theorem dropEnd?_eq_some {c : Char} {text front : List Char} :
    dropEnd? c text = some front ↔ text = front ++ [c] := by
  constructor
  · intro h
    rw [dropEnd?] at h
    split at h
    · next hlast =>
      cases h
      exact (List.dropLast_append_getLast? c hlast).symm
    · cases h
  · rintro rfl
    exact dropEnd?_concat c front

theorem cutAtText_eq_none {mark text : List Char} : cutAtText mark text = none ↔ ¬ mark <:+: text := by
  induction text with
  | nil => simp [cutAtText]
  | cons c rest ih =>
      rw [cutAtText, List.infix_cons_iff, ← List.isPrefixOf_iff_prefix]
      by_cases hmark : mark.isPrefixOf (c :: rest) = true
      · simp [hmark]
      · simp [hmark, ih]

/-- In front of the first mark none begins. -/
theorem not_prefix_of_cutAtText {mark text front back : List Char} (h : cutAtText mark text = some (front, back)) :
    ∀ place, place <:+ front → place ≠ [] → ¬ mark <+: place ++ (mark ++ back) := by
  induction text generalizing front with
  | nil =>
      rw [cutAtText] at h
      split at h
      · cases h
        exact fun place hplace hne => absurd (List.suffix_nil.1 hplace) hne
      · cases h
  | cons c rest ih =>
      rw [cutAtText] at h
      split at h
      · cases h
        exact fun place hplace hne => absurd (List.suffix_nil.1 hplace) hne
      · next hmark =>
        obtain ⟨⟨more, behind⟩, hlater, hsame⟩ := Option.map_eq_some_iff.1 h
        cases hsame
        intro place hplace hne
        rcases List.suffix_cons_iff.1 hplace with rfl | hplace
        · rwa [List.cons_append, ← append_of_cutAtText hlater, ← List.isPrefixOf_iff_prefix]
        · exact ih hlater place hplace hne

theorem cutAtText_append {c : Char} {mark front : List Char} (h : c ∉ front) (back : List Char) :
    cutAtText (c :: mark) (front ++ (c :: mark ++ back)) = some (front, back) := by
  induction front with
  | nil => simp [cutAtText]
  | cons d front ih =>
      rw [List.mem_cons, not_or] at h
      have hmark : (c :: mark).isPrefixOf (d :: (front ++ (c :: mark ++ back))) = false := by
        simp [List.isPrefixOf, h.1]
      rw [List.cons_append, cutAtText, hmark, if_neg Bool.false_ne_true, ih h.2, Option.map_some]

/-! ## Separated texts -/

theorem isPrefixOf?_eq_none {front text : List Char} (h : ¬ front <+: text) : front.isPrefixOf? text = none := by
  rw [Option.eq_none_iff_forall_ne_some]
  intro behind hbehind
  exact h ⟨behind, List.isPrefixOf?_eq_some_iff_append_eq.1 hbehind⟩

/-- What stands in front of a text and lacks a character stands in front of this character. -/
theorem prefix_of_prefix_append_cons {α : Type} {front before after : List α} {c : α} (hc : c ∉ front)
    (h : front <+: before ++ c :: after) : front <+: before := by
  rcases List.prefix_or_prefix_of_prefix h (List.prefix_append before (c :: after)) with hfront | ⟨more, rfl⟩
  · exact hfront
  · rw [List.prefix_append_right_inj] at h
    cases more with
    | nil => simp
    | cons d more =>
        obtain ⟨rfl, _⟩ := List.cons_prefix_cons.1 h
        exact absurd (List.mem_append_right before List.mem_cons_self) hc

/-- A text that lacks a character stands on one side of it. -/
theorem infix_of_infix_append_cons {α : Type} {inner before after : List α} {c : α} (hc : c ∉ inner)
    (h : inner <:+: before ++ c :: after) : inner <:+: before ∨ inner <:+: after := by
  induction before with
  | nil =>
      rcases List.infix_cons_iff.1 h with hfront | hafter
      · exact .inl (prefix_of_prefix_append_cons hc hfront).isInfix
      · exact .inr hafter
  | cons d before ih =>
      rcases List.infix_cons_iff.1 h with hfront | hlater
      · exact .inl (prefix_of_prefix_append_cons hc hfront).isInfix
      · refine (ih hlater).imp_left fun hbefore => ?_
        exact hbefore.trans (List.suffix_cons d before).isInfix

theorem infix_intercalate_of_mem {d : Char} {tokens : List (List Char)} {token : List Char} (h : token ∈ tokens) :
    token <:+: [d].intercalate tokens := by
  induction tokens with
  | nil => cases h
  | cons first rest ih =>
      cases rest with
      | nil =>
          obtain rfl := List.mem_singleton.1 h
          simp
      | cons second rest =>
          rw [List.intercalate_cons_cons]
          rcases List.mem_cons.1 h with rfl | h
          · exact (List.prefix_append _ _).isInfix.trans (List.prefix_append _ _).isInfix
          · exact (ih h).trans (List.suffix_append _ _).isInfix

theorem intercalate_append {α : Type} {separator : List α} {front back : List (List α)} (hfront : front ≠ [])
    (hback : back ≠ []) : separator.intercalate (front ++ back) =
      separator.intercalate front ++ separator ++ separator.intercalate back := by
  induction front with
  | nil => exact absurd rfl hfront
  | cons token front ih =>
      cases front with
      | nil => rw [List.singleton_append, List.intercalate_cons_of_ne_nil hback, List.intercalate_singleton]
      | cons second front =>
          have hne : second :: front ≠ [] := List.cons_ne_nil _ _
          rw [List.cons_append, List.intercalate_cons_of_ne_nil (List.append_ne_nil_of_left_ne_nil hne _), ih hne,
            List.intercalate_cons_of_ne_nil hne]
          simp only [List.append_assoc]

theorem mem_intercalate_of_mem {c d : Char} {tokens : List (List Char)} {token : List Char} (h : token ∈ tokens)
    (hc : c ∈ token) : c ∈ [d].intercalate tokens :=
  (infix_intercalate_of_mem h).subset hc

theorem mem_or_mem_of_mem_intercalate {α : Type} {c : α} {separator : List α} {tokens : List (List α)}
    (h : c ∈ separator.intercalate tokens) : c ∈ separator ∨ ∃ token ∈ tokens, c ∈ token := by
  induction tokens with
  | nil => cases h
  | cons first rest ih =>
      cases rest with
      | nil =>
          rw [List.intercalate_singleton] at h
          exact .inr ⟨first, List.mem_cons_self, h⟩
      | cons second rest =>
          rw [List.intercalate_cons_cons, List.mem_append, List.mem_append] at h
          rcases h with (h | h) | h
          · exact .inr ⟨first, List.mem_cons_self, h⟩
          · exact .inl h
          · refine (ih h).imp_right ?_
            rintro ⟨token, htoken, hc⟩
            exact ⟨token, List.mem_cons_of_mem _ htoken, hc⟩

theorem infix_of_mem_splitOn {d : Char} {list token : List Char} (h : token ∈ list.splitOn d) : token <:+: list := by
  have hinfix := infix_intercalate_of_mem (d := d) h
  rwa [List.intercalate_splitOn] at hinfix

theorem notMem_of_mem_splitOn {d : Char} {list token : List Char} (h : token ∈ list.splitOn d) : d ∉ token := by
  induction list generalizing token with
  | nil =>
      rw [List.splitOn_nil, List.mem_singleton] at h
      simp [h]
  | cons c rest ih =>
      obtain ⟨first, others, hrest⟩ := List.exists_cons_of_ne_nil (List.splitOn_ne_nil d rest)
      rw [hrest] at ih
      rw [List.splitOn_cons_eq_if_modifyHead, hrest] at h
      split at h
      · rcases List.mem_cons.1 h with rfl | h
        · exact List.not_mem_nil
        · exact ih h
      · next hne =>
        rcases List.mem_cons.1 h with rfl | h
        · rw [List.mem_cons, not_or]
          exact ⟨fun heq => hne (by simp [heq]), ih List.mem_cons_self⟩
        · exact ih (List.mem_cons_of_mem _ h)

/-- Taking a text apart at a character undoes putting together texts without it, none of which is empty. -/
theorem splitOn_eq_iff {d : Char} {list : List Char} {tokens : List (List Char)} (hne : ∀ token ∈ tokens, token ≠ []) :
    (if list.isEmpty then [] else list.splitOn d) = tokens ↔
      list = [d].intercalate tokens ∧ ∀ token ∈ tokens, d ∉ token := by
  constructor
  · rintro rfl
    split
    · next hempty => exact ⟨List.isEmpty_iff.1 hempty, by simp⟩
    · exact ⟨(List.intercalate_splitOn d).symm, fun _ => notMem_of_mem_splitOn⟩
  · rintro ⟨rfl, hd⟩
    cases tokens with
    | nil => rfl
    | cons first rest =>
        obtain ⟨c, hc⟩ := List.exists_mem_of_ne_nil first (hne first List.mem_cons_self)
        have hfull : ([d].intercalate (first :: rest)).isEmpty = false := by
          rw [List.isEmpty_eq_false_iff_exists_mem]
          exact ⟨c, mem_intercalate_of_mem List.mem_cons_self hc⟩
        rw [hfull, List.splitOn_intercalate _ hd (by simp)]
        simp

/-! ## Bytes -/

theorem utf8EncodeChar_of_lt {c : Char} (h : c.toNat < 128) :
    String.utf8EncodeChar c = [UInt8.ofNat c.toNat] := by
  have hle : c.toNat ≤ 127 := by omega
  simp only [String.utf8EncodeChar, Char.toNat_val, hle, ↓reduceIte]

theorem toNat_ofNat_of_lt {n : Nat} (h : n < 128) : (UInt8.ofNat n).toNat = n := by
  rw [UInt8.toNat_ofNat']
  omega

theorem utf8_eq_map {text : List Char} (h : ∀ c ∈ text, c.toNat < 128) :
    utf8 text = text.map fun c => UInt8.ofNat c.toNat := by
  induction text with
  | nil => rfl
  | cons c rest ih =>
      have hrest := ih fun d hd => h d (List.mem_cons_of_mem _ hd)
      simp only [utf8] at hrest
      simp only [utf8, List.flatMap_cons, utf8EncodeChar_of_lt (h c List.mem_cons_self), hrest,
        List.map_cons, List.singleton_append]

theorem utf8_append (front back : List Char) : utf8 (front ++ back) = utf8 front ++ utf8 back :=
  List.flatMap_append

theorem length_utf8_pos {text : List Char} (h : text ≠ []) : 0 < (utf8 text).length := by
  obtain ⟨c, rest, rfl⟩ := List.exists_cons_of_ne_nil h
  rw [utf8, List.flatMap_cons, List.length_append, String.length_utf8EncodeChar]
  exact Nat.add_pos_left (Char.utf8Size_pos c) _

theorem isAscii_utf8 {text : List Char} (h : ∀ c ∈ text, c.toNat < 128) : isAscii (utf8 text) = true := by
  rw [utf8_eq_map h, isAscii, List.all_map, List.all_eq_true]
  intro c hc
  have hlt := h c hc
  simp only [Function.comp_apply, decide_eq_true_eq, UInt8.lt_iff_toNat_lt, toNat_ofNat_of_lt hlt]
  exact hlt

theorem ofAscii_utf8 {text : List Char} (h : ∀ c ∈ text, c.toNat < 128) : ofAscii (utf8 text) = text := by
  rw [utf8_eq_map h, ofAscii, List.map_map]
  refine (List.map_congr_left fun c hc => ?_).trans (List.map_id text)
  simp only [Function.comp_apply, toNat_ofNat_of_lt (h c hc), Char.ofNat_toNat, id_eq]

theorem toNat_char_of_lt {b : UInt8} (h : b < 128) : (Char.ofNat b.toNat).toNat = b.toNat := by
  have hlt : b.toNat < 128 := UInt8.lt_iff_toNat_lt.1 h
  have hvalid : b.toNat.isValidChar := .inl (by omega)
  rw [Char.ofNat, dif_pos hvalid]
  rfl

theorem lt_of_mem_ofAscii {bytes : List UInt8} (h : isAscii bytes = true) {c : Char} (hc : c ∈ ofAscii bytes) :
    c.toNat < 128 := by
  obtain ⟨b, hb, rfl⟩ := List.mem_map.1 hc
  have hlt : b < 128 := of_decide_eq_true (List.all_eq_true.1 h b hb)
  rw [toNat_char_of_lt hlt]
  exact UInt8.lt_iff_toNat_lt.1 hlt

theorem utf8_ofAscii {bytes : List UInt8} (h : isAscii bytes = true) : utf8 (ofAscii bytes) = bytes := by
  rw [utf8_eq_map fun c => lt_of_mem_ofAscii h, ofAscii, List.map_map]
  refine (List.map_congr_left fun b hb => ?_).trans (List.map_id bytes)
  have hlt : b < 128 := of_decide_eq_true (List.all_eq_true.1 h b hb)
  rw [Function.comp_apply, toNat_char_of_lt hlt, UInt8.ofNat_toNat, id]

/-! ## Splices -/

/-- New bytes for those from `start` up to `stop`. -/
structure Splice where
  start : Nat
  stop : Nat
  bytes : List UInt8

/-- The bytes with the new ones in the place of the old. -/
def Splice.into (splice : Splice) (bytes : List UInt8) : List UInt8 :=
  bytes.take splice.start ++ splice.bytes ++ bytes.drop splice.stop

theorem Splice.into_append (front old new back : List UInt8) :
    (⟨front.length, front.length + old.length, new⟩ : Splice).into (front ++ (old ++ back)) =
      front ++ (new ++ back) := by
  rw [into, List.take_left, ← List.append_assoc front old, ← List.length_append, List.drop_left, List.append_assoc]

end SerialContract
