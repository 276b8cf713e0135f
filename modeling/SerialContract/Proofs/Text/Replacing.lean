import Mathlib.Data.List.SplitBy
import SerialContract.Contract.Identifier
import SerialContract.Proofs.Text.Cut

/-!
# Words replaced in programs

Every occurrence of a word in a text is replaced, from left to right. In a program it matters what the word replaces:
whole tokens, or parts of them, and whether it reaches into the literals. This is read off the text of the program
here, and it is told for a text that is put together from others at characters that no token goes across.
-/

namespace SerialContract

section Replacing

variable {α : Type} [DecidableEq α]

/-- The list behind its first `skipped` elements, with every occurrence of `old` in it replaced. -/
def replaceAfter (old new : List α) : Nat → List α → List α
  | _, [] => []
  | skipped + 1, _ :: rest => replaceAfter old new skipped rest
  | 0, c :: rest =>
    if old.isPrefixOf (c :: rest) then new ++ replaceAfter old new (old.length - 1) rest
    else c :: replaceAfter old new 0 rest

/-- The list with every occurrence of `old` replaced by `new`, from left to right. -/
def replaceEvery (old new list : List α) : List α :=
  replaceAfter old new 0 list

variable {old new : List α}

theorem replaceEvery_nil : replaceEvery old new [] = [] := rfl

theorem replaceAfter_eq_drop (skipped : Nat) (list : List α) :
    replaceAfter old new skipped list = replaceEvery old new (list.drop skipped) := by
  induction list generalizing skipped with
  | nil =>
      rw [List.drop_nil]
      cases skipped <;> rfl
  | cons c rest ih =>
      cases skipped with
      | zero => rfl
      | succ skipped => exact ih skipped

theorem replaceEvery_cons {c : α} {rest : List α} (h : ¬ old <+: c :: rest) :
    replaceEvery old new (c :: rest) = c :: replaceEvery old new rest := by
  rw [← List.isPrefixOf_iff_prefix] at h
  rw [replaceEvery, replaceAfter, if_neg h, replaceEvery]

theorem replaceEvery_append (hne : old ≠ []) (rest : List α) :
    replaceEvery old new (old ++ rest) = new ++ replaceEvery old new rest := by
  obtain ⟨c, more, rfl⟩ := List.exists_cons_of_ne_nil hne
  have hprefix : (c :: more).isPrefixOf (c :: (more ++ rest)) = true :=
    List.isPrefixOf_iff_prefix.2 (List.prefix_append (c :: more) rest)
  rw [List.cons_append, replaceEvery, replaceAfter, if_pos hprefix, replaceAfter_eq_drop, List.length_cons,
    Nat.add_sub_cancel, List.drop_left]

theorem replaceEvery_of_absent {list : List α} (h : ¬ old <:+: list) : replaceEvery old new list = list := by
  induction list with
  | nil => rfl
  | cons c rest ih =>
      rw [List.infix_cons_iff, not_or] at h
      rw [replaceEvery_cons h.1, ih h.2]

/-- No occurrence goes across an element that is not replaced. -/
theorem replaceEvery_append_cons (hne : old ≠ []) {c : α} (hc : c ∉ old) (front back : List α) :
    replaceEvery old new (front ++ c :: back) = replaceEvery old new front ++ c :: replaceEvery old new back := by
  induction hlength : front.length using Nat.strong_induction_on generalizing front with
  | _ length ih =>
      subst hlength
      cases front with
      | nil =>
          refine replaceEvery_cons fun hprefix => hne ?_
          exact List.prefix_nil.1 (prefix_of_prefix_append_cons hc hprefix)
      | cons d front =>
          by_cases hprefix : old <+: d :: front
          · obtain ⟨more, hmore⟩ := hprefix
            have hshorter : more.length < (d :: front).length := by
              rw [← hmore, List.length_append]
              exact Nat.lt_add_of_pos_left (List.length_pos_iff.2 hne)
            rw [← hmore, List.append_assoc, replaceEvery_append hne, replaceEvery_append hne, ih _ hshorter _ rfl,
              List.append_assoc]
          · have hwhole : ¬ old <+: d :: (front ++ c :: back) := fun h =>
              hprefix (prefix_of_prefix_append_cons hc h)
            rw [List.cons_append, replaceEvery_cons hwhole, replaceEvery_cons hprefix,
              ih _ (Nat.lt_succ_self _) _ rfl, List.cons_append]

end Replacing

/-! ## Tokens -/

/-- The tokens of a program: identifiers and numbers as a whole, and all other characters one by one. -/
def tokens (program : List Char) : List (List Char) :=
  program.splitBy fun c d => isIdentifierPart c && isIdentifierPart d

theorem flatten_tokens (program : List Char) : (tokens program).flatten = program :=
  List.flatten_splitBy _ _

theorem tokens_ne_nil {program : List Char} (h : program ≠ []) : tokens program ≠ [] :=
  List.splitBy_ne_nil.2 h

theorem infix_of_tokens {word program : List Char} (h : tokens word <:+: tokens program) : word <:+: program := by
  obtain ⟨front, back, hprogram⟩ := h
  refine ⟨front.flatten, back.flatten, ?_⟩
  rw [← flatten_tokens program, ← hprogram, List.flatten_append, List.flatten_append, flatten_tokens]

theorem tokens_append_cons {c : Char} (hc : isIdentifierPart c = false) (front back : List Char) :
    tokens (front ++ c :: back) = tokens front ++ [c] :: tokens back := by
  have hfront : ∀ d ∈ front.getLast?, (isIdentifierPart d && isIdentifierPart c) = false := by simp [hc]
  have hback : ∀ d ∈ [c].getLast?, ∀ e ∈ back.head?, (isIdentifierPart d && isIdentifierPart e) = false := by simp [hc]
  rw [tokens, List.splitBy_append_cons _ hfront, ← List.singleton_append, List.splitBy_append hback]
  rfl

theorem singleton_notMem_tokens {c : Char} {word : List Char} (hc : c ∉ word) : [c] ∉ tokens word := by
  intro hmem
  refine hc ?_
  rw [← flatten_tokens word]
  exact List.mem_flatten.2 ⟨[c], hmem, List.mem_singleton_self c⟩

/-! ## Literals -/

/-- Where in a program a reader is: outside of literals, or in one of which it has read some characters, the last of
them first; there behind a backslash or not. -/
inductive Place where
  | code
  | literal (read : List Char)
  | escape (read : List Char)
  deriving DecidableEq

/-- Where a character leads. -/
def Place.next : Place → Char → Place
  | code, c => if c = '"' then literal [] else code
  | literal read, c => if c = '"' then code else if c = '\\' then escape (c :: read) else literal (c :: read)
  | escape read, c => literal (c :: read)

/-- The literal that a character closes. -/
def Place.closed? : Place → Char → Option (List Char)
  | literal read, c => if c = '"' then some read.reverse else none
  | _, _ => none

/-- The literals that are closed in a text. -/
def literalsFrom (place : Place) : List Char → List (List Char)
  | [] => []
  | c :: rest => (place.closed? c).toList ++ literalsFrom (place.next c) rest

/-- The string literals of a program, as they are spelt between their quotes. -/
def literals (program : List Char) : List (List Char) :=
  literalsFrom .code program

/-- Whether every literal of a text is closed in it. -/
def Closed (text : List Char) : Prop :=
  text.foldl Place.next .code = .code

instance (text : List Char) : Decidable (Closed text) :=
  inferInstanceAs (Decidable (_ = _))

theorem literalsFrom_append (place : Place) (front back : List Char) :
    literalsFrom place (front ++ back) =
      literalsFrom place front ++ literalsFrom (front.foldl Place.next place) back := by
  induction front generalizing place with
  | nil => rfl
  | cons c front ih => rw [List.cons_append, literalsFrom, literalsFrom, ih, List.append_assoc, List.foldl_cons]

section Closed

variable {front back text : List Char}

theorem Closed.append (hfront : Closed front) (hback : Closed back) : Closed (front ++ back) := by
  rw [Closed, List.foldl_append, hfront, hback]

theorem Closed.literals_append (h : Closed front) (back : List Char) :
    literals (front ++ back) = literals front ++ literals back := by
  rw [literals, literalsFrom_append, h, literals, literals]

theorem closed_of_notMem (h : '"' ∉ text) : Closed text := by
  induction text with
  | nil => rfl
  | cons c text ih =>
      rw [List.mem_cons, not_or] at h
      rw [Closed, List.foldl_cons, Place.next, if_neg (Ne.symm h.1)]
      exact ih h.2

theorem foldl_next_literal (hquote : '"' ∉ text) (hbackslash : '\\' ∉ text) (read : List Char) :
    text.foldl Place.next (.literal read) = .literal (text.reverse ++ read) := by
  induction text generalizing read with
  | nil => rfl
  | cons c text ih =>
      rw [List.mem_cons, not_or] at hquote hbackslash
      rw [List.foldl_cons, Place.next, if_neg (Ne.symm hquote.1), if_neg (Ne.symm hbackslash.1),
        ih hquote.2 hbackslash.2, List.reverse_cons, List.append_assoc, List.singleton_append]

theorem closed_quoted (hquote : '"' ∉ text) (hbackslash : '\\' ∉ text) : Closed ('"' :: (text ++ ['"'])) := by
  have hopened : Place.code.next '"' = .literal [] := rfl
  rw [Closed, List.foldl_cons, List.foldl_append, hopened, foldl_next_literal hquote hbackslash]
  rfl

/-- A literal with what stands around it. -/
theorem closed_around (hfront : '"' ∉ front) (hquote : '"' ∉ text) (hbackslash : '\\' ∉ text) (hback : '"' ∉ back) :
    Closed (front ++ '"' :: (text ++ '"' :: back)) := by
  have hliteral : '"' :: (text ++ '"' :: back) = '"' :: (text ++ ['"']) ++ back := by simp
  rw [hliteral]
  exact (closed_of_notMem hfront).append ((closed_quoted hquote hbackslash).append (closed_of_notMem hback))

end Closed

/-! ## Replacing tokens -/

/-- To replace a word in a program replaces whole tokens, and leaves the literals as they are. -/
structure Faithful (old new program : List Char) : Prop where
  closed : Closed program
  closes : Closed (replaceEvery old new program)
  literals_eq : literals (replaceEvery old new program) = literals program
  tokens_eq : tokens (replaceEvery old new program) = replaceEvery (tokens old) (tokens new) (tokens program)

instance (old new program : List Char) : Decidable (Faithful old new program) :=
  decidable_of_iff (Closed program ∧ Closed (replaceEvery old new program) ∧
      literals (replaceEvery old new program) = literals program ∧
      tokens (replaceEvery old new program) = replaceEvery (tokens old) (tokens new) (tokens program))
    ⟨fun ⟨hclosed, hcloses, hliterals, htokens⟩ => ⟨hclosed, hcloses, hliterals, htokens⟩,
      fun h => ⟨h.closed, h.closes, h.literals_eq, h.tokens_eq⟩⟩

section Faithful

variable {old new front back : List Char}

/-- Where the word does not occur, nothing is replaced. -/
theorem faithful_of_absent {program : List Char} (h : ¬ old <:+: program) (hclosed : Closed program) :
    Faithful old new program := by
  have hsame : replaceEvery old new program = program := replaceEvery_of_absent h
  have htokens : replaceEvery (tokens old) (tokens new) (tokens program) = tokens program :=
    replaceEvery_of_absent fun hoccurs => h (infix_of_tokens hoccurs)
  refine ⟨hclosed, ?_, ?_, ?_⟩
  · rwa [hsame]
  · rw [hsame]
  · rw [hsame, htokens]

/-- Texts are put together at a character that is neither part of an identifier nor of the word nor a quote. -/
theorem Faithful.append_cons (hne : old ≠ []) {c : Char} (hc : c ∉ old) (hidentifier : isIdentifierPart c = false)
    (hquote : c ≠ '"') (hfront : Faithful old new front) (hback : Faithful old new back) :
    Faithful old new (front ++ c :: back) := by
  have hreplaced : replaceEvery old new (front ++ c :: back) =
      replaceEvery old new front ++ c :: replaceEvery old new back := replaceEvery_append_cons hne hc front back
  have hone : Closed [c] := closed_of_notMem (mt List.mem_singleton.1 hquote.symm)
  have hliterals : ∀ text : List Char, literals (c :: text) = literals text := by
    intro text
    have hcode : Place.code.next c = .code := if_neg hquote
    rw [literals, literalsFrom, hcode]
    rfl
  refine ⟨hfront.closed.append (hone.append hback.closed), ?_, ?_, ?_⟩
  · rw [hreplaced]
    exact hfront.closes.append (hone.append hback.closes)
  · rw [hreplaced, hfront.closes.literals_append, hfront.closed.literals_append, hliterals, hliterals,
      hfront.literals_eq, hback.literals_eq]
  · rw [hreplaced, tokens_append_cons hidentifier, tokens_append_cons hidentifier,
      replaceEvery_append_cons (tokens_ne_nil hne) (singleton_notMem_tokens hc), hfront.tokens_eq, hback.tokens_eq]

end Faithful

end SerialContract
