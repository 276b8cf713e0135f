import Mathlib.Data.List.Nodup
import SerialContract.Proofs.Contract.Identifier

/-!
# What camel case forgets

Camel case leaves out underscores and raises the letters behind them. An underscore behind which no letter
follows, but another underscore, a digit or nothing, leaves no trace. The others can be told from the capitals, so
two names have the same camel case if and only if their snake cases are the same up to underscores of that kind.
-/

namespace SerialContract

/-! ## Small letters and capitals -/

theorem toLower_of_not_isUpper {c : Char} (h : c.isUpper = false) : c.toLower = c :=
  dif_neg fun hle => Bool.false_ne_true (h.symm.trans (decide_eq_true hle))

theorem isUpper_toLower (c : Char) : c.toLower.isUpper = false := by
  cases hupper : c.isUpper with
  | true =>
      exact forall_ascii (fun d => d.toLower.isUpper = false) (by decide)
        (lt_of_isAlpha (Bool.or_eq_true_iff.2 (.inl hupper)))
  | false => rw [toLower_of_not_isUpper hupper, hupper]

theorem isUpper_toUpper {c : Char} (h : c.isLower = true) : c.toUpper.isUpper = true ∧ c.toUpper.toLower = c := by
  exact forall_ascii (fun d => d.isLower = true → d.toUpper.isUpper = true ∧ d.toUpper.toLower = d)
    (by decide) (lt_of_isAlpha (Bool.or_eq_true_iff.2 (.inr h))) h

theorem toUpper_of_not_isLower {c : Char} (h : c.isLower = false) : c.toUpper = c := by
  refine dif_neg fun hle => ?_
  have hsmall : c.isLower = true := Bool.and_eq_true_iff.2 ⟨decide_eq_true hle.1, decide_eq_true hle.2⟩
  exact Bool.false_ne_true (h.symm.trans hsmall)

theorem isUpper_of_mem_snakeFrom {before : Option Char} {text : List Char} :
    ∀ c ∈ snakeFrom before text, c.isUpper = false := by
  induction text generalizing before with
  | nil => exact List.forall_mem_nil _
  | cons c rest ih =>
      have hlowered : ∀ d ∈ c.toLower :: snakeFrom (some c) rest, d.isUpper = false :=
        List.forall_mem_cons.2 ⟨isUpper_toLower c, ih⟩
      rw [snakeFrom]
      split
      · exact List.forall_mem_cons.2 ⟨rfl, hlowered⟩
      · exact hlowered

/-! ## Underscores that leave a trace -/

/-- Whether a small letter comes first. -/
def startsSmall (text : List Char) : Bool := text.head?.any Char.isLower

theorem startsSmall_cons (c : Char) (rest : List Char) : startsSmall (c :: rest) = c.isLower := rfl

/-- The characters without the underscores behind which no small letter follows. -/
def tidyFrom : List Char → List Char
  | [] => []
  | c :: rest => if c = '_' ∧ startsSmall rest = false then tidyFrom rest else c :: tidyFrom rest

/-- A snake-case name without the underscores that camel case forgets. One at the front is kept. -/
def tidySpelling : List Char → List Char
  | [] => []
  | c :: rest => c :: tidyFrom rest

/-- The snake case of a name without the underscores that camel case forgets. -/
def tidySnakeCase (name : String) : String :=
  String.ofList (tidySpelling (snakeFrom none name.toList))

/-- Whether camel case forgets none of the underscores: behind each but one at the front a small letter follows. -/
def Tidy (name : String) : Prop :=
  ∀ front back, (snakeCase name).toList = front ++ '_' :: back → front ≠ [] → startsSmall back = true

section Spellings

variable {text : List Char}

theorem joinFrom_of_not_startsSmall (h : startsSmall text = false) (raise : Bool) :
    joinFrom raise text = joinFrom true text := by
  cases text with
  | nil => rfl
  | cons c rest =>
      have hsmall : c.isLower = false := h
      rw [joinFrom, joinFrom, toUpper_of_not_isLower hsmall, ite_self, ite_self]

/-- Camel case forgets these underscores. -/
theorem joinFrom_tidyFrom (raise : Bool) (text : List Char) : joinFrom raise (tidyFrom text) = joinFrom raise text := by
  induction text generalizing raise with
  | nil => rfl
  | cons c rest ih =>
      rw [tidyFrom]
      split
      · next hforgotten =>
        rw [ih, joinFrom_of_not_startsSmall hforgotten.2, joinFrom, if_pos hforgotten.1]
      · rw [joinFrom, joinFrom, ih, ih]

/-- An underscore in front of every capital, which becomes small. -/
def splitCapitals : List Char → List Char
  | [] => []
  | c :: rest => if c.isUpper then '_' :: c.toLower :: splitCapitals rest else c :: splitCapitals rest

theorem tidyFrom_forgotten (h : startsSmall text = false) : tidyFrom ('_' :: text) = tidyFrom text :=
  if_pos ⟨rfl, h⟩

theorem tidyFrom_traced (h : startsSmall text = true) : tidyFrom ('_' :: text) = '_' :: tidyFrom text :=
  if_neg fun hc => Bool.false_ne_true (hc.2.symm.trans h)

theorem tidyFrom_cons {c : Char} (h : c ≠ '_') : tidyFrom (c :: text) = c :: tidyFrom text :=
  if_neg fun hc => h hc.1

/-- To split the capitals again gives back all that has left a trace. -/
theorem splitCapitals_joinFrom (h : ∀ c ∈ text, c.isUpper = false) :
    splitCapitals (joinFrom false text) = tidyFrom text ∧
      splitCapitals (joinFrom true text) = tidyFrom ('_' :: text) := by
  induction text with
  | nil => exact ⟨rfl, rfl⟩
  | cons c rest ih =>
      rw [List.forall_mem_cons] at h
      obtain ⟨hlow, hraised⟩ := ih h.2
      by_cases hunderscore : c = '_'
      · subst hunderscore
        have hforgotten : tidyFrom ('_' :: '_' :: rest) = tidyFrom ('_' :: rest) := tidyFrom_forgotten rfl
        rw [joinFrom, joinFrom, if_pos rfl, if_pos rfl, hraised, hforgotten]
        exact ⟨rfl, rfl⟩
      · rw [joinFrom, joinFrom, if_neg hunderscore, if_neg hunderscore]
        constructor
        · rw [tidyFrom_cons hunderscore, if_neg Bool.false_ne_true, splitCapitals, h.1, hlow]
          rfl
        · rw [if_pos rfl, splitCapitals, hlow]
          cases hsmall : c.isLower with
          | true =>
              obtain ⟨hupper, hlower⟩ := isUpper_toUpper hsmall
              rw [hupper, hlower, tidyFrom_traced ((startsSmall_cons c rest).trans hsmall), tidyFrom_cons hunderscore]
              rfl
          | false =>
              rw [toUpper_of_not_isLower hsmall, h.1, tidyFrom_forgotten ((startsSmall_cons c rest).trans hsmall),
                tidyFrom_cons hunderscore]
              rfl

theorem joinFrom_inj {other : List Char} (htext : ∀ c ∈ text, c.isUpper = false)
    (hother : ∀ c ∈ other, c.isUpper = false) :
    joinFrom false text = joinFrom false other ↔ tidyFrom text = tidyFrom other := by
  constructor
  · intro h
    rw [← (splitCapitals_joinFrom htext).1, h, (splitCapitals_joinFrom hother).1]
  · intro h
    rw [← joinFrom_tidyFrom, h, joinFrom_tidyFrom]

theorem camelSpelling_inj {other : List Char} (htext : ∀ c ∈ text, c.isUpper = false)
    (hother : ∀ c ∈ other, c.isUpper = false) :
    camelSpelling text = camelSpelling other ↔ tidySpelling text = tidySpelling other := by
  match text, other with
  | [], [] => exact Iff.rfl
  | [], _ :: _ => exact ⟨fun h => (by cases h), fun h => (by cases h)⟩
  | _ :: _, [] => exact ⟨fun h => (by cases h), fun h => (by cases h)⟩
  | c :: rest, d :: more =>
      rw [List.forall_mem_cons] at htext hother
      rw [camelSpelling, camelSpelling, tidySpelling, tidySpelling, List.cons.injEq, List.cons.injEq,
        joinFrom_inj htext.2 hother.2]

theorem length_tidyFrom_le (text : List Char) : (tidyFrom text).length ≤ text.length := by
  induction text with
  | nil => exact Nat.le_refl _
  | cons c rest ih =>
      rw [tidyFrom]
      split
      · exact Nat.le_succ_of_le ih
      · exact Nat.succ_le_succ ih

theorem tidyFrom_eq_self :
    tidyFrom text = text ↔ ∀ front back, text = front ++ '_' :: back → startsSmall back = true := by
  induction text with
  | nil => exact ⟨fun _ front back heq => absurd heq.symm (by simp), fun _ => rfl⟩
  | cons c rest ih =>
      rw [tidyFrom]
      split
      · next hforgotten =>
        have hlength := length_tidyFrom_le rest
        refine ⟨fun heq => ?_, fun h => ?_⟩
        · rw [heq, List.length_cons] at hlength
          omega
        · have htraced := h [] rest (by rw [hforgotten.1]; rfl)
          exact absurd (htraced.symm.trans hforgotten.2) (by decide)
      · next hkept =>
        rw [List.cons.injEq, ih]
        constructor
        · rintro ⟨_, h⟩ front back heq
          cases front with
          | nil =>
              obtain ⟨hc, rfl⟩ := List.cons.inj heq
              exact eq_true_of_ne_false fun hnone => hkept ⟨hc, hnone⟩
          | cons d front =>
              obtain ⟨_, rfl⟩ := List.cons.inj heq
              exact h front back rfl
        · intro h
          exact ⟨rfl, fun front back heq => h (c :: front) back (by rw [heq]; rfl)⟩

end Spellings

/-! ## Names -/

/-- Names have the same camel case if and only if the snake cases differ at most in what camel case forgets. -/
theorem camelCase_eq_iff {a b : String} : camelCase a = camelCase b ↔ tidySnakeCase a = tidySnakeCase b := by
  rw [camelCase, camelCase, tidySnakeCase, tidySnakeCase, String.ofList_inj, String.ofList_inj]
  exact camelSpelling_inj isUpper_of_mem_snakeFrom isUpper_of_mem_snakeFrom

theorem tidy_iff {name : String} : Tidy name ↔ tidySnakeCase name = snakeCase name := by
  rw [Tidy, snakeCase, String.toList_ofList, tidySnakeCase, String.ofList_inj]
  cases snakeFrom none name.toList with
  | nil => exact ⟨fun _ => rfl, fun _ front back heq => absurd heq.symm (by simp)⟩
  | cons c rest =>
      rw [tidySpelling, List.cons.injEq, tidyFrom_eq_self]
      constructor
      · intro h
        exact ⟨rfl, fun front back heq => h (c :: front) back (by rw [heq]; rfl) (List.cons_ne_nil c front)⟩
      · rintro ⟨_, h⟩ front back heq hne
        obtain ⟨d, front, rfl⟩ := List.exists_cons_of_ne_nil hne
        obtain ⟨_, rfl⟩ := List.cons.inj heq
        exact h front back rfl

instance (name : String) : Decidable (Tidy name) :=
  decidable_of_iff _ tidy_iff.symm

theorem nodup_camelCase_iff {names : List String} : (names.map camelCase).Nodup ↔ (names.map tidySnakeCase).Nodup := by
  simp only [List.Nodup, List.pairwise_map, ne_eq, camelCase_eq_iff]

end SerialContract
