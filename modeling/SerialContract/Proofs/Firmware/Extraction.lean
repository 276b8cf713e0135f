import SerialContract.Proofs.Firmware.Wrapper

/-!
# What a wrapper reads

A wrapper takes arguments of a request by their names, which are string literals in its text. They are read off the
text here: they are the names of the fields that carry values, in their order. The names of types stand in that text
as the contract gives them, and one in which an argument is taken adds its name to them.
-/

namespace SerialContract.Firmware

/-! ## Keys -/

/-- What stands in front of the name of an argument that is taken. -/
def extraction : List Char := ['(', 'p', 'a', 'r', 's', 'e', 'd', ',', ' ', '"']

/-- The names of the arguments that a program takes, wherever one is taken in it. -/
def keys : List Char → List (List Char)
  | [] => []
  | c :: rest =>
    match extraction.isPrefixOf? (c :: rest) with
    | some behind => behind.takeWhile (· != '"') :: keys rest
    | none => keys rest

theorem keys_cons_of_not_starts {c : Char} {rest : List Char} (h : ¬ extraction <+: c :: rest) :
    keys (c :: rest) = keys rest := by
  rw [keys, isPrefixOf?_eq_none h]

theorem length_keys_cons (c : Char) (rest : List Char) :
    (keys (c :: rest)).length = (if extraction <+: c :: rest then 1 else 0) + (keys rest).length := by
  split
  · next hprefix =>
    obtain ⟨behind, hbehind⟩ := hprefix
    rw [keys, List.isPrefixOf?_eq_some_iff_append_eq.2 hbehind, List.length_cons, Nat.add_comm]
  · next hprefix => rw [keys_cons_of_not_starts hprefix, Nat.zero_add]

/-- What two programs take is taken, if not under the same names, where one stands in front of the other. -/
theorem length_keys_append_ge (front rest : List Char) :
    (keys front).length + (keys rest).length ≤ (keys (front ++ rest)).length := by
  induction front with
  | nil => rw [keys, List.length_nil, Nat.zero_add, List.nil_append]
  | cons c front ih =>
      rw [List.cons_append, length_keys_cons, length_keys_cons]
      by_cases hprefix : extraction <+: c :: front
      · have hlonger : extraction <+: c :: (front ++ rest) := hprefix.trans (List.prefix_append (c :: front) rest)
        rw [if_pos hprefix, if_pos hlonger]
        omega
      · rw [if_neg hprefix]
        omega

/-- A text in which no name of an argument begins. -/
def Keyless (text : List Char) : Prop := ¬ extraction <:+: text

/-- The name that is taken ends in front of the first quote. -/
theorem keys_extraction {name : List Char} (hquote : '"' ∉ name) (rest : List Char) :
    keys (extraction ++ (name ++ '"' :: rest)) = name :: keys (extraction.tail ++ (name ++ '"' :: rest)) := by
  have hname : ∀ c ∈ name, (c != '"') = true := fun c hc => bne_iff_ne.2 fun heq => hquote (heq ▸ hc)
  have hcons : extraction ++ (name ++ '"' :: rest) = '(' :: (extraction.tail ++ (name ++ '"' :: rest)) := rfl
  have hbehind : extraction.isPrefixOf? (extraction ++ (name ++ '"' :: rest)) = some (name ++ '"' :: rest) :=
    List.isPrefixOf?_eq_some_iff_append_eq.2 rfl
  rw [hcons] at hbehind ⊢
  rw [keys, hbehind]
  dsimp only
  rw [List.takeWhile_append_of_pos hname, List.takeWhile_cons_of_neg (by decide), List.append_nil]

/-- A text without quotes ends no beginning of a name that stands in front of it. -/
theorem Keyless.append {before after : List Char} (hbefore : Keyless before) (hafter : '"' ∉ after) :
    Keyless (before ++ after) := by
  intro hwithin
  rcases List.infix_append_iff_ne_nil.1 hwithin with h | h | ⟨start, stop, _, hne, heq, _, hstop⟩
  · exact hbefore h
  · exact hafter (h.subset (by decide))
  · have hlast : stop.getLast hne = '"' := by
      have hquote : extraction.getLast? = some '"' := rfl
      rw [heq, List.getLast?_append_of_ne_nil _ hne, List.getLast?_eq_some_getLast hne] at hquote
      exact Option.some.inj hquote
    exact hafter (hstop.subset (hlast ▸ List.getLast_mem hne))

/-! ## Programs in front of others -/

/-- In front of every program, this one takes arguments of these names, and then that takes its own. -/
def Extracts (program : List Char) (taken : List (List Char)) : Prop :=
  ∀ rest, keys (program ++ rest) = taken ++ keys rest

namespace Extracts

variable {program more front name : List Char} {taken others : List (List Char)}

theorem nil : Extracts [] [] :=
  fun _ => rfl

theorem append (h : Extracts program taken) (hmore : Extracts more others) :
    Extracts (program ++ more) (taken ++ others) := by
  intro rest
  rw [List.append_assoc, h, hmore, List.append_assoc]

theorem flatMap {α : Type} {items : List α} {text : α → List Char} {found : α → List (List Char)}
    (h : ∀ item ∈ items, Extracts (text item) (found item)) : Extracts (items.flatMap text) (items.flatMap found) := by
  induction items with
  | nil => exact nil
  | cons item items ih =>
      rw [List.forall_mem_cons] at h
      exact h.1.append (ih h.2)

theorem plain (h : '(' ∉ program) : Extracts program [] := by
  intro rest
  induction program with
  | nil => rfl
  | cons c program ih =>
      rw [List.mem_cons, not_or] at h
      rw [List.cons_append, keys_cons_of_not_starts, ih h.2]
      intro hprefix
      exact h.1 (List.cons_prefix_cons.1 hprefix).1

/-- No key that begins in the text ends behind it, if a character stands there that is not in front of keys. -/
theorem ended {c : Char} (h : Keyless front) (hc : c ∉ extraction) : Extracts (front ++ [c]) [] := by
  intro rest
  rw [List.append_assoc, List.singleton_append, List.nil_append]
  induction front with
  | nil =>
      rw [List.nil_append, keys_cons_of_not_starts]
      intro hprefix
      exact hc ((List.cons_prefix_cons.1 hprefix).1 ▸ List.mem_cons_self)
  | cons d front ih =>
      rw [List.cons_append, keys_cons_of_not_starts, ih]
      · exact fun hwithin => h (hwithin.trans (List.suffix_cons d front).isInfix)
      · intro hprefix
        rw [← List.cons_append] at hprefix
        exact h (prefix_of_prefix_append_cons hc hprefix).isInfix

theorem key (hquote : '"' ∉ name) (hopening : '(' ∉ name) : Extracts (extraction ++ (name ++ ['"'])) [name] := by
  intro rest
  -- behind its beginning the text has no opening parenthesis, so nothing else is taken in it
  have hlater : Extracts (extraction.tail ++ (name ++ ['"'])) [] := by
    apply plain
    simp only [List.mem_append, not_or]
    exact ⟨by decide, hopening, by decide⟩
  have htail := hlater rest
  rw [List.append_assoc, List.append_assoc, List.singleton_append, List.nil_append] at htail
  rw [List.append_assoc, List.append_assoc, List.singleton_append, keys_extraction hquote, htail,
    List.singleton_append]

theorem line {text : String} (h : Keyless text.toList) : Extracts (line text).toList [] := by
  rw [SerialContract.line, String.toList_append]
  exact ended h (by decide)

end Extracts

/-! ## The lines of a wrapper -/

section Wrapper

variable {mapping : TypeMapping} {e : Exchange} {h : Handler}

/-- A program that takes so many arguments at least. -/
def TakesAtLeast (count : Nat) (program : List Char) : Prop :=
  count ≤ (keys program).length

theorem TakesAtLeast.append {count more : Nat} {program rest : List Char} (h : TakesAtLeast count program)
    (hrest : TakesAtLeast more rest) : TakesAtLeast (count + more) (program ++ rest) :=
  (Nat.add_le_add h hrest).trans (length_keys_append_ge program rest)

end Wrapper

end SerialContract.Firmware
