import SerialContract.Proofs.Text.Cut

/-!
# Words that keep clear of a text

A word that occurs where three texts stand one behind the other occurs in the first or in the last of them, if the one
in the middle has a character that the word lacks and nothing that could begin or end the word beyond it.
-/

namespace SerialContract

variable {α : Type} {word front middle back : List α}

theorem infix_right_of_append (hfirst : ∀ c ∈ word.head?, c ∉ front) (h : word <:+: front ++ back) :
    word <:+: back := by
  induction front with
  | nil => exact h
  | cons d front ih =>
      rcases List.infix_cons_iff.1 h with hhere | hlater
      · cases word with
        | nil => exact List.nil_infix
        | cons c word =>
            obtain ⟨rfl, _⟩ := List.cons_prefix_cons.1 hhere
            exact absurd List.mem_cons_self (hfirst c rfl)
      · exact ih (fun c hc hmem => hfirst c hc (List.mem_cons_of_mem _ hmem)) hlater

theorem infix_left_of_append (hlast : ∀ c ∈ word.getLast?, c ∉ back) (h : word <:+: front ++ back) :
    word <:+: front := by
  rw [← List.reverse_infix, List.reverse_append] at h
  rw [← List.reverse_infix]
  refine infix_right_of_append (fun c hc => ?_) h
  rw [List.head?_reverse] at hc
  rw [List.mem_reverse]
  exact hlast c hc

/-- No word that occurs in three texts one behind the other needs the one in the middle. -/
def Apart (word middle : List α) : Prop :=
  ∀ before after, word <:+: before ++ (middle ++ after) → word <:+: before ∨ word <:+: after

/-- The word lacks a character, does not end in front of it, and does not begin behind it. -/
theorem apart_of_split {c : α} (hc : c ∉ word) (hlast : ∀ d ∈ word.getLast?, d ∉ front)
    (hfirst : ∀ d ∈ word.head?, d ∉ back) : Apart word (front ++ c :: back) := by
  intro before after h
  have hsplit : before ++ (front ++ c :: back ++ after) = (before ++ front) ++ c :: (back ++ after) := by
    simp only [List.append_assoc, List.cons_append]
  rw [hsplit] at h
  exact (infix_of_infix_append_cons hc h).imp (infix_left_of_append hlast) (infix_right_of_append hfirst)

/-- The word lacks the characters at both ends and does not occur between them. -/
theorem apart_of_enclosed {c d : α} (hc : c ∉ word) (hd : d ∉ word) (hmiddle : ¬ word <:+: middle) :
    Apart word (c :: (middle ++ [d])) := by
  intro before after h
  rw [List.cons_append, List.append_assoc, List.singleton_append] at h
  refine (infix_of_infix_append_cons hc h).imp_right fun hbehind => ?_
  exact (infix_of_infix_append_cons hd hbehind).resolve_left hmiddle

end SerialContract
