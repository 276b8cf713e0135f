import SerialContract.Proofs.Text.Cut

/-!
# Spellings that end by themselves

Items are spelt so that a reader sees where a spelling ends, whatever stands behind it: then two texts that begin
with spellings are the same only if the items and the rests are. Spellings are put together from others, one behind
another or in lists, and keep to this.
-/

namespace SerialContract

/-- No text begins with the spellings of two items of a kind. -/
def SelfEnding {α : Type} (kind : α → Prop) (spell : α → List Char) : Prop :=
  ∀ ⦃a b⦄, kind a → kind b → ∀ ⦃rest rest'⦄, spell a ++ rest = spell b ++ rest' → a = b ∧ rest = rest'

namespace SelfEnding

variable {α β : Type} {kind : α → Prop} {spell : α → List Char}

/-- What is read back ends by itself. -/
theorem of_read {γ : Type} (read : List Char → Option (γ × List Char)) {view : α → γ}
    (hview : ∀ a b, kind a → kind b → view a = view b → a = b)
    (hread : ∀ a rest, kind a → read (spell a ++ rest) = some (view a, rest)) : SelfEnding kind spell := by
  intro a b ha hb rest rest' h
  have hboth := hread a rest ha
  rw [h, hread b rest' hb, Option.some.injEq, Prod.mk.injEq] at hboth
  exact ⟨hview a b ha hb hboth.1.symm, hboth.2.symm⟩

/-- A spelling with a character behind it that it does not have itself. -/
theorem upTo {c : Char} (hc : ∀ a, kind a → c ∉ spell a)
    (hinj : ∀ a b, kind a → kind b → spell a = spell b → a = b) : SelfEnding kind fun a => spell a ++ [c] := by
  refine of_read (cutAt c) hinj fun a rest ha => ?_
  rw [List.append_assoc]
  exact cutAt_append (hc a ha) rest

theorem behind (h : SelfEnding kind spell) (front : List Char) : SelfEnding kind fun a => front ++ spell a := by
  intro a b ha hb rest rest' heq
  rw [List.append_assoc, List.append_assoc] at heq
  exact h ha hb (List.append_cancel_left heq)

theorem before (h : SelfEnding kind spell) (back : List Char) : SelfEnding kind fun a => spell a ++ back := by
  intro a b ha hb rest rest' heq
  rw [List.append_assoc, List.append_assoc] at heq
  obtain ⟨rfl, hrest⟩ := h ha hb heq
  exact ⟨rfl, List.append_cancel_left hrest⟩

theorem pair (h : SelfEnding kind spell) {other : β → Prop} {spell' : β → List Char}
    (h' : SelfEnding other spell') :
    SelfEnding (fun both : α × β => kind both.1 ∧ other both.2) fun both => spell both.1 ++ spell' both.2 := by
  rintro ⟨a, b⟩ ⟨a', b'⟩ ⟨ha, hb⟩ ⟨ha', hb'⟩ rest rest' heq
  rw [List.append_assoc, List.append_assoc] at heq
  obtain ⟨rfl, hbehind⟩ := h ha ha' heq
  obtain ⟨rfl, rfl⟩ := h' hb hb' hbehind
  exact ⟨rfl, rfl⟩

/-- Items are spelt as their parts are. -/
theorem of_parts (h : SelfEnding kind spell) {other : β → Prop} {spell' : β → List Char} (parts : β → α)
    (hparts : ∀ b, other b → kind (parts b) ∧ spell' b = spell (parts b))
    (hinj : ∀ a b, other a → other b → parts a = parts b → a = b) : SelfEnding other spell' := by
  intro a b ha hb rest rest' heq
  rw [(hparts a ha).2, (hparts b hb).2] at heq
  obtain ⟨hsame, hrest⟩ := h (hparts a ha).1 (hparts b hb).1 heq
  exact ⟨hinj a b ha hb hsame, hrest⟩

/-- A list, with an end behind it that no item begins like. -/
theorem list (h : SelfEnding kind spell) (stop : List Char)
    (hstop : ∀ a, kind a → ∀ rest rest', spell a ++ rest ≠ stop ++ rest') :
    SelfEnding (fun items : List α => ∀ a ∈ items, kind a) fun items => items.flatMap spell ++ stop := by
  intro items others hitems hothers rest rest' heq
  rw [List.append_assoc, List.append_assoc] at heq
  induction items generalizing others with
  | nil =>
      cases others with
      | nil => exact ⟨rfl, List.append_cancel_left heq⟩
      | cons b others =>
          rw [List.flatMap_cons, List.append_assoc] at heq
          exact absurd heq.symm (hstop b (hothers b List.mem_cons_self) _ _)
  | cons a items ih =>
      rw [List.forall_mem_cons] at hitems
      cases others with
      | nil =>
          rw [List.flatMap_cons, List.append_assoc] at heq
          exact absurd heq (hstop a hitems.1 _ _)
      | cons b others =>
          rw [List.forall_mem_cons] at hothers
          rw [List.flatMap_cons, List.flatMap_cons, List.append_assoc, List.append_assoc] at heq
          obtain ⟨rfl, hbehind⟩ := h hitems.1 hothers.1 heq
          obtain ⟨rfl, hrest⟩ := ih hitems.2 hothers.2 hbehind
          exact ⟨rfl, hrest⟩

end SelfEnding

end SerialContract
