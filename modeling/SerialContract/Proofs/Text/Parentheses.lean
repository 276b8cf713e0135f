import Mathlib.Algebra.BigOperators.Group.List.Basic
import Mathlib.Data.List.Induction

/-!
# Parentheses

What matters of the parentheses of a text are those without a partner in it: some closing ones, and opening ones
behind them. Of two texts one behind the other they are found from those of the two, and a text is balanced if it
has none.
-/

namespace SerialContract

/-- No front of the text closes more parentheses than it opens, and the text closes all of them. -/
structure Balanced (text : List Char) : Prop where
  front : ∀ front, front <+: text → front.count ')' ≤ front.count '('
  total : text.count '(' = text.count ')'

/-- How many parentheses have no partner: closing ones, and opening ones behind them. -/
@[ext]
structure Loose where
  closing : Nat
  opening : Nat
  deriving DecidableEq

namespace Loose

instance : One Loose := ⟨⟨0, 0⟩⟩

/-- Opening ones in front are closed by closing ones behind. -/
instance : Mul Loose :=
  ⟨fun a b => ⟨a.closing + (b.closing - a.opening), b.opening + (a.opening - b.closing)⟩⟩

theorem closing_one : (1 : Loose).closing = 0 := rfl

theorem opening_one : (1 : Loose).opening = 0 := rfl

theorem closing_mul (a b : Loose) : (a * b).closing = a.closing + (b.closing - a.opening) := rfl

theorem opening_mul (a b : Loose) : (a * b).opening = b.opening + (a.opening - b.closing) := rfl

instance : Monoid Loose where
  mul_assoc a b c := by
    ext <;> simp only [closing_mul, opening_mul] <;> omega
  one_mul a := by
    ext <;> simp only [closing_mul, opening_mul, closing_one, opening_one] <;> omega
  mul_one a := by
    ext <;> simp only [closing_mul, opening_mul, closing_one, opening_one] <;> omega

/-- A single opening parenthesis. -/
def opened : Loose := ⟨0, 1⟩

/-- A single closing parenthesis. -/
def closed : Loose := ⟨1, 0⟩

def ofChar (c : Char) : Loose :=
  if c = '(' then opened else if c = ')' then closed else 1

theorem ofChar_one_sided (c : Char) : (ofChar c).closing = 0 ∨ (ofChar c).opening = 0 := by
  unfold ofChar
  split
  · exact .inl rfl
  · split
    · exact .inr rfl
    · exact .inl rfl

/-- In parentheses nothing changes for a text that does not both close and open some. -/
theorem enclosed {a : Loose} (h : a.closing = 0 ∨ a.opening = 0) : opened * (a * closed) = a := by
  ext <;> simp only [closing_mul, opening_mul, opened, closed] <;> omega

end Loose

/-- The parentheses of a text without a partner in it. -/
def loose (text : List Char) : Loose := (text.map Loose.ofChar).prod

theorem loose_append (front back : List Char) : loose (front ++ back) = loose front * loose back := by
  rw [loose, List.map_append, List.prod_append, loose, loose]

theorem loose_flatMap_congr {α : Type} {items : List α} {f g : α → List Char}
    (h : ∀ item ∈ items, loose (f item) = loose (g item)) : loose (items.flatMap f) = loose (items.flatMap g) := by
  induction items with
  | nil => rfl
  | cons item items ih =>
      rw [List.forall_mem_cons] at h
      rw [List.flatMap_cons, List.flatMap_cons, loose_append, loose_append, h.1, ih h.2]

theorem loose_cons (c : Char) (text : List Char) : loose (c :: text) = Loose.ofChar c * loose text :=
  List.prod_cons

theorem loose_singleton (c : Char) : loose [c] = Loose.ofChar c :=
  List.prod_singleton

theorem count_add_closing (text : List Char) :
    text.count '(' + (loose text).closing = text.count ')' + (loose text).opening := by
  induction text with
  | nil => rfl
  | cons c text ih =>
      rw [loose_cons, Loose.closing_mul, Loose.opening_mul, List.count_cons, List.count_cons, Loose.ofChar]
      by_cases hopen : c = '('
      · subst hopen
        simp [Loose.opened]
        omega
      · by_cases hclose : c = ')'
        · subst hclose
          simp [Loose.closed]
          omega
        · simp [hopen, hclose, Loose.closing_one, Loose.opening_one]
          omega

/-- A front of the text has all its closing parentheses without a partner, and none that is opened. -/
theorem exists_front_of_closing (text : List Char) :
    ∃ front, front <+: text ∧ (loose front).opening = 0 ∧ (loose front).closing = (loose text).closing := by
  induction text using List.reverseRecOn with
  | nil => exact ⟨[], List.nil_prefix, rfl, rfl⟩
  | append_singleton text c ih =>
      by_cases hmore : (loose (text ++ [c])).closing = (loose text).closing
      · obtain ⟨front, hfront, hopening, hclosing⟩ := ih
        exact ⟨front, hfront.trans (List.prefix_append _ _), hopening, hclosing.trans hmore.symm⟩
      · refine ⟨text ++ [c], List.prefix_rfl, ?_, rfl⟩
        rw [loose_append, loose_singleton, Loose.closing_mul] at hmore
        rw [loose_append, loose_singleton, Loose.opening_mul]
        rcases Loose.ofChar_one_sided c with hclosing | hopening
        · omega
        · omega

theorem balanced_iff {text : List Char} : Balanced text ↔ loose text = 1 := by
  constructor
  · intro h
    obtain ⟨front, hfront, hopening, hclosing⟩ := exists_front_of_closing text
    have hcount := count_add_closing front
    have hle := h.front front hfront
    have htotal := count_add_closing text
    rw [h.total] at htotal
    ext
    · rw [Loose.closing_one]
      omega
    · rw [Loose.opening_one]
      omega
  · intro h
    refine ⟨fun front hfront => ?_, ?_⟩
    · obtain ⟨back, rfl⟩ := hfront
      have hclosing := congrArg Loose.closing h
      rw [loose_append, Loose.closing_mul, Loose.closing_one] at hclosing
      have hcount := count_add_closing front
      omega
    · have hcount := count_add_closing text
      rw [h] at hcount
      exact hcount

instance (text : List Char) : Decidable (Balanced text) :=
  decidable_of_iff _ balanced_iff.symm

/-- An expression that closes a parenthesis which it does not open, and opens one which it does not close. -/
def Straddles (text : List Char) : Prop := (loose text).closing ≠ 0 ∧ (loose text).opening ≠ 0

instance (text : List Char) : Decidable (Straddles text) :=
  inferInstanceAs (Decidable (_ ∧ _))

end SerialContract
