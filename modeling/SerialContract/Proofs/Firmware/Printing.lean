import Mathlib.Data.List.Basic
import SerialContract.Proofs.Text.Cut
import SerialContract.Text.Lines

/-!
# What a program prints

A program of the firmware prints by statements that have lines of their own. They are read off its text here:
what a statement prints is told by its argument, and what the program prints is all of this in order.
-/

namespace SerialContract.Firmware

/-! ## Literals and definitions -/

/-- What a backslash and a character stand for between quotes. -/
def escape? : Char → Option Char
  | 'n' => some '\n'
  | 'r' => some '\r'
  | 't' => some '\t'
  | '"' => some '"'
  | '\x27' => some '\x27'
  | '\\' => some '\\'
  | _ => none

/-- The text in front of the closing quote, with which everything ends. -/
def unquoted? : List Char → Option (List Char)
  | [] => none
  | ['"'] => some []
  | '"' :: _ => none
  | ['\\'] => none
  | '\\' :: c :: rest => (escape? c).bind fun d => (unquoted? rest).map (d :: ·)
  | c :: rest => (unquoted? rest).map (c :: ·)

/-- The text of a string literal. -/
def literal? : List Char → Option (List Char)
  | '"' :: rest => unquoted? rest
  | _ => none

theorem unquoted?_append_quote {text : List Char} (hquote : '"' ∉ text) (hbackslash : '\\' ∉ text) :
    unquoted? (text ++ ['"']) = some text := by
  induction text with
  | nil => rfl
  | cons c text ih =>
      simp only [List.mem_cons, not_or] at hquote hbackslash
      have hrest := ih hquote.2 hbackslash.2
      rw [List.cons_append, unquoted?]
      · rw [hrest]
        rfl
      · intro hc _
        exact hquote.1 hc.symm
      · intro hc
        exact hquote.1 hc.symm
      · intro hc _
        exact hbackslash.1 hc.symm
      · intro d rest hc _
        exact hbackslash.1 hc.symm

theorem literal?_quoted {text : List Char} (hquote : '"' ∉ text) (hbackslash : '\\' ∉ text) :
    literal? ('"' :: (text ++ ['"'])) = some text :=
  unquoted?_append_quote hquote hbackslash

/-- The name that a line defines, if its meaning is a string literal, and the text of this. -/
def definition? (line : List Char) : Option (List Char × List Char) := do
  let rest ← "#define ".toList.isPrefixOf? line
  let (name, meaning) ← cutAt ' ' rest
  let text ← literal? meaning
  return (name, text)

/-- The definitions of a program, by lines. -/
def definitions (program : List Char) : List (List Char × List Char) :=
  (program.splitOn '\n').filterMap definition?

/-! ## Print statements -/

/-- How a print statement begins. -/
def printing : List Char := ['S', 'e', 'r', 'i', 'a', 'l', '.', 'p', 'r', 'i', 'n', 't', '(']

/-- How a print statement ends. -/
def printed : List Char := [')', ';']

/-- How far a statement is indented. -/
def indentation : List Char := [' ', ' ', ' ', ' ']

/-- What stands in a line behind the beginning of a print statement. -/
def statement? (line : List Char) : Option (List Char) :=
  printing.isPrefixOf? (line.dropWhile (· == ' '))

/-- What a print statement prints whose arguments mean these texts. -/
def printedBy (meaning : List Char → Option (List Char)) (statement : List Char) : Option (List Char) :=
  (printed.isSuffixOf? statement).bind meaning

/-- What the print statements of a program print, one after another. -/
def output? (meaning : List Char → Option (List Char)) (program : List Char) : Option (List Char) :=
  (((program.splitOn '\n').filterMap statement?).mapM (printedBy meaning)).map List.flatten

/-! ## Programs in front of others -/

variable {meaning : List Char → Option (List Char)} {program more out rest : List Char}

/-- In front of every program, this one prints a text, and then that prints its own. -/
def Prints (meaning : List Char → Option (List Char)) (program out : List Char) : Prop :=
  ∀ rest printed, output? meaning rest = some printed → output? meaning (program ++ rest) = some (out ++ printed)

theorem Prints.nil : Prints meaning [] [] :=
  fun _ _ h => h

theorem Prints.append {later : List Char} (h : Prints meaning program out) (hmore : Prints meaning more later) :
    Prints meaning (program ++ more) (out ++ later) := by
  intro rest printed hrest
  rw [List.append_assoc, List.append_assoc]
  exact h _ _ (hmore _ _ hrest)

theorem Prints.output_eq (h : Prints meaning program out) : output? meaning program = some out := by
  have hall := h [] [] rfl
  rwa [List.append_nil, List.append_nil] at hall

theorem output?_append_newline (front rest : List Char) : output? meaning (front ++ '\n' :: rest) =
    (output? meaning front).bind fun out => (output? meaning rest).map (out ++ ·) := by
  simp only [output?, List.splitOn_append_cons_self, List.filterMap_append, List.mapM_append]
  cases ((front.splitOn '\n').filterMap statement?).mapM (printedBy meaning) with
  | none => rfl
  | some texts =>
      cases ((rest.splitOn '\n').filterMap statement?).mapM (printedBy meaning) with
      | none => rfl
      | some others => simp

theorem printing_infix_of_statement? {line statement : List Char} (h : statement? line = some statement) :
    printing <:+: line := by
  rw [statement?, List.isPrefixOf?_eq_some_iff_append_eq] at h
  exact List.IsInfix.trans ⟨[], statement, h⟩ (List.dropWhile_suffix _).isInfix

/-! ## Silent texts -/

/-- A text in which no print statement begins. -/
def Silent (text : List Char) : Prop := ¬ printing <:+: text

theorem Silent.of_infix {inner text : List Char} (h : Silent text) (hinner : inner <:+: text) : Silent inner :=
  fun hprinting => h (hprinting.trans hinner)

theorem Silent.append_cons {before after : List Char} {c : Char} (hbefore : Silent before) (hc : c ∉ printing)
    (hafter : Silent after) : Silent (before ++ c :: after) := by
  intro hprinting
  rcases infix_of_infix_append_cons hc hprinting with h | h
  · exact hbefore h
  · exact hafter h

theorem silent_of_dot_notMem {text : List Char} (h : '.' ∉ text) : Silent text :=
  fun hprinting => h (hprinting.subset (by decide))

/-- A silent program prints nothing. -/
theorem Prints.silent (h : Silent program) : Prints meaning (program ++ ['\n']) [] := by
  have hnone : (program.splitOn '\n').filterMap statement? = [] := by
    rw [List.filterMap_eq_nil_iff]
    intro line hline
    rw [Option.eq_none_iff_forall_ne_some]
    intro statement hstatement
    exact h.of_infix (infix_of_mem_splitOn hline) (printing_infix_of_statement? hstatement)
  have hprogram : output? meaning program = some [] := by
    rw [output?, hnone]
    rfl
  intro rest printed hrest
  rw [List.append_assoc, List.singleton_append, output?_append_newline, hprogram, hrest]
  rfl

theorem Prints.line {text : String} (h : Silent text.toList) : Prints meaning (line text).toList [] := by
  rw [SerialContract.line, String.toList_append]
  exact Prints.silent h

theorem Prints.join {texts : List String} (h : ∀ text ∈ texts, Prints meaning text.toList []) :
    Prints meaning (String.join texts).toList [] := by
  induction texts with
  | nil => exact Prints.nil
  | cons text texts ih =>
      rw [List.forall_mem_cons] at h
      rw [String.join_cons, String.toList_append]
      exact h.1.append (ih h.2)

/-! ## Statements -/

theorem Prints.statement {argument : List Char} (hargument : '\n' ∉ argument) (hmeaning : meaning argument = some out) :
    Prints meaning (indentation ++ printing ++ argument ++ printed ++ ['\n']) out := by
  have hline : '\n' ∉ indentation ++ printing ++ argument ++ printed := by
    simp [indentation, printing, printed, hargument]
  have hstatement : statement? (indentation ++ printing ++ argument ++ printed) = some (argument ++ printed) := by
    rw [statement?, List.isPrefixOf?_eq_some_iff_append_eq]
    simp [indentation, printing]
  have hprinted : printedBy meaning (argument ++ printed) = some out := by
    rw [printedBy, List.isSuffixOf?_eq_some_iff_append_eq.2 rfl]
    exact hmeaning
  have hprogram : output? meaning (indentation ++ printing ++ argument ++ printed) = some out := by
    rw [output?, List.splitOn_eq_singleton hline, List.filterMap_cons, hstatement]
    simp [hprinted]
  intro rest text hrest
  rw [List.append_assoc, List.singleton_append, output?_append_newline, hprogram, hrest]
  rfl

end SerialContract.Firmware
