import Mathlib.Data.List.DropRight
import SerialContract.Contract.Identifier
import SerialContract.Proofs.Contract.Identifier
import SerialContract.Proofs.Template.Lines

/-!
# Reading the host's client

The client is read line by line. A structure, a method and an import each begin with words of their own, and what is
declared stands behind them; a line that begins with none of these words declares nothing, whatever follows.
-/

namespace SerialContract.Host

/-! ## Reading -/

/-- How a line begins that declares a structure, a method or an import. -/
def structureFront : List Char := ['p', 'u', 'b', ' ', 's', 't', 'r', 'u', 'c', 't', ' ']

def methodFront : List Char := [' ', ' ', ' ', ' ', 'p', 'u', 'b', ' ', 'f', 'n', ' ']

def importFront : List Char := ['u', 's', 'e', ' ']

/-- The name of a field or of a parameter: the word in front of the colon. -/
def declaredName? (text : List Char) : Option String :=
  (cutAt ':' text).map fun (front, _) => String.ofList (front.rtakeWhile (· ≠ ' '))

/-- The name and the parameters of the method that a line declares. -/
def method? (line : List Char) : Option (String × List String) := do
  let rest ← methodFront.isPrefixOf? line
  let (name, behind) ← cutAt '(' rest
  let (parameters, _) ← cutAt ')' behind
  return (String.ofList name, (parameters.splitOn ',').filterMap declaredName?)

/-- The methods that lines declare, with their parameters. -/
def methods (program : List (List Char)) : List (String × List String) :=
  program.filterMap method?

/-- The structures that lines declare, with the fields up to the closing brace. -/
def structures : List (List Char) → List (String × List String)
  | [] => []
  | line :: rest =>
    match structureFront.isPrefixOf? line with
    | some head =>
      (String.ofList (head.takeWhile isIdentifierPart),
        (rest.takeWhile (· ≠ ['\x7d'])).filterMap declaredName?) :: structures rest
    | none => structures rest

/-- The names at the end of a path: one, or several in braces. -/
def pathEnds (path : List Char) : List String :=
  (((path.rtakeWhile (· ≠ ':')).splitOnP (!isIdentifierPart ·)).filter (· ≠ [])).map String.ofList

/-- The names that lines import. An import may run over several lines. -/
def imports : List (List Char) → List String
  | [] => []
  | line :: rest =>
    match importFront.isPrefixOf? line with
    | some path => pathEnds ((path ++ rest.flatten).takeWhile (· ≠ ';')) ++ imports rest
    | none => imports rest

/-! ## Lines that declare nothing -/

def fronts : List (List Char) := [structureFront, methodFront, importFront]

/-- A line that declares nothing. -/
def Silent (line : List Char) : Prop := ∀ front ∈ fronts, ¬ front <+: line

/-- A line that declares nothing but what is declared behind the given front. -/
def Only (kind line : List Char) : Prop := ∀ front ∈ fronts, front <+: line → front = kind

instance (line : List Char) : Decidable (Silent line) :=
  inferInstanceAs (Decidable (∀ front ∈ fronts, ¬ front <+: line))

instance (kind line : List Char) : Decidable (Only kind line) :=
  inferInstanceAs (Decidable (∀ front ∈ fronts, front <+: line → front = kind))

theorem Silent.only {kind line : List Char} (h : Silent line) : Only kind line :=
  fun front hfront hbegins => absurd hbegins (h front hfront)

/-- No line declares two things. -/
theorem only_of_front {kind line : List Char} (hkind : kind ∈ fronts) (h : kind <+: line) : Only kind line := by
  have hapart : ∀ a ∈ fronts, ∀ b ∈ fronts, a <+: b → a = b := by decide
  intro front hfront hbegins
  rcases List.prefix_or_prefix_of_prefix hbegins h with hshort | hlong
  · exact hapart front hfront kind hkind hshort
  · exact (hapart kind hkind front hfront hlong).symm

/-- Lines of which none begins with the given front. -/
def Without (front : List Char) (program : List (List Char)) : Prop := ∀ line ∈ program, ¬ front <+: line

instance (front : List Char) (program : List (List Char)) : Decidable (Without front program) :=
  inferInstanceAs (Decidable (∀ line ∈ program, ¬ front <+: line))

theorem without_of_only {kind front : List Char} {program : List (List Char)} (h : ∀ line ∈ program, Only kind line)
    (hfront : front ∈ fronts) (hne : front ≠ kind) : Without front program :=
  fun line hline hbegins => hne (h line hline front hfront hbegins)

theorem without_of_silent {front : List Char} {program : List (List Char)} (h : ∀ line ∈ program, Silent line)
    (hfront : front ∈ fronts) : Without front program :=
  fun line hline => h line hline front hfront

theorem without_cons {front line : List Char} {program : List (List Char)} :
    Without front (line :: program) ↔ ¬ front <+: line ∧ Without front program :=
  List.forall_mem_cons

section Reading

variable {program : List (List Char)}

theorem methods_append (front back : List (List Char)) : methods (front ++ back) = methods front ++ methods back :=
  List.filterMap_append

theorem methods_eq_nil (h : Without methodFront program) : methods program = [] := by
  refine List.filterMap_eq_nil_iff.2 fun line hline => ?_
  rw [method?, isPrefixOf?_eq_none (h line hline)]
  rfl

theorem structures_append (h : Without structureFront program) (rest : List (List Char)) :
    structures (program ++ rest) = structures rest := by
  induction program with
  | nil => rfl
  | cons line program ih =>
      rw [without_cons] at h
      rw [List.cons_append, structures, isPrefixOf?_eq_none h.1]
      exact ih h.2

theorem imports_append (h : Without importFront program) (rest : List (List Char)) :
    imports (program ++ rest) = imports rest := by
  induction program with
  | nil => rfl
  | cons line program ih =>
      rw [without_cons] at h
      rw [List.cons_append, imports, isPrefixOf?_eq_none h.1]
      exact ih h.2

/-- Whether the imports of lines end in them. -/
def importsEnd : List (List Char) → Bool
  | [] => true
  | line :: rest =>
    (importFront.isPrefixOf? line).all (fun path => (path ++ rest.flatten).contains ';') && importsEnd rest

theorem takeWhile_append_of_mem {text : List Char} {c : Char} (h : c ∈ text) (rest : List Char) :
    (text ++ rest).takeWhile (· ≠ c) = text.takeWhile (· ≠ c) := by
  rw [List.takeWhile_append, if_neg]
  intro hlength
  have hfront : text.takeWhile (· ≠ c) <+: text := List.takeWhile_prefix _
  have hwhole : text.takeWhile (· ≠ c) = text := hfront.eq_of_length hlength
  exact of_decide_eq_true (List.takeWhile_eq_self_iff.1 hwhole c h) rfl

theorem imports_append_of_end (h : importsEnd program = true) (rest : List (List Char)) :
    imports (program ++ rest) = imports program ++ imports rest := by
  induction program with
  | nil => rfl
  | cons line program ih =>
      rw [importsEnd, Bool.and_eq_true] at h
      rw [List.cons_append, imports, imports]
      cases hpath : importFront.isPrefixOf? line with
      | none => exact ih h.2
      | some path =>
          have hmem : ';' ∈ path ++ program.flatten := by simpa [hpath] using h.1
          simp only [List.flatten_append, ← List.append_assoc path, takeWhile_append_of_mem hmem, ih h.2,
            List.append_assoc (pathEnds _)]

/-- A structure ends with the first closing brace. -/
theorem structures_cons {name behind : List Char} {c : Char} {body : List (List Char)}
    (hname : ∀ d ∈ name, isIdentifierPart d = true) (hc : isIdentifierPart c = false)
    (hbody : ∀ line ∈ body, Silent line ∧ line ≠ ['\x7d']) (rest : List (List Char)) :
    structures ((structureFront ++ (name ++ c :: behind)) :: (body ++ ['\x7d'] :: rest)) =
      (String.ofList name, body.filterMap declaredName?) :: structures rest := by
  have hhead : structureFront.isPrefixOf? (structureFront ++ (name ++ c :: behind)) = some (name ++ c :: behind) :=
    List.isPrefixOf?_eq_some_iff_append_eq.2 rfl
  have hword : (name ++ c :: behind).takeWhile isIdentifierPart = name := by
    rw [List.takeWhile_append_of_pos hname, List.takeWhile_cons_of_neg (by rw [hc]; decide), List.append_nil]
  have hopen : ∀ line ∈ body, decide (line ≠ ['\x7d']) = true :=
    fun line hline => decide_eq_true (hbody line hline).2
  have htaken : (body ++ ['\x7d'] :: rest).takeWhile (· ≠ ['\x7d']) = body := by
    rw [List.takeWhile_append_of_pos hopen, List.takeWhile_cons_of_neg (by decide), List.append_nil]
  have hrest : structures (body ++ ['\x7d'] :: rest) = structures rest := by
    rw [structures_append (without_of_silent (fun line hline => (hbody line hline).1) (by decide))]
    rfl
  rw [structures, hhead]
  simp only [hword, htaken, hrest]

end Reading

/-! ## Fields and parameters -/

theorem declaredName?_append {front name : List Char} (hcolon : ':' ∉ front) (hname : ':' ∉ name) (hblank : ' ' ∉ name)
    (rest : List Char) : declaredName? (front ++ ' ' :: (name ++ ':' :: rest)) = some (String.ofList name) := by
  have hcut : cutAt ':' (front ++ ' ' :: (name ++ ':' :: rest)) = some (front ++ ' ' :: name, rest) := by
    rw [← List.cons_append, ← List.append_assoc]
    refine cutAt_append ?_ rest
    rw [List.mem_append, List.mem_cons, not_or, not_or]
    exact ⟨hcolon, by decide, hname⟩
  have hword : (front ++ ' ' :: name).rtakeWhile (· ≠ ' ') = name := by
    have hnot : ∀ c ∈ name.reverse, decide (c ≠ ' ') = true := by
      intro c hc
      rw [decide_eq_true_iff]
      rintro rfl
      exact hblank (List.mem_reverse.1 hc)
    rw [List.rtakeWhile, List.reverse_append, List.reverse_cons, List.append_assoc, List.singleton_append,
      List.takeWhile_append_of_pos hnot, List.takeWhile_cons_of_neg (by decide), List.append_nil, List.reverse_reverse]
  rw [declaredName?, hcut]
  exact congrArg (fun word => some (String.ofList word)) hword

theorem notMem_rustIdentifier {name : String} (h : isIdentifier name = true) {c : Char}
    (hc : isIdentifierPart c = false) (hmark : c ≠ '#') : c ∉ (rustIdentifier name).toList := by
  have hname : c ∉ name.toList := notMem_of_isIdentifierPart (fun _ => isIdentifierPart_of_mem h) hc
  have hletter : c ≠ 'r' := by
    rintro rfl
    exact absurd hc (by decide)
  rw [rustIdentifier]
  split
  · rw [String.toList_append, List.mem_append, not_or]
    exact ⟨by simp [hletter, hmark], hname⟩
  · exact hname

/-- A list of parameters behind the first, taken apart at the commas. -/
theorem splitOn_intercalate_blank {first : List Char} {others : List (List Char)} (hfirst : ',' ∉ first)
    (hothers : ∀ other ∈ others, ',' ∉ other) :
    ([',', ' '].intercalate (first :: others)).splitOn ',' = first :: others.map (' ' :: ·) := by
  induction others generalizing first with
  | nil => rw [List.intercalate_singleton, List.splitOn_eq_singleton hfirst, List.map_nil]
  | cons next others ih =>
      rw [List.forall_mem_cons] at hothers
      have hnext : ',' ∉ ' ' :: next := List.not_mem_cons_of_ne_of_not_mem (by decide) hothers.1
      have hblank : ' ' :: [',', ' '].intercalate (next :: others) = [',', ' '].intercalate ((' ' :: next) :: others) := by
        cases others <;> rfl
      rw [List.intercalate_cons_cons, List.append_assoc, List.cons_append, List.singleton_append,
        List.splitOn_append_cons_self, List.splitOn_eq_singleton hfirst, hblank, ih hnext hothers.2]
      rfl

/-! ## Texts without declarations -/

/-- How indented lines begin. -/
def indent : List Char := [' ', ' ', ' ', ' ', ' ', ' ', ' ', ' ']

/-- A text all of whose lines declare nothing. -/
def SilentText (text : String) : Prop := ∀ line ∈ text.toList.splitOn '\n', Silent line

/-- The lines of texts below each other. -/
def linesOf (texts : List String) : List (List Char) :=
  texts.flatMap fun text => text.toList.splitOn '\n'

theorem silent_linesOf {texts : List String} (h : ∀ text ∈ texts, SilentText text) :
    ∀ line ∈ linesOf texts, Silent line := by
  intro line hline
  obtain ⟨text, htext, hline⟩ := List.mem_flatMap.1 hline
  exact h text htext line hline

theorem linesOf_append (front back : List String) : linesOf (front ++ back) = linesOf front ++ linesOf back :=
  List.flatMap_append

theorem linesOf_cons {text : String} (h : '\n' ∉ text.toList) (texts : List String) :
    linesOf (text :: texts) = text.toList :: linesOf texts := by
  rw [linesOf, List.flatMap_cons, List.splitOn_eq_singleton h]
  rfl

theorem linesOf_lines_cons (inner texts : List String) :
    linesOf (lines inner :: texts) = linesOf inner ++ [] :: linesOf texts := by
  rw [linesOf, List.flatMap_cons, splitOn_toList_lines, List.append_assoc]
  rfl

theorem linesOf_lines_append (inner : List String) (text : String) :
    linesOf [lines inner ++ text] = linesOf inner ++ text.toList.splitOn '\n' := by
  rw [linesOf, List.flatMap_singleton, String.toList_append, splitOn_lines]
  rfl

theorem linesOf_eq_map {texts : List String} (h : ∀ text ∈ texts, '\n' ∉ text.toList) :
    linesOf texts = texts.map String.toList :=
  splitOn_lines_eq_map h

theorem silent_of_start {start line : List Char} (hstart : ∀ front ∈ fronts, ¬ front <+: start ∧ ¬ start <+: front)
    (h : start <+: line) : Silent line := by
  intro front hfront hbegins
  rcases List.prefix_or_prefix_of_prefix hbegins h with hshort | hlong
  · exact (hstart front hfront).1 hshort
  · exact (hstart front hfront).2 hlong

theorem silent_of_indent {line : List Char} (h : indent <+: line) : Silent line :=
  silent_of_start (by decide) h

theorem silentText_of_line {text : String} {chars : List Char} (h : text = String.ofList chars) (hsilent : Silent chars)
    (hnewline : '\n' ∉ chars) : SilentText text := by
  rw [SilentText, h, String.toList_ofList, List.splitOn_eq_singleton hnewline, List.forall_mem_singleton]
  exact hsilent

/-- A line that begins like no declaration. -/
theorem silentText_of_chars {start rest : String} {chars : List Char} (h : start = String.ofList chars)
    (hstart : ∀ front ∈ fronts, ¬ front <+: chars ∧ ¬ chars <+: front) (hnewline : '\n' ∉ chars)
    (hrest : '\n' ∉ rest.toList) : SilentText (start ++ rest) := by
  have htext : start ++ rest = String.ofList (chars ++ rest.toList) := by
    rw [String.ofList_append, ← h, String.ofList_toList]
  exact silentText_of_line htext (silent_of_start hstart (List.prefix_append _ _))
    (List.not_mem_append hnewline hrest)

/-- Indented lines below each other. -/
theorem silent_of_blocks {front back : List Char} {blocks : List (List Char)} (hfront : indent <+: front)
    (hline : '\n' ∉ front) (hback : '\n' ∉ back)
    (hblocks : ∀ block ∈ blocks, indent <+: block ∧ '\n' ∉ block) :
    ∀ line ∈ (front ++ (blocks.flatMap ('\n' :: ·) ++ back)).splitOn '\n', Silent line := by
  induction blocks generalizing front with
  | nil =>
      have hwhole : '\n' ∉ front ++ back := List.not_mem_append hline hback
      rw [List.flatMap_nil, List.nil_append, List.splitOn_eq_singleton hwhole, List.forall_mem_singleton]
      exact silent_of_indent (hfront.trans (List.prefix_append _ _))
  | cons block blocks ih =>
      rw [List.forall_mem_cons] at hblocks
      rw [List.flatMap_cons, List.append_assoc, List.cons_append, List.splitOn_append_cons_self,
        List.splitOn_eq_singleton hline, List.singleton_append, List.forall_mem_cons]
      exact ⟨silent_of_indent hfront, ih hblocks.1.1 hblocks.1.2 hblocks.2⟩

end SerialContract.Host
