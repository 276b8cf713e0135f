import Mathlib.Data.List.Infix
import SerialContract.Proofs.Dialect.Words
import SerialContract.Proofs.Firmware.Wrapper

/-!
# Programs that boards share

The rules for Arduino boards replace two words in the firmware, as whole tokens outside of literals, and convert no
call. This is told of every line of a program: of those of the templates as they stand, and of those that are made for
an exchange because neither the characters of identifiers nor what stands around them begin or end such a word.
-/

namespace SerialContract.Firmware

open Target

/-! ## Characters that a text lacks -/

/-- None of the marks stands in the text. -/
def Lacks (text marks : List Char) : Prop :=
  ∀ c ∈ marks, c ∉ text

-- the characters could be run through as well, all of them, so the instance is told
instance (text marks : List Char) : Decidable (Lacks text marks) :=
  List.decidableBAll (fun c => c ∉ text) marks

section Lacks

variable {text front back marks : List Char}

theorem Lacks.append (hfront : Lacks front marks) (hback : Lacks back marks) : Lacks (front ++ back) marks := by
  intro c hc hmem
  rcases List.mem_append.1 hmem with hmem | hmem
  · exact hfront c hc hmem
  · exact hback c hc hmem

theorem Lacks.subset {fewer : List Char} (h : Lacks text marks) (hfewer : fewer ⊆ marks) : Lacks text fewer :=
  fun c hc => h c (hfewer hc)

theorem lacks_name (h : ∀ c ∈ text, isIdentifierPart c = true) (hmarks : marks.any isIdentifierPart = false) :
    Lacks text marks := by
  intro c hc
  exact notMem_of_isIdentifierPart h (Bool.eq_false_iff.2 (List.any_eq_false.1 hmarks c hc))

end Lacks

/-! ## Portable texts -/

/-- A program in which the rules for Arduino boards replace two words as whole tokens, and do nothing else. -/
structure Portable (program : List Char) : Prop where
  uncalled : Uncalled program
  directive : Faithful stringDirective boardDirective program
  type : Faithful stringType boardType (includeReplaced program)

section Portable

variable {front back program : List Char}

/-- No call goes across a character that none has. -/
theorem uncalled_append_cons {c : Char} (hc : ∀ call ∈ convertedCalls, c ∉ call) (hfront : Uncalled front)
    (hback : Uncalled back) : Uncalled (front ++ c :: back) := by
  intro call hcall hoccurs
  rcases infix_of_infix_append_cons (hc call hcall) hoccurs with h | h
  · exact hfront call hcall h
  · exact hback call hcall h

theorem Portable.append_newline (hfront : Portable front) (hback : Portable back) :
    Portable (front ++ '\n' :: back) := by
  have hreplaced : includeReplaced (front ++ '\n' :: back) = includeReplaced front ++ '\n' :: includeReplaced back :=
    replaceEvery_append_cons (by decide) (by decide) front back
  refine ⟨uncalled_append_cons (by decide) hfront.uncalled hback.uncalled, ?_, ?_⟩
  · exact hfront.directive.append_cons (by decide) (by decide) (by decide) (by decide) hback.directive
  · rw [hreplaced]
    exact hfront.type.append_cons (by decide) (by decide) (by decide) (by decide) hback.type

theorem portable_of_type (hdirective : ¬ stringDirective <:+: program) (huncalled : Uncalled program)
    (htype : Faithful stringType boardType program) : Portable program := by
  have hsame : includeReplaced program = program := replaceEvery_of_absent hdirective
  refine ⟨huncalled, faithful_of_absent hdirective htype.closed, ?_⟩
  rwa [hsame]

/-- Where neither word occurs, nothing is replaced. -/
theorem portable_of_absent (hdirective : ¬ stringDirective <:+: program) (htype : ¬ stringType <:+: program)
    (huncalled : Uncalled program) (hclosed : Closed program) : Portable program :=
  portable_of_type hdirective huncalled (faithful_of_absent htype hclosed)

theorem directive_absent (h : '#' ∉ program) : ¬ stringDirective <:+: program :=
  fun hoccurs => h (hoccurs.subset (by decide))

/-- The calls all have points and parentheses, except for those of functions with colons in their names. -/
theorem uncalled_of_notMem (hcolon : ':' ∉ program) (h : '.' ∉ program ∨ '(' ∉ program) : Uncalled program := by
  have hall : ∀ call ∈ convertedCalls, ':' ∈ call ∨ '.' ∈ call ∧ '(' ∈ call := by decide
  intro call hcall hoccurs
  rcases hall call hcall with hmem | ⟨hdot, hparenthesis⟩
  · exact hcolon (hoccurs.subset hmem)
  · exact h.elim (fun hnone => hnone (hoccurs.subset hdot)) fun hnone => hnone (hoccurs.subset hparenthesis)

/-- Without a colon the name of the type does not occur. -/
theorem portable_of_notMem (hdirective : '#' ∉ program) (htype : ':' ∉ program) (huncalled : Uncalled program)
    (hclosed : Closed program) : Portable program :=
  portable_of_absent (directive_absent hdirective) (fun hoccurs => htype (hoccurs.subset (by decide))) huncalled
    hclosed

/-- A name between quotes. -/
theorem portable_quoted {name : List Char} (hname : ∀ c ∈ name, isIdentifierPart c = true)
    (hlacks : Lacks (front ++ back) ['#', ':', '"']) (hfront : Uncalled front) (hback : Uncalled back) :
    Portable (front ++ '"' :: (name ++ '"' :: back)) := by
  have hnone : ∀ c, isIdentifierPart c = false → c ∉ name := fun _ => notMem_of_isIdentifierPart hname
  simp only [Lacks, List.forall_mem_cons, List.mem_append, not_or] at hlacks
  obtain ⟨⟨hsharpFront, hsharpBack⟩, ⟨hcolonFront, hcolonBack⟩, ⟨hquoteFront, hquoteBack⟩, _⟩ := hlacks
  have hcolon := hnone ':' rfl
  refine portable_of_notMem ?_ ?_ ?_ (closed_around hquoteFront (hnone '"' rfl) (hnone '\\' rfl) hquoteBack)
  · simp [hsharpFront, hsharpBack, hnone '#' rfl]
  · simp [hcolonFront, hcolonBack, hcolon]
  · have hinside : Uncalled name := uncalled_of_notMem hcolon (.inl (hnone '.' rfl))
    exact uncalled_append_cons (by decide) hfront (uncalled_append_cons (by decide) hinside hback)

-- most programs have neither word, which is found out faster than what replacing does to them
instance (program : List Char) : Decidable (Portable program) :=
  if h : ¬ stringDirective <:+: program ∧ ¬ stringType <:+: program ∧ Uncalled program ∧ Closed program then
    .isTrue (portable_of_absent h.1 h.2.1 h.2.2.1 h.2.2.2)
  else
    decidable_of_iff (Uncalled program ∧ Faithful stringDirective boardDirective program ∧
        Faithful stringType boardType (includeReplaced program))
      ⟨fun ⟨huncalled, hdirective, htype⟩ => ⟨huncalled, hdirective, htype⟩,
        fun h => ⟨h.uncalled, h.directive, h.type⟩⟩

/-! ## Texts in front of others -/

/-- In front of every portable program, the text makes up another one. -/
def Heads (text : String) : Prop :=
  ∀ program, Portable program → Portable (text.toList ++ program)

theorem heads_empty : Heads "" :=
  fun _ h => h

theorem Heads.append {text more : String} (h : Heads text) (hmore : Heads more) : Heads (text ++ more) := by
  intro program hprogram
  rw [String.toList_append, List.append_assoc]
  exact h _ (hmore _ hprogram)

theorem heads_line {text : String} (h : Portable text.toList) : Heads (line text) := by
  intro program hprogram
  have hline : (line text).toList ++ program = text.toList ++ '\n' :: program := by
    rw [line, String.toList_append, List.append_assoc]
    rfl
  rw [hline]
  exact h.append_newline hprogram

theorem heads_join {texts : List String} (h : ∀ text ∈ texts, Heads text) : Heads (String.join texts) := by
  induction texts with
  | nil => exact heads_empty
  | cons text texts ih =>
      rw [List.forall_mem_cons] at h
      rw [String.join_cons]
      exact h.1.append (ih h.2)

theorem heads_lines {texts : List String} (h : ∀ text ∈ texts, Portable text.toList) : Heads (lines texts) := by
  refine heads_join fun text htext => ?_
  obtain ⟨text, hmem, rfl⟩ := List.mem_map.1 htext
  exact heads_line (h text hmem)

theorem portable_nil : Portable [] := by
  decide

theorem Heads.portable {text : String} (h : Heads text) : Portable text.toList := by
  have hnil := h [] portable_nil
  rwa [List.append_nil] at hnil

/-- An empty line stands between the texts. -/
theorem heads_intercalate {texts : List String} (h : ∀ text ∈ texts, Heads text) :
    Heads ("\n".intercalate texts) := by
  induction texts with
  | nil => exact heads_empty
  | cons text texts ih =>
      rw [List.forall_mem_cons] at h
      cases texts with
      | nil =>
          rw [String.intercalate_singleton]
          exact h.1
      | cons next texts =>
          have hempty : Heads (line "") := heads_line portable_nil
          rw [String.intercalate_cons_cons]
          exact (h.1.append hempty).append (ih h.2)

end Portable

/-! ## Names of types in a line -/

/-- A text without points and directives in which the name of the type of strings stands as whole tokens. -/
structure Typed (text : List Char) : Prop where
  faithful : Faithful stringType boardType text
  unconverted : ¬ numberCall <:+: text
  undotted : '.' ∉ text
  undirected : '#' ∉ text

section Typed

variable {front back text : List Char}

/-- Whether no identifier, name of a type, literal or directive goes across a character, nor a call of a method. -/
def isSeparator (c : Char) : Bool :=
  !isIdentifierPart c && !([':', '"', '.', '#'].contains c)

theorem Typed.append_cons (hfront : Typed front) (c : Char) (hc : isSeparator c = true) (hback : Typed back) :
    Typed (front ++ c :: back) := by
  simp only [isSeparator, List.contains_cons, List.contains_nil, Bool.and_eq_true, Bool.not_eq_true',
    Bool.or_eq_false_iff, beq_eq_false_iff_ne, ne_eq] at hc
  obtain ⟨hidentifier, hcolon, hquote, hdot, hsharp, _⟩ := hc
  have hnotMem : ∀ word : List Char, (word.all fun d => isIdentifierPart d || d == ':') = true → c ∉ word := by
    intro word hword hmem
    have hpart := List.all_eq_true.1 hword c hmem
    rw [hidentifier, Bool.false_or] at hpart
    exact hcolon (eq_of_beq hpart)
  refine ⟨hfront.faithful.append_cons (by decide) (hnotMem _ rfl) hidentifier hquote hback.faithful, ?_, ?_, ?_⟩
  · intro hoccurs
    rcases infix_of_infix_append_cons (hnotMem _ rfl) hoccurs with h | h
    · exact hfront.unconverted h
    · exact hback.unconverted h
  · simp [hfront.undotted, hback.undotted, Ne.symm hdot]
  · simp [hfront.undirected, hback.undirected, Ne.symm hsharp]

theorem typed_of_lacks (h : Lacks text [':', '.', '#']) (hclosed : Closed text) : Typed text := by
  simp only [Lacks, List.forall_mem_cons] at h
  obtain ⟨hcolon, hdot, hsharp, _⟩ := h
  exact ⟨faithful_of_absent (fun hoccurs => hcolon (hoccurs.subset (by decide))) hclosed,
    fun hoccurs => hcolon (hoccurs.subset (by decide)), hdot, hsharp⟩

/-- A text without literals. -/
theorem typed_plain (h : Lacks text [':', '.', '#', '"']) : Typed text :=
  typed_of_lacks (h.subset (by decide)) (closed_of_notMem (h '"' (by decide)))

theorem typed_name (h : ∀ c ∈ text, isIdentifierPart c = true) : Typed text :=
  typed_plain (lacks_name h rfl)

/-- A name with fixed texts around it. -/
theorem typed_around {name : List Char} (hname : ∀ c ∈ name, isIdentifierPart c = true)
    (hfront : Lacks front [':', '.', '#', '"']) (hback : Lacks back [':', '.', '#', '"']) :
    Typed (front ++ (name ++ back)) :=
  typed_plain (hfront.append ((lacks_name hname rfl).append hback))

theorem typed_nil : Typed [] :=
  typed_plain (by decide)

theorem Typed.portable (h : Typed text) : Portable text := by
  refine portable_of_type (directive_absent h.undirected) ?_ h.faithful
  simp only [Uncalled, convertedCalls, List.forall_mem_cons]
  exact ⟨h.unconverted, fun hoccurs => h.undotted (hoccurs.subset (by decide)),
    fun hoccurs => h.undotted (hoccurs.subset (by decide)), List.forall_mem_nil _⟩

theorem typed_intercalate {texts : List String} (h : ∀ text ∈ texts, Typed text.toList) :
    Typed (", ".intercalate texts).toList := by
  induction texts with
  | nil => exact typed_nil
  | cons text texts ih =>
      rw [List.forall_mem_cons] at h
      cases texts with
      | nil =>
          rw [String.intercalate_singleton]
          exact h.1
      | cons next texts =>
          have hlist : (", ".intercalate (text :: next :: texts)).toList =
              text.toList ++ ',' :: ([] ++ ' ' :: (", ".intercalate (next :: texts)).toList) := by
            rw [String.intercalate_cons_cons, String.toList_append, String.toList_append, List.append_assoc]
            rfl
          have hblank : Typed ([] ++ ' ' :: (", ".intercalate (next :: texts)).toList) :=
            typed_nil.append_cons ' ' rfl (ih h.2)
          rw [hlist]
          exact h.1.append_cons ',' rfl hblank

end Typed

end SerialContract.Firmware
