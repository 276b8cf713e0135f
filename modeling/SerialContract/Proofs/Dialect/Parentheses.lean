import SerialContract.Dialect.Dialect
import SerialContract.Proofs.Dialect.Rewriting
import SerialContract.Proofs.Template.Population
import SerialContract.Proofs.Text.Parentheses

/-!
# What rules make of parentheses

A rule whose replacement leaves as many parentheses without a partner as its pattern keeps texts balanced. The
rules for Arduino boards do so where no expression is captured that closes one parenthesis and opens another, and
none that is written twice has any without a partner.
-/

namespace SerialContract

open Template (Part)

/-! ## Parentheses of filled templates -/

namespace Template

/-- The parentheses without a partner in a template, from those in what its placeholders are filled with. -/
def looseWith (fillers : String → Loose) (parts : List Part) : Loose :=
  (parts.map fun
    | .plain c => Loose.ofChar c
    | .placeholder name => fillers (String.ofList name)).prod

theorem looseWith_append (fillers : String → Loose) (front back : List Part) :
    looseWith fillers (front ++ back) = looseWith fillers front * looseWith fillers back := by
  rw [looseWith, List.map_append, List.prod_append, looseWith, looseWith]

theorem looseWith_plain (fillers : String → Loose) (text : List Char) :
    looseWith fillers (text.map .plain) = loose text := by
  rw [looseWith, List.map_map]
  rfl

theorem looseWith_placeholder_cons (fillers : String → Loose) (name : List Char) (parts : List Part) :
    looseWith fillers (.placeholder name :: parts) = fillers (String.ofList name) * looseWith fillers parts :=
  List.prod_cons

/-- The parentheses without a partner in what is filled in for a name. -/
def looseFiller (fillers : String → String) (name : String) : Loose :=
  loose (fillers name).toList

theorem loose_fill (replacements : Replacements) (parts : List Part) :
    loose (fill replacements parts) = looseWith (looseFiller (filler replacements)) parts := by
  rw [fill]
  induction parts with
  | nil => rfl
  | cons part parts ih =>
      rw [List.flatMap_cons, loose_append, ih]
      cases part with
      | plain c =>
          rw [Part.filled, loose_singleton]
          exact List.prod_cons.symm
      | placeholder name => rw [looseWith_placeholder_cons, looseFiller, filler, Part.filled]

end Template

/-! ## Rules without faults -/

theorem Rule.fault?_eq_none {rule : Rule} {pattern replacement : List Part}
    (hpattern : Template.parts rule.pattern = pattern)
    (hreplacement : Template.parts rule.replacement = replacement)
    (hrepeated : firstRepeated? [] (pattern.filterMap Part.name?) = none)
    (hmissing : Template.missing (pattern.filterMap Part.name?).contains (replacement.filterMap Part.name?) = [])
    (hnames : (pattern.filterMap Part.name?).all isCaptureName = true)
    (hsize : Template.footprint pattern ≤ footprintLimit) : rule.fault? = none := by
  subst hpattern hreplacement
  have hsmall : ¬ footprintLimit < Template.footprint (Template.parts rule.pattern) := Nat.not_lt.2 hsize
  simp [Rule.fault?, Template.names, hrepeated, hmissing, hnames, hsmall]

/-! ## Rules that keep parentheses -/

/-- What the placeholders capture in a stretch. -/
def Pattern.Stretch.captures : Pattern.Stretch → List (String × String)
  | .kept _ => []
  | .found m => m.captures

namespace CompiledRule

open Template

/-- Whether a capture does not straddle and, if the replacement names it more than once, is balanced. -/
def Tame (rule : CompiledRule) (name captured : String) : Prop :=
  ¬ Straddles captured.toList ∧
    (1 < (rule.replacement.filterMap Part.name?).count name → Balanced captured.toList)

instance (rule : CompiledRule) (name captured : String) : Decidable (rule.Tame name captured) :=
  inferInstanceAs (Decidable (_ ∧ _))

/-- With tame captures the replacement leaves the parentheses without a partner that the pattern leaves. -/
def Keeps (rule : CompiledRule) : Prop :=
  ∀ fillers : String → String, (∀ name ∈ rule.pattern.filterMap Part.name?, rule.Tame name (fillers name)) →
    looseWith (looseFiller fillers) rule.replacement = looseWith (looseFiller fillers) rule.pattern

section Shapes

variable {rule : CompiledRule}

theorem keeps_plain (old new : String) (hpattern : rule.pattern = old.toList.map .plain)
    (hreplacement : rule.replacement = new.toList.map .plain) (hsame : loose new.toList = loose old.toList) :
    rule.Keeps := by
  intro fillers _
  rw [hpattern, hreplacement, looseWith_plain, looseWith_plain, hsame]

/-- A text, a placeholder and a closing parenthesis. -/
def call (front name : String) : List Part :=
  front.toList.map .plain ++ [.placeholder name.toList, .plain ')']

theorem parts_call {text front name : String} {chars first word : List Char} (htext : text = String.ofList chars)
    (hfront : front = String.ofList first) (hname : name = String.ofList word)
    (h : partsAfter 0 chars = first.map .plain ++ [.placeholder word, .plain ')']) : parts text = call front name := by
  rw [parts_of_chars htext, h, call, hfront, hname, String.toList_ofList, String.toList_ofList]

theorem parts_placeholder_cons {text name behind : String} {chars word last : List Char}
    (htext : text = String.ofList chars) (hname : name = String.ofList word) (hbehind : behind = String.ofList last)
    (h : partsAfter 0 chars = .placeholder word :: last.map .plain) :
    parts text = .placeholder name.toList :: behind.toList.map .plain := by
  rw [parts_of_chars htext, h, hname, hbehind, String.toList_ofList, String.toList_ofList]

theorem looseWith_call (fillers : String → Loose) (front name : String) :
    looseWith fillers (call front name) = loose front.toList * (fillers name * Loose.closed) := by
  rw [call, looseWith_append, looseWith_plain, looseWith_placeholder_cons, String.ofList_toList]
  rfl

theorem mem_names_call (front name : String) : name ∈ (call front name).filterMap Part.name? := by
  rw [call, List.filterMap_append]
  exact List.mem_append_right _ (by simp [Part.name?])

/-- The argument of a call becomes that on which a method is called. -/
theorem keeps_conversion (function name method : String) (hpattern : rule.pattern = call function name)
    (hreplacement : rule.replacement = .placeholder name.toList :: method.toList.map .plain)
    (hfunction : loose function.toList = Loose.opened) (hmethod : loose method.toList = 1) : rule.Keeps := by
  intro fillers htame
  have hstraddles := (htame name (hpattern ▸ mem_names_call function name)).1
  have henclosed : Loose.opened * (looseFiller fillers name * Loose.closed) = looseFiller fillers name :=
    Loose.enclosed (by rw [Straddles] at hstraddles; rw [looseFiller]; omega)
  rw [hpattern, looseWith_call, hfunction, henclosed, hreplacement, looseWith_placeholder_cons, looseWith_plain,
    hmethod, mul_one, String.ofList_toList]

theorem keeps_renamed (old new name : String) (hpattern : rule.pattern = call old name)
    (hreplacement : rule.replacement = call new name) (hsame : loose new.toList = loose old.toList) : rule.Keeps := by
  intro fillers _
  rw [hpattern, hreplacement, looseWith_call, looseWith_call, hsame]

/-- The first argument of a call is written once more in front of the second. -/
theorem keeps_repeated (old new between first second : String)
    (hpattern : rule.pattern = old.toList.map .plain ++ .placeholder first.toList :: call ", " second)
    (hreplacement : rule.replacement = new.toList.map .plain ++ .placeholder first.toList ::
      (", ".toList.map .plain ++ .placeholder first.toList :: call between second))
    (hsame : loose new.toList = loose old.toList) (hbetween : loose between.toList = 1) : rule.Keeps := by
  intro fillers htame
  have hmem : first ∈ rule.pattern.filterMap Part.name? := by
    rw [hpattern, List.filterMap_append]
    exact List.mem_append_right _ (by simp [Part.name?])
  have htwice : 1 < (rule.replacement.filterMap Part.name?).count first := by
    rw [hreplacement]
    simp only [List.filterMap_append, List.filterMap_cons, Part.name?, String.ofList_toList, List.count_append,
      List.count_cons_self]
    omega
  have hbalanced : looseFiller fillers first = 1 := balanced_iff.1 ((htame first hmem).2 htwice)
  rw [hpattern, hreplacement]
  simp only [looseWith_append, looseWith_plain, looseWith_placeholder_cons, looseWith_call, String.ofList_toList,
    hbalanced, hsame, hbetween, one_mul]

end Shapes

/-- A text with every match of the rule replaced. -/
def rewrite (rule : CompiledRule) (text : List Char) : List Char :=
  (Pattern.stretches rule.pattern text).flatMap rule.turned

/-- Whether every match in the text has tame captures only. -/
def TameIn (rule : CompiledRule) (text : List Char) : Prop :=
  ∀ stretch ∈ Pattern.stretches rule.pattern text, ∀ capture ∈ stretch.captures, rule.Tame capture.1 capture.2

instance (rule : CompiledRule) (text : List Char) : Decidable (rule.TameIn text) :=
  inferInstanceAs (Decidable (∀ _ ∈ _, ∀ _ ∈ _, _))

variable {rule : CompiledRule}

/-- A match with tame captures is replaced by as many parentheses without a partner as it has. -/
theorem Keeps.loose_turned (hkeeps : rule.Keeps) (hnodup : (rule.pattern.filterMap Part.name?).Nodup)
    {text : List Char} {expressions : List (List Char)}
    (hmatch : Pattern.matchAt rule.pattern text = some expressions)
    (htame : ∀ capture ∈ (Pattern.matched rule.pattern expressions).captures, rule.Tame capture.1 capture.2) :
    loose (rule.turned (.found (Pattern.matched rule.pattern expressions))) =
      loose (Pattern.matched rule.pattern expressions).text := by
  have hnames := Pattern.names_of_matched hmatch
  have hcaptures : ∀ name captured, (name, captured) ∈ (Pattern.matched rule.pattern expressions).captures →
      (NameMap.ofList (Pattern.matched rule.pattern expressions).captures).get? name = some captured :=
    fun name captured hmem => NameMap.get?_ofList_of_mem (hnames ▸ hnodup) hmem
  have hfillers : ∀ name ∈ rule.pattern.filterMap Part.name?,
      rule.Tame name (filler (.ofList (Pattern.matched rule.pattern expressions).captures) name) := by
    intro name hname
    rw [← hnames, List.mem_map] at hname
    obtain ⟨⟨_, captured⟩, hmem, rfl⟩ := hname
    rw [filler, hcaptures _ _ hmem, Option.getD_some]
    exact htame _ hmem
  have hwritten : (Pattern.matched rule.pattern expressions).text = _ :=
    written_eq_fill (Pattern.length_of_matchAt hmatch) hcaptures
  rw [hwritten, turned, loose_fill, loose_fill, hkeeps _ hfillers]

theorem Keeps.loose_rewrite (hkeeps : rule.Keeps) (hnodup : (rule.pattern.filterMap Part.name?).Nodup)
    {text : List Char} (htame : rule.TameIn text) : loose (rule.rewrite text) = loose text := by
  have hstretch : ∀ stretch ∈ Pattern.stretches rule.pattern text,
      loose (rule.turned stretch) = loose stretch.text := by
    intro stretch hstretch
    cases stretch with
    | kept c => rfl
    | found m =>
        obtain ⟨_, expressions, hmatch, rfl⟩ := Pattern.matchAt_of_mem_stretchesAfter hstretch
        exact hkeeps.loose_turned hnodup hmatch (htame _ hstretch)
  rw [rewrite, loose_flatMap_congr hstretch, Pattern.flatMap_text_stretches]

/-- Whether the matches of each rule, in what the rules in front of it make of the text, have tame captures only. -/
def TameAlong : List CompiledRule → List Char → Prop
  | [], _ => True
  | rule :: rules, text => rule.TameIn text ∧ TameAlong rules (rule.rewrite text)

instance TameAlong.decide : (rules : List CompiledRule) → (text : List Char) → Decidable (TameAlong rules text)
  | [], _ => inferInstanceAs (Decidable True)
  | rule :: rules, text =>
    have := TameAlong.decide rules (rule.rewrite text)
    inferInstanceAs (Decidable (_ ∧ _))

/-- What a rule needs to be ready and to keep parentheses. -/
structure Orderly (rule : CompiledRule) : Prop where
  closed : rule.Closed
  nodup : (rule.pattern.filterMap Part.name?).Nodup
  keeps : rule.Keeps

theorem exists_applyAll_loose {rules : List CompiledRule} (h : ∀ rule ∈ rules, rule.Orderly) {text : String}
    (htame : TameAlong rules text.toList) :
    ∃ turned, applyAll rules text = .ok turned ∧ loose turned.toList = loose text.toList := by
  induction rules generalizing text with
  | nil => exact ⟨text, rfl, rfl⟩
  | cons rule rules ih =>
      rw [List.forall_mem_cons] at h
      have happly : rule.apply text = .ok (String.ofList (rule.rewrite text.toList)) := h.1.closed.apply_eq text
      have hbehind : TameAlong rules (String.ofList (rule.rewrite text.toList)).toList := by
        rw [String.toList_ofList]
        exact htame.2
      obtain ⟨turned, hturned, hloose⟩ := ih h.2 hbehind
      refine ⟨turned, ?_, ?_⟩
      · rw [applyAll, List.foldlM_cons, happly]
        exact hturned
      · rw [hloose, String.toList_ofList, h.1.keeps.loose_rewrite h.1.nodup htame.1]

end CompiledRule

namespace Target

section Rules

open CompiledRule

/-- All rules for Arduino boards keep parentheses. -/
theorem keeps_of_mem_arduinoRules : ∀ rule ∈ arduinoRules,
    CompiledRule.Keeps ⟨Template.parts rule.pattern, Template.parts rule.replacement⟩ := by
  simp only [arduinoRules, List.forall_mem_cons]
  refine ⟨?_, ?_, ?_, ?_, ?_, ?_, ?_, ?_, List.forall_mem_nil _⟩
  · exact keeps_plain _ _ (Template.parts_plain_of_chars rfl rfl) (Template.parts_plain_of_chars rfl rfl)
      (by decide)
  · exact keeps_conversion "std::stoi(" "expr" ".toInt()" (parts_call rfl rfl rfl rfl)
      (parts_placeholder_cons rfl rfl rfl rfl) (by decide) (by decide)
  · exact keeps_conversion "std::stod(" "expr" ".toDouble()" (parts_call rfl rfl rfl rfl)
      (parts_placeholder_cons rfl rfl rfl rfl) (by decide) (by decide)
  · exact keeps_conversion "std::stof(" "expr" ".toFloat()" (parts_call rfl rfl rfl rfl)
      (parts_placeholder_cons rfl rfl rfl rfl) (by decide) (by decide)
  · exact keeps_plain _ _ (Template.parts_plain_of_chars rfl rfl) (Template.parts_plain_of_chars rfl rfl)
      (by decide)
  · refine keeps_repeated ".substr(" ".substring(" " + " "expr1" "expr2" ?_ ?_ (by decide) (by decide)
    all_goals
      rw [call, Template.parts]
      repeat rw [String.toList_ofList]
      rfl
  · exact keeps_renamed ".substr(" ".substring(" "expr" (parts_call rfl rfl rfl rfl) (parts_call rfl rfl rfl rfl)
      (by decide)
  · exact keeps_plain _ _ (Template.parts_plain_of_chars rfl rfl) (Template.parts_plain_of_chars rfl rfl)
      (by decide)

end Rules

/-- The rules for Arduino boards when they are ready. -/
def readyRules : List CompiledRule :=
  arduinoRules.map fun rule => ⟨Template.parts rule.pattern, Template.parts rule.replacement⟩

theorem fault?_of_mem_arduinoRules : ∀ rule ∈ arduinoRules, rule.fault? = none := by
  simp only [arduinoRules, List.forall_mem_cons]
  refine ⟨?_, ?_, ?_, ?_, ?_, ?_, ?_, ?_, List.forall_mem_nil _⟩
  all_goals
    exact Rule.fault?_eq_none (Template.parts_of_chars rfl) (Template.parts_of_chars rfl) rfl rfl rfl (by decide)

theorem mapM_compile_arduinoRules : arduinoRules.mapM Rule.compile = .ok readyRules :=
  mapM_eq_ok_map fun rule hrule => by rw [Rule.compile, fault?_of_mem_arduinoRules rule hrule]

theorem compile_arduino : arduino.dialect.compile = .ok ⟨"arduino", readyRules⟩ := by
  rw [Dialect.compile, dialect, mapM_compile_arduinoRules]
  rfl

theorem orderly_of_mem_readyRules : ∀ rule ∈ readyRules, rule.Orderly := by
  intro ready hready
  obtain ⟨rule, hrule, hcompile⟩ := exists_left_of_forall₂ (mapM_eq_ok_iff.1 mapM_compile_arduinoRules) hready
  have hclosed := Rule.closed_of_compile hcompile
  have hnodup := Rule.nodup_of_compile hcompile
  obtain ⟨_, rfl⟩ := Rule.compile_eq_ok hcompile
  exact ⟨hclosed, hnodup, keeps_of_mem_arduinoRules rule hrule⟩

/-- The dialect of Arduino boards turns a text whose parentheses are balanced into another one, unless an
expression is captured that closes one parenthesis and opens another, or one that is not balanced is repeated. -/
theorem apply_arduino_balanced {compiled : CompiledDialect} (hcompile : arduino.dialect.compile = .ok compiled)
    {text : String} (hbalanced : Balanced text.toList) (htame : CompiledRule.TameAlong compiled.rules text.toList) :
    ∃ turned, compiled.apply text = .ok turned ∧ Balanced turned.toList := by
  obtain rfl := Except.ok.inj (compile_arduino.symm.trans hcompile)
  obtain ⟨turned, hturned, hloose⟩ := CompiledRule.exists_applyAll_loose orderly_of_mem_readyRules htame
  exact ⟨turned, hturned, balanced_iff.2 (hloose.trans (balanced_iff.1 hbalanced))⟩

/-- Arguments in parentheses of their own, and one that is repeated. -/
theorem apply_arduino_balanced_arguments : ∃ compiled, arduino.dialect.compile = .ok compiled ∧
    Balanced "n = std::stoi((a + b)) + s.substr(f(x), 2);".toList ∧
    CompiledRule.TameAlong compiled.rules "n = std::stoi((a + b)) + s.substr(f(x), 2);".toList ∧
    ∃ turned, compiled.apply "n = std::stoi((a + b)) + s.substr(f(x), 2);" = .ok turned ∧ Balanced turned.toList := by
  have hbalanced : Balanced "n = std::stoi((a + b)) + s.substr(f(x), 2);".toList := by decide +kernel
  have htame : CompiledRule.TameAlong readyRules "n = std::stoi((a + b)) + s.substr(f(x), 2);".toList := by
    decide +kernel
  exact ⟨_, compile_arduino, hbalanced, htame, apply_arduino_balanced compile_arduino hbalanced htame⟩

/-- The capture of a conversion reaches into the call behind it. -/
theorem apply_arduino_not_balanced : ∃ compiled turned, arduino.dialect.compile = .ok compiled ∧
    Balanced "std::stoi(a) + f(b)".toList ∧ compiled.apply "std::stoi(a) + f(b)" = .ok turned ∧
    turned = "a) + f(b.toInt()" ∧ ¬ Balanced turned.toList := by
  refine ⟨_, _, compile_arduino, by decide +kernel, ?_, rfl, by decide +kernel⟩
  decide +kernel

end Target

end SerialContract
