import SerialContract.Proofs.Dialect.Match
import SerialContract.Proofs.Dialect.Rule

/-!
# What a rule changes

A rule replaces the matches of its pattern and nothing else. The matches are found from left to right: each at
the first place behind the one before at which the pattern fits, and there the greedy one. To splice the
replacements in by their places in the bytes of the text, the last one first, comes to the same.
-/

namespace SerialContract

open Template (Part)

namespace Pattern

/-! ## Matches from left to right -/

/-- A match, by what its placeholders capture, and the characters that are kept in front of it. -/
structure Piece where
  kept : List Char
  expressions : List (List Char)

variable {parts : List Part}

/-- The matches in a text and the characters around them. The pattern fits at none of the kept characters. -/
inductive Found (parts : List Part) : List Char → List Piece → List Char → Prop where
  | done {tail : List Char} (nowhere : ∀ place, place <:+ tail → ∀ others, ¬ Fits parts place others) :
      Found parts tail [] tail
  | next {kept rest tail : List Char} {expressions : List (List Char)} {pieces : List Piece}
      (nowhere : ∀ place, place <:+ kept → place ≠ [] →
        ∀ others, ¬ Fits parts (place ++ (written parts expressions ++ rest)) others)
      (greedy : Greedy parts (written parts expressions ++ rest) expressions)
      (later : Found parts rest pieces tail) :
      Found parts (kept ++ (written parts expressions ++ rest)) (⟨kept, expressions⟩ :: pieces) tail

/-- The stretches of a piece. -/
def Piece.stretches (parts : List Part) (p : Piece) : List Stretch :=
  p.kept.map .kept ++ [.found (matched parts p.expressions)]

/-- A character at which the pattern does not fit is kept in front of the first match. -/
theorem Found.keep {c : Char} {text tail : List Char} {pieces : List Piece} (h : Found parts text pieces tail)
    (hnowhere : ∀ others, ¬ Fits parts (c :: text) others) : ∃ pieces' tail', Found parts (c :: text) pieces' tail' ∧
      pieces'.flatMap (Piece.stretches parts) ++ tail'.map .kept =
        .kept c :: (pieces.flatMap (Piece.stretches parts) ++ tail.map .kept) := by
  cases h with
  | done nowhere =>
      refine ⟨[], c :: text, .done fun place hplace => ?_, rfl⟩
      rcases List.suffix_cons_iff.1 hplace with rfl | hplace
      · exact hnowhere
      · exact nowhere place hplace
  | @next kept rest _ expressions pieces nowhere greedy later =>
      have hkept : ∀ place, place <:+ c :: kept → place ≠ [] →
          ∀ others, ¬ Fits parts (place ++ (written parts expressions ++ rest)) others := by
        intro place hplace hne
        rcases List.suffix_cons_iff.1 hplace with rfl | hplace
        · exact hnowhere
        · exact nowhere place hplace hne
      exact ⟨⟨c :: kept, expressions⟩ :: pieces, tail, .next hkept greedy later, rfl⟩

theorem stretchesAfter_eq_drop {skipped : Nat} {text : List Char} (h : skipped ≤ text.length) :
    stretchesAfter parts skipped text = stretches parts (text.drop skipped) := by
  induction text generalizing skipped with
  | nil =>
      obtain rfl := Nat.le_zero.1 h
      rfl
  | cons c text ih =>
      cases skipped with
      | zero => rfl
      | succ skipped => exact ih (Nat.le_of_succ_le_succ h)

/-- A pattern that has parts matches one character at least. -/
theorem written_ne_nil (hne : parts ≠ []) {text : List Char} {expressions : List (List Char)}
    (h : Fits parts text expressions) : written parts expressions ≠ [] := by
  obtain ⟨part, parts, rfl⟩ := List.exists_cons_of_ne_nil hne
  cases part with
  | plain c => exact List.cons_ne_nil _ _
  | placeholder name =>
      obtain ⟨expression, rest, more, rfl, _, hexpression, _⟩ := fits_placeholder.1 h
      exact List.append_ne_nil_of_left_ne_nil hexpression.1 _

/-- Behind a match the search goes on with what is left of the text, which is shorter. -/
theorem exists_rest_of_greedy (hne : parts ≠ []) {text : List Char} {expressions : List (List Char)}
    (h : Greedy parts text expressions) : ∃ rest, text = written parts expressions ++ rest ∧
      rest.length < text.length ∧ stretches parts text = .found (matched parts expressions) :: stretches parts rest := by
  obtain ⟨rest, rfl⟩ := h.fits.front
  obtain ⟨c, more, hmore⟩ := List.exists_cons_of_ne_nil (written_ne_nil hne h.fits)
  have hshorter : rest.length < (written parts expressions ++ rest).length := by
    rw [List.length_append, hmore, List.length_cons]
    omega
  refine ⟨rest, rfl, hshorter, ?_⟩
  have hmatch : matchAt parts (c :: (more ++ rest)) = some expressions := by
    rw [← List.cons_append, ← hmore]
    exact matchAt_eq_some.2 h
  have hlength : (matched parts expressions).text.length = more.length + 1 := congrArg List.length hmore
  rw [hmore, List.cons_append, stretches, stretchesAfter, hmatch, Option.map_some]
  simp only [hlength]
  rw [stretchesAfter_eq_drop (by simp), List.drop_left]

/-- The stretches of a text are its matches with the characters around them. -/
theorem exists_found (hne : parts ≠ []) (text : List Char) : ∃ pieces tail, Found parts text pieces tail ∧
    stretches parts text = pieces.flatMap (Piece.stretches parts) ++ tail.map .kept := by
  induction hlength : text.length using Nat.strong_induction_on generalizing text with
  | _ length ih =>
      subst hlength
      cases hmatch : matchAt parts text with
      | some expressions =>
          have hgreedy := matchAt_eq_some.1 hmatch
          obtain ⟨rest, rfl, hshorter, hfirst⟩ := exists_rest_of_greedy hne hgreedy
          obtain ⟨pieces, tail, hfound, hstretches⟩ := ih rest.length hshorter rest rfl
          have hnext : Found parts ([] ++ (written parts expressions ++ rest)) (⟨[], expressions⟩ :: pieces) tail :=
            .next (fun place hplace hne => absurd (List.suffix_nil.1 hplace) hne) hgreedy hfound
          refine ⟨_, tail, hnext, ?_⟩
          rw [hfirst, hstretches]
          rfl
      | none =>
          have hnowhere := matchAt_eq_none.1 hmatch
          cases text with
          | nil =>
              refine ⟨[], [], .done fun place hplace => List.suffix_nil.1 hplace ▸ hnowhere, ?_⟩
              rw [stretches, stretchesAfter, hmatch]
              rfl
          | cons c text =>
              obtain ⟨pieces, tail, hfound, hstretches⟩ := ih text.length (Nat.lt_succ_self _) text rfl
              obtain ⟨pieces', tail', hfound', heq⟩ := hfound.keep hnowhere
              refine ⟨pieces', tail', hfound', ?_⟩
              rw [heq, ← hstretches, stretches, stretchesAfter, hmatch]
              rfl

/-- What a piece covers of the text: what is kept, and the match. -/
def Piece.covered (parts : List Part) (p : Piece) : List Char :=
  p.kept ++ written parts p.expressions

theorem Found.text_eq {text tail : List Char} {pieces : List Piece} (h : Found parts text pieces tail) :
    text = pieces.flatMap (Piece.covered parts) ++ tail := by
  induction h with
  | done => rfl
  | next _ _ _ ih =>
      rw [List.flatMap_cons, List.append_assoc, ← ih, Piece.covered, List.append_assoc]

theorem Found.greedy {text tail : List Char} {pieces : List Piece} (h : Found parts text pieces tail) :
    ∀ p ∈ pieces, ∃ place, Greedy parts place p.expressions := by
  induction h with
  | done => exact List.forall_mem_nil _
  | next _ greedy _ ih => exact List.forall_mem_cons.2 ⟨⟨_, greedy⟩, ih⟩

theorem Found.not_done {tail kept rest : List Char} {expressions : List (List Char)}
    (hnowhere : ∀ place, place <:+ tail → ∀ others, ¬ Fits parts place others)
    (hgreedy : Greedy parts (written parts expressions ++ rest) expressions)
    (heq : tail = kept ++ (written parts expressions ++ rest)) : False :=
  hnowhere _ (heq ▸ List.suffix_append _ _) expressions hgreedy.fits

theorem Found.kept_prefix {kept kept' behind behind' : List Char} {expressions : List (List Char)}
    (hnowhere : ∀ place, place <:+ kept → place ≠ [] → ∀ others, ¬ Fits parts (place ++ behind) others)
    (hgreedy : Greedy parts behind' expressions) (heq : kept ++ behind = kept' ++ behind') : kept <+: kept' := by
  rcases List.append_eq_append_iff.1 heq with ⟨more, rfl, _⟩ | ⟨more, rfl, rfl⟩
  · exact List.prefix_append _ _
  · cases more with
    | nil => simp
    | cons c more => exact absurd hgreedy.fits (hnowhere _ (List.suffix_append _ _) (List.cons_ne_nil _ _) _)

/-- A text has its matches in one way only. -/
theorem Found.unique {text tail tail' : List Char} {pieces pieces' : List Piece} (h : Found parts text pieces tail)
    (h' : Found parts text pieces' tail') : pieces' = pieces ∧ tail' = tail := by
  generalize htext : text = text' at h'
  induction h generalizing pieces' tail' text' with
  | done nowhere =>
      cases h' with
      | done => exact ⟨rfl, htext.symm⟩
      | next _ greedy' _ => exact (Found.not_done nowhere greedy' htext).elim
  | @next kept rest tail expressions pieces nowhere greedy _ ih =>
      cases h' with
      | done nowhere' => exact (Found.not_done nowhere' greedy htext.symm).elim
      | @next kept' rest' _ expressions' pieces' nowhere' greedy' later' =>
          have hle := (Found.kept_prefix nowhere greedy' htext).length_le
          have hge := (Found.kept_prefix nowhere' greedy htext.symm).length_le
          obtain ⟨rfl, hbehind⟩ := List.append_inj htext (Nat.le_antisymm hle hge)
          have hsame := (matchAt_eq_some.2 greedy).symm.trans (hbehind ▸ matchAt_eq_some.2 greedy')
          obtain rfl := Option.some.inj hsame
          obtain ⟨rfl, rfl⟩ := ih _ (List.append_cancel_left hbehind) later'
          exact ⟨rfl, rfl⟩

end Pattern

/-! ## What is made of the matches -/

namespace Rule

open Pattern (Piece Found)

/-- What the placeholders of the pattern capture in a match. -/
def captures (rule : Rule) (p : Piece) : List (String × String) :=
  (Pattern.matched (Template.parts rule.pattern) p.expressions).captures

/-- The replacement filled with what has been captured. -/
def filled (rule : Rule) (p : Piece) : List Char :=
  Template.fill (NameMap.ofList (rule.captures p)) (Template.parts rule.replacement)

/-- What a piece becomes: what is kept, and the filled replacement. -/
def rewritten (rule : Rule) (p : Piece) : List Char :=
  p.kept ++ rule.filled p

variable {rule : Rule} {compiled : CompiledRule}

theorem firstRepeated?_eq_none {earlier names : List String} (h : firstRepeated? earlier names = none) :
    names.Nodup ∧ ∀ name ∈ names, name ∉ earlier := by
  induction names generalizing earlier with
  | nil => exact ⟨List.nodup_nil, List.forall_mem_nil _⟩
  | cons name names ih =>
      rw [firstRepeated?] at h
      split at h
      · cases h
      · next hnew =>
        obtain ⟨hnodup, hothers⟩ := ih h
        refine ⟨List.nodup_cons.2 ⟨fun hmem => hothers name hmem List.mem_cons_self, hnodup⟩, ?_⟩
        refine List.forall_mem_cons.2 ⟨hnew, fun other hother hmem => ?_⟩
        exact hothers other hother (List.mem_cons_of_mem _ hmem)

/-- A pattern that is ready names no placeholder twice. -/
theorem nodup_of_compile (h : rule.compile = .ok compiled) : (Template.names rule.pattern).Nodup := by
  obtain ⟨hfault, _⟩ := compile_eq_ok h
  rw [fault?] at hfault
  split at hfault
  · cases hfault
  · next hnone => exact (firstRepeated?_eq_none hnone).1

theorem apply_eq_rewritten (h : rule.compile = .ok compiled) {text : String} {pieces : List Piece} {tail : List Char}
    (hstretches : Pattern.stretches (Template.parts rule.pattern) text.toList =
      pieces.flatMap (Piece.stretches (Template.parts rule.pattern)) ++ tail.map .kept) :
    compiled.apply text = .ok (String.ofList (pieces.flatMap rule.rewritten ++ tail)) := by
  have hclosed := closed_of_compile h
  obtain ⟨_, rfl⟩ := compile_eq_ok h
  rw [hclosed.apply_eq, hstretches, List.flatMap_append, List.flatMap_assoc, List.flatMap_map]
  have hkept : ∀ chars : List Char, chars.flatMap
      (fun c => CompiledRule.turned ⟨Template.parts rule.pattern, Template.parts rule.replacement⟩ (.kept c)) = chars :=
    fun chars => List.flatMap_singleton' chars
  have hpiece : ∀ p : Piece, (Piece.stretches (Template.parts rule.pattern) p).flatMap
      (CompiledRule.turned ⟨Template.parts rule.pattern, Template.parts rule.replacement⟩) = rule.rewritten p := by
    intro p
    rw [Piece.stretches, List.flatMap_append, List.flatMap_map, hkept, List.flatMap_singleton]
    rfl
  simp only [hkept, hpiece]

/-- The replacement can be filled, and what it names of the captures stands in it. -/
theorem populate_captures (h : rule.compile = .ok compiled) {p : Piece} {place : List Char}
    (hgreedy : Pattern.Greedy (Template.parts rule.pattern) place p.expressions) :
    Template.populate rule.replacement (.ofList (rule.captures p)) = .ok (String.ofList (rule.filled p)) ∧
      ∀ name captured, (name, captured) ∈ rule.captures p → name ∈ Template.names rule.replacement →
        captured.toList <:+: rule.filled p := by
  have hmatch := Pattern.matchAt_eq_some.2 hgreedy
  have hclosed := closed_of_compile h
  have hnodup := nodup_of_compile h
  obtain ⟨_, rfl⟩ := compile_eq_ok h
  have hfilled := Template.populate_eq_ok (hclosed.contains_captures hmatch)
  refine ⟨hfilled, fun name captured hmem hname => ?_⟩
  rw [Template.names, List.mem_filterMap] at hname
  obtain ⟨part, hpart, hpartname⟩ := hname
  cases part with
  | plain c => cases hpartname
  | placeholder chars =>
      cases hpartname
      rw [Template.names, ← Pattern.names_of_matched hmatch] at hnodup
      have hget := NameMap.get?_ofList_of_mem hnodup hmem
      have hinfix := Template.infix_of_populate hfilled (by rwa [String.toList_ofList]) hget
      rwa [String.toList_ofList] at hinfix

end Rule

/-! ## Splices -/

namespace Rule

open Pattern (Piece Found)

/-- The splices that replace the matches, if the first piece begins at the byte `start` of the text. -/
def splicesFrom (rule : Rule) (start : Nat) : List Piece → List Splice
  | [] => []
  | p :: pieces =>
    let first := start + (utf8 p.kept).length
    let last := first + (utf8 (Pattern.written (Template.parts rule.pattern) p.expressions)).length
    ⟨first, last, utf8 (rule.filled p)⟩ :: splicesFrom rule last pieces

/-- The places of the splices are those of the text as it was. The last one is done first, so that those in front
of it stay where they are. -/
theorem foldr_splicesFrom (rule : Rule) (front : List UInt8) (pieces : List Piece) (tail : List Char) :
    (rule.splicesFrom front.length pieces).foldr Splice.into
        (front ++ utf8 (pieces.flatMap (Piece.covered (Template.parts rule.pattern)) ++ tail)) =
      front ++ utf8 (pieces.flatMap rule.rewritten ++ tail) := by
  induction pieces generalizing front with
  | nil => rfl
  | cons p pieces ih =>
      have hbehind := ih (front ++ utf8 p.kept ++ utf8 (Pattern.written (Template.parts rule.pattern) p.expressions))
      have hhere := Splice.into_append (front ++ utf8 p.kept)
        (utf8 (Pattern.written (Template.parts rule.pattern) p.expressions)) (utf8 (rule.filled p))
        (utf8 (pieces.flatMap rule.rewritten ++ tail))
      simp only [List.length_append] at hbehind hhere
      simp only [List.flatMap_cons, Piece.covered, rewritten, utf8_append, splicesFrom, List.foldr_cons,
        List.append_assoc] at hbehind hhere ⊢
      rw [hbehind, hhere]

/-! ## Rewriting -/

/-- A rule whose pattern is not empty replaces its matches, found from left to right and each the greedy one at the
first place at which the pattern fits, by its replacement filled with what they capture. All else is kept, what is
captured is lost only if the replacement does not name it, and the splices come to the same. -/
theorem apply_rewrites_matches {rule : Rule} {compiled : CompiledRule} (hcompile : rule.compile = .ok compiled)
    (hpattern : rule.pattern ≠ "") (text : String) :
    ∃ pieces tail, Found (Template.parts rule.pattern) text.toList pieces tail ∧
      (∀ others rest, Found (Template.parts rule.pattern) text.toList others rest → others = pieces ∧ rest = tail) ∧
      text.toList = pieces.flatMap (Piece.covered (Template.parts rule.pattern)) ++ tail ∧
      compiled.apply text = .ok (String.ofList (pieces.flatMap rule.rewritten ++ tail)) ∧
      (∀ p ∈ pieces,
        Template.populate rule.replacement (.ofList (rule.captures p)) = .ok (String.ofList (rule.filled p)) ∧
        ∀ name captured, (name, captured) ∈ rule.captures p → name ∈ Template.names rule.replacement →
          captured.toList <:+: rule.filled p) ∧
      (rule.splicesFrom 0 pieces).foldr Splice.into (utf8 text.toList) =
        utf8 (pieces.flatMap rule.rewritten ++ tail) := by
  have hparts : Template.parts rule.pattern ≠ [] := by
    intro hnil
    have hspelling := Template.flatMap_spelling_parts rule.pattern
    rw [hnil] at hspelling
    exact hpattern (String.toList_eq_nil_iff.1 hspelling.symm)
  obtain ⟨pieces, tail, hfound, hstretches⟩ := Pattern.exists_found hparts text.toList
  have htext := hfound.text_eq
  refine ⟨pieces, tail, hfound, fun _ _ => hfound.unique, htext, apply_eq_rewritten hcompile hstretches,
    fun p hp => ?_, ?_⟩
  · obtain ⟨place, hgreedy⟩ := hfound.greedy p hp
    exact populate_captures hcompile hgreedy
  · rw [htext]
    exact rule.foldr_splicesFrom [] pieces tail

end Rule

namespace Bench

/-- A rule that changes the order of the arguments of a call. -/
def swap : Rule := ⟨"f(\x7b\x7bx\x7d\x7d, \x7b\x7by\x7d\x7d)", "g(\x7b\x7by\x7d\x7d, \x7b\x7bx\x7d\x7d)"⟩

end Bench

namespace Rule

open Pattern (Found)

/-- A character of two bytes in front, and a capture that would take the closing parenthesis if it could. -/
theorem apply_rewrites_matches_swap : ∃ compiled pieces tail,
    Bench.swap.compile = .ok compiled ∧ Bench.swap.pattern ≠ "" ∧
      Found (Template.parts Bench.swap.pattern) "é f(a, b); f(c, (d));".toList pieces tail ∧
      String.ofList (pieces.flatMap Bench.swap.rewritten ++ tail) = "é g(b, a); g((d), c);" := by
  have hcompile : Bench.swap.compile =
      .ok ⟨Template.parts Bench.swap.pattern, Template.parts Bench.swap.replacement⟩ := by decide
  have hpattern : Bench.swap.pattern ≠ "" := by decide
  have happly : CompiledRule.apply ⟨Template.parts Bench.swap.pattern, Template.parts Bench.swap.replacement⟩
      "é f(a, b); f(c, (d));" = .ok "é g(b, a); g((d), c);" := by decide
  obtain ⟨pieces, tail, hfound, _, _, hrewritten, _⟩ := apply_rewrites_matches hcompile hpattern "é f(a, b); f(c, (d));"
  exact ⟨_, pieces, tail, hcompile, hpattern, hfound, Except.ok.inj (hrewritten.symm.trans happly)⟩

end Rule

end SerialContract
