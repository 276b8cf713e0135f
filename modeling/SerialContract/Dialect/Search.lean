import SerialContract.Dialect.Pattern

/-!
# Search

All matches of a pattern in a text. To try the pattern at one place after the other makes the same
attempts again and again. `matchAll` goes through the placeholders from the last to the first instead,
and finds for each what the parts from there on capture at every place of the text.
-/

namespace SerialContract

open Template (Part)

/-- A list and what remains of it behind its first element, its second and so on. -/
def suffixes {α : Type} (list : List α) : List (List α) :=
  list.scanr List.cons []

theorem suffixes_nil {α : Type} : suffixes ([] : List α) = [[]] := List.scanr_nil

theorem suffixes_cons {α : Type} (head : α) (rest : List α) :
    suffixes (head :: rest) = (head :: rest) :: suffixes rest := by
  simp [suffixes]

theorem map_suffixes_eq_cons {α β : Type} (f : List α → β) (list : List α) :
    (suffixes list).map f = f list :: ((suffixes list).map f).tail := by
  cases list with
  | nil => simp [suffixes_nil]
  | cons head rest => simp [suffixes_cons]

/-- The expression that a character begins, from the longest one behind it and from what succeeds
behind it. -/
def captureStep {α : Type} (place : Char × Option α) (longer : Option (List Char × α)) :
    Option (List Char × α) :=
  if isExpressionChar place.1 then
    match longer with
    | some (expression, result) => some (place.1 :: expression, result)
    | none => place.2.map fun result => ([place.1], result)
  else none

/-- The longest expression at every place of a text, from what succeeds at every place. -/
def captureAll {α : Type} (nexts : List (Option α)) (text : List Char) :
    List (Option (List Char × α)) :=
  (text.zip nexts.tail).scanr captureStep none

theorem foldr_captureStep {α : Type} (next : List Char → Option α) (text : List Char) :
    (text.zip ((suffixes text).map next).tail).foldr captureStep none = capture next text := by
  induction text with
  | nil => rfl
  | cons c rest ih =>
    rw [suffixes_cons, List.map_cons, List.tail_cons, map_suffixes_eq_cons, List.zip_cons_cons,
      List.foldr_cons, ih]
    rfl

theorem captureAll_map_suffixes {α : Type} (next : List Char → Option α) (text : List Char) :
    captureAll ((suffixes text).map next) text = (suffixes text).map (capture next) := by
  induction text with
  | nil => rfl
  | cons c rest ih =>
    have here := foldr_captureStep next (c :: rest)
    rw [suffixes_cons, List.map_cons, List.tail_cons, map_suffixes_eq_cons, List.zip_cons_cons] at here
    rw [captureAll, suffixes_cons, List.map_cons, List.tail_cons, map_suffixes_eq_cons next rest,
      List.zip_cons_cons, List.scanr_cons, here, List.map_cons, ← ih]
    rfl

namespace Pattern

/-- What succeeds behind a run of characters at the front of a text, from what succeeds at the places
of the text. -/
def behind {α : Type} : List Char → List Char → List (Option α) → Option α
  | [], _, place :: _ => place
  | c :: run, d :: rest, _ :: places => if c = d then behind run rest places else none
  | _, _, _ => none

/-- What succeeds behind a run of characters at every place of a text, from what succeeds there. -/
def behindAll {α : Type} (run text : List Char) (places : List (Option α)) : List (Option α) :=
  if run.isEmpty then places else List.zipWith (behind run) (suffixes text) (suffixes places)

theorem behind_map_suffixes (run : List Char) (parts : List Part) (text : List Char) :
    behind run text ((suffixes text).map (matchAt parts)) =
      matchAt (run.map .plain ++ parts) text := by
  induction run generalizing text with
  | nil => rw [map_suffixes_eq_cons]; rfl
  | cons c run ih =>
    cases text with
    | nil => rfl
    | cons d rest =>
      rw [suffixes_cons, List.map_cons, behind, List.map_cons, List.cons_append, matchAt, ih]

theorem zipWith_behind (run : List Char) (parts : List Part) (text : List Char) :
    List.zipWith (behind run) (suffixes text) (suffixes ((suffixes text).map (matchAt parts))) =
      (suffixes text).map (matchAt (run.map .plain ++ parts)) := by
  induction text with
  | nil => simpa [suffixes_nil, suffixes_cons] using behind_map_suffixes run parts []
  | cons c rest ih =>
    have here := behind_map_suffixes run parts (c :: rest)
    rw [suffixes_cons, List.map_cons] at here
    rw [suffixes_cons, List.map_cons, suffixes_cons, List.zipWith_cons_cons, here, ih, List.map_cons]

theorem behindAll_map_suffixes (run : List Char) (parts : List Part) (text : List Char) :
    behindAll run text ((suffixes text).map (matchAt parts)) =
      (suffixes text).map (matchAt (run.map .plain ++ parts)) := by
  rw [behindAll]
  split
  · next empty => rw [List.isEmpty_iff.1 empty]; rfl
  · exact zipWith_behind run parts text

/-- The characters in front of the first placeholder, and what the parts behind them capture at every
place of a text. -/
def placesOf (text : List Char) : List Part → List Char × List (Option (List (List Char)))
  | [] => ([], (suffixes text).map fun _ => some [])
  | .plain c :: parts =>
    let (run, places) := placesOf text parts
    (c :: run, places)
  | .placeholder _ :: parts =>
    let (run, places) := placesOf text parts
    ([], (captureAll (behindAll run text places) text).map
      (·.map fun (expression, more) => expression :: more))

theorem placesOf_eq (text : List Char) (parts : List Part) :
    ∃ behind, parts = (placesOf text parts).1.map .plain ++ behind ∧
      (placesOf text parts).2 = (suffixes text).map (matchAt behind) := by
  induction parts with
  | nil => exact ⟨[], rfl, rfl⟩
  | cons part parts ih =>
    obtain ⟨behind, front, places⟩ := ih
    cases part with
    | plain c => exact ⟨behind, congrArg _ front, places⟩
    | placeholder name =>
      refine ⟨.placeholder name :: parts, rfl, ?_⟩
      rw [placesOf]
      simp only [places]
      rw [behindAll_map_suffixes, ← front, captureAll_map_suffixes, List.map_map]
      rfl

/-- What the pattern captures at every place of a text. -/
def matchAll (parts : List Part) (text : List Char) : List (Option (List (List Char))) :=
  let (run, places) := placesOf text parts
  behindAll run text places

/-- The matches found together are those found at each place alone. -/
theorem matchAll_eq (parts : List Part) (text : List Char) :
    matchAll parts text = (suffixes text).map (matchAt parts) := by
  obtain ⟨behind, front, places⟩ := placesOf_eq text parts
  rw [matchAll]
  simp only [places]
  rw [behindAll_map_suffixes, ← front]

/-- The stretches behind those that are `done`, which stand in reverse order, from what the pattern
captures at every place. -/
def searchOnto (parts : List Part) (done : List Stretch) :
    Nat → List Char → List (Option (List (List Char))) → List Stretch
  | _, _, [] => done.reverse
  | _ + 1, [], _ => done.reverse
  | skipped + 1, _ :: rest, _ :: places => searchOnto parts done skipped rest places
  | 0, [], place :: _ => ((place.map (Stretch.found ∘ matched parts)).toList ++ done).reverse
  | 0, c :: rest, place :: places =>
    match place.map (matched parts) with
    | none => searchOnto parts (.kept c :: done) 0 rest places
    | some m =>
      match m.text.length with
      | 0 => searchOnto parts (.kept c :: .found m :: done) 0 rest places
      | more + 1 => searchOnto parts (.found m :: done) more rest places

theorem searchOnto_eq (parts : List Part) (done : List Stretch) (skipped : Nat) (text : List Char) :
    searchOnto parts done skipped text ((suffixes text).map (matchAt parts)) =
      done.reverse ++ stretchesAfter parts skipped text := by
  induction text generalizing done skipped with
  | nil =>
    rw [suffixes_nil]
    cases skipped with
    | succ => simp [searchOnto, stretchesAfter]
    | zero => cases h : matchAt parts [] <;> simp [searchOnto, stretchesAfter, h]
  | cons c rest ih =>
    rw [suffixes_cons, List.map_cons]
    cases skipped with
    | succ skipped => rw [searchOnto, stretchesAfter, ih]
    | zero =>
      rw [searchOnto, stretchesAfter]
      cases (matchAt parts (c :: rest)).map (matched parts) with
      | none => simp [ih]
      | some m => dsimp only; cases m.text.length <;> simp [ih]

/-- The matches of the pattern in a text and the characters around them, all places searched at once. -/
def search (parts : List Part) (text : List Char) : List Stretch :=
  searchOnto parts [] 0 text (matchAll parts text)

/-- To search all places at once finds the stretches. -/
theorem search_eq (parts : List Part) (text : List Char) :
    search parts text = stretches parts text := by
  rw [search, matchAll_eq, searchOnto_eq, List.reverse_nil, List.nil_append, stretches]

end Pattern

end SerialContract
