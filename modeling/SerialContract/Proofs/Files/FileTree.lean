import SerialContract.Proofs.Files.Place
import SerialContract.Proofs.NameMap
import SerialContract.Proofs.Results

/-!
# What operations on files change

Making directories adds some on the way to a path, where nothing was, and writing a file changes one place. Both keep
the directories that are there, so that paths lead where they did.
-/

namespace SerialContract.FileTree

open SerialContract.Path (IsName)

variable {tree tree' tree'' : FileTree} {place : List String}

/-! ## What is at a place -/

theorem get?_put (tree : FileTree) (place : List String) (entry : FileEntry) (name : String) :
    (tree.put place entry).entries.get? name = if name = placeName place then some entry else tree.entries.get? name :=
  NameMap.get?_insert ..

theorem entry?_put_self (tree : FileTree) (place : List String) (entry : FileEntry) :
    entry? (tree.put place entry) place = some entry := by
  rw [ entry?, get?_put, if_pos rfl, Option.some_or]

theorem entry?_put_of_ne {other : List String} (h : IsPlace place) (hother : IsPlace other) (hne : other ≠ place)
    (entry : FileEntry) : entry? (tree.put place entry) other = tree.entry? other := by
  rw [ entry?, get?_put, if_neg fun heq => hne ((placeName_inj hother h).1 heq), entry?]

theorem put_eq_self {entry : FileEntry} (h : tree.entries.get? (placeName place) = some entry) :
    tree.put place entry = tree := by
  have hentries : (tree.put place entry).entries = tree.entries := by
    refine NameMap.ext_get? fun name => ?_
    rw [get?_put]
    split
    · next heq => rw [heq, h]
    · rfl
  cases tree
  exact congrArg FileTree.mk hentries

/-! ## Where steps lead -/

theorem walk_append (tree : FileTree) (place front back : List String) :
    tree.walk place (front ++ back) = tree.walk place front >>= fun reached => tree.walk reached back := by
  induction front generalizing place with
  | nil => rfl
  | cons step front ih =>
      rw [List.cons_append, walk, walk]
      cases tree.entry? place with
      | none => rfl
      | some entry =>
          cases entry with
          | file contents => rfl
          | directory =>
              simp only
              split
              · exact ih _
              · split
                · rfl
                · exact ih _

/-- A step that is taken: out of a directory, to the one above or to what is in it. -/
theorem walk_cons_eq_ok {step : String} {rest reached : List String} :
    tree.walk place (step :: rest) = .ok reached ↔ tree.entry? place = some .directory ∧
      if step = Path.up then tree.walk (above place) rest = .ok reached
      else (utf8 step.toList).length ≤ longestName ∧ tree.walk (place ++ [step]) rest = .ok reached := by
  rw [walk]
  cases tree.entry? place with
  | none => simp
  | some entry =>
      cases entry with
      | file contents => simp
      | directory =>
          simp only [true_and]
          split
          · rfl
          · split
            · next hlong => simp [Nat.not_le.2 hlong]
            · next hshort => simp [Nat.le_of_not_lt hshort]

theorem isPlace_of_walk {steps reached : List String} (hplace : IsPlace place) (hsteps : ∀ step ∈ steps, IsName step)
    (h : tree.walk place steps = .ok reached) : IsPlace reached := by
  induction steps generalizing place with
  | nil =>
      cases h
      exact hplace
  | cons step steps ih =>
      rw [List.forall_mem_cons] at hsteps
      obtain ⟨_, h⟩ := walk_cons_eq_ok.1 h
      split at h
      · exact ih hplace.above hsteps.2 h
      · exact ih (hplace.snoc hsteps.1) hsteps.2 h.2

theorem locate_eq_ok {path : String} : tree.locate path = .ok place ↔
    pathFault? path = none ∧ tree.walk (Path.start path) (Path.steps path) = .ok place := by
  rw [locate]
  cases pathFault? path with
  | none => simp
  | some fault => simp

theorem isPlace_of_locate {path : String} (h : tree.locate path = .ok place) : IsPlace place :=
  isPlace_of_walk (.start path) (fun _ => Path.isName_of_mem_steps) (locate_eq_ok.1 h).2

theorem read_eq_ok {path : String} {contents : List UInt8} : tree.read path = .ok contents ↔
    ∃ place, tree.locate path = .ok place ∧ tree.entry? place = some (.file contents) ∧
      Path.asksDirectory path = false := by
  rw [read, bind_eq_ok]
  refine exists_congr fun place => and_congr_right fun _ => ?_
  cases tree.entry? place with
  | none => simp
  | some entry =>
      cases entry with
      | directory => simp
      | file held => cases Path.asksDirectory path <;> simp

/-! ## What is in a directory -/

/-- Something is in a directory: the tree, which is inside of it, or what stands at a place below. -/
def Holds (tree : FileTree) (place : List String) : Prop :=
  if place = [] then ∃ name, tree.entries.contains name = true ∧ isOutside name = false
  else isGivenDirectory place = true ∨ ∃ below, below ≠ [] ∧ tree.entries.contains (placeName (place ++ below)) = true

/-- A path leads to a directory with something in it. -/
def Occupied (tree : FileTree) (path : String) : Prop :=
  ∃ place, tree.locate path = .ok place ∧ tree.entry? place = some .directory ∧ tree.Holds place

theorem placeName_append {place below : List String} (hplace : place ≠ []) (hbelow : below ≠ []) :
    placeName (place ++ below) = placeName place ++ "/" ++ placeName below := by
  have hmap : ∀ names : List String, names ≠ [] → names.map String.toList ≠ [] := fun names hne heq =>
    hne (List.map_eq_nil_iff.1 heq)
  rw [← String.toList_inj, placeName, String.toList_intercalate, List.map_append,
    intercalate_append (hmap _ hplace) (hmap _ hbelow)]
  simp only [placeName, String.toList_append, String.toList_intercalate]

theorem hasBelow_iff : tree.hasBelow place = true ↔ tree.Holds place := by
  have hcontains : ∀ name, name ∈ tree.entries.names ↔ tree.entries.contains name = true := fun name => by
    rw [NameMap.mem_names_iff, NameMap.contains, Option.isSome_iff_exists]
  by_cases hplace : place = []
  · simp [hasBelow, Holds, hplace, hcontains]
  · rw [hasBelow, Holds, if_neg (List.isEmpty_iff.not.2 hplace), if_neg hplace, Bool.or_eq_true, List.any_eq_true]
    refine or_congr_right ⟨?_, ?_⟩
    · rintro ⟨name, hname, hbelow⟩
      obtain ⟨rest, hrest⟩ := List.isPrefixOf_iff_prefix.1 hbelow
      refine ⟨[String.ofList rest], List.cons_ne_nil _ _, ?_⟩
      have heq : placeName (place ++ [String.ofList rest]) = name := by
        rw [placeName_append hplace (List.cons_ne_nil _ _), ← String.toList_inj, ← hrest, String.toList_append]
        exact congrArg (_ ++ ·) String.toList_ofList
      rwa [heq, ← hcontains]
    · rintro ⟨below, hne, hheld⟩
      refine ⟨_, (hcontains _).2 hheld, List.isPrefixOf_iff_prefix.2 ⟨(placeName below).toList, ?_⟩⟩
      simp only [placeName_append hplace hne, String.toList_append]

theorem isOccupied_eq_true {path : String} : tree.isOccupied path = .ok true ↔ tree.Occupied path := by
  rw [isOccupied, Occupied]
  cases tree.locate path with
  | error fault => cases fault <;> simp
  | ok place =>
      simp only [Except.ok.injEq, exists_eq_left']
      cases tree.entry? place with
      | none => simp
      | some entry => cases entry <;> simp [hasBelow_iff]

/-! ## Directories stay -/

/-- Directories that are in the one tree are in the other. -/
def Keeps (tree tree' : FileTree) : Prop :=
  ∀ place, IsPlace place → tree.entry? place = some .directory → tree'.entry? place = some .directory

theorem Keeps.refl (tree : FileTree) : tree.Keeps tree := fun _ _ h => h

theorem Keeps.trans (h : tree.Keeps tree') (h' : tree'.Keeps tree'') : tree.Keeps tree'' :=
  fun place hplace hentry => h' place hplace (h place hplace hentry)

theorem Keeps.walk (h : tree.Keeps tree') {steps reached : List String} (hplace : IsPlace place)
    (hsteps : ∀ step ∈ steps, IsName step) (hwalk : tree.walk place steps = .ok reached) :
    tree'.walk place steps = .ok reached := by
  induction steps generalizing place with
  | nil => exact hwalk
  | cons step steps ih =>
      rw [List.forall_mem_cons] at hsteps
      rw [walk_cons_eq_ok] at hwalk ⊢
      refine ⟨h place hplace hwalk.1, ?_⟩
      obtain ⟨_, hwalk⟩ := hwalk
      split at hwalk
      · next hup =>
        rw [if_pos hup]
        exact ih hplace.above hsteps.2 hwalk
      · next hup =>
        rw [if_neg hup]
        exact ⟨hwalk.1, ih (hplace.snoc hsteps.1) hsteps.2 hwalk.2⟩

theorem Keeps.locate (h : tree.Keeps tree') {path : String} (hlocate : tree.locate path = .ok place) :
    tree'.locate path = .ok place := by
  rw [locate_eq_ok] at hlocate ⊢
  exact ⟨hlocate.1, h.walk (.start path) (fun _ => Path.isName_of_mem_steps) hlocate.2⟩

theorem keeps_put (hplace : IsPlace place) {entry : FileEntry}
    (h : tree.entry? place = some .directory → entry = .directory) : tree.Keeps (tree.put place entry) := by
  intro other hother hentry
  by_cases heq : other = place
  · subst heq
    rw [ entry?_put_self, h hentry]
  · rwa [entry?_put_of_ne hplace hother heq]

/-! ## Making directories -/

/-- A place on the way that steps lead. -/
def OnWay (tree : FileTree) (place steps reached : List String) : Prop :=
  ∃ front, front <+: steps ∧ tree.walk place front = .ok reached

/-- A tree that differs from another at the places that are written, and has more directories on a way where nothing
was. -/
structure Changes (tree tree' : FileTree) (written : List String) (place steps : List String) : Prop where
  keeps : tree.Keeps tree'
  others : ∀ name, name ∉ written → tree'.entries.get? name = tree.entries.get? name ∨
    ∃ made, tree'.OnWay place steps made ∧ name = placeName made ∧ tree.entry? made = none ∧
      tree'.entries.get? name = some .directory

section Changes

variable {steps : List String} {written written' : List String}

theorem entry?_of_get? {entry : FileEntry} (h : tree.entries.get? (placeName place) = some entry) :
    tree.entry? place = some entry := by
  rw [ entry?, h, Option.some_or]

theorem Changes.refl (tree : FileTree) (place steps : List String) : tree.Changes tree [] place steps :=
  ⟨.refl tree, fun _ _ => .inl rfl⟩

theorem OnWay.keep {reached : List String} (h : tree.OnWay place steps reached) (hplace : IsPlace place)
    (hsteps : ∀ step ∈ steps, IsName step) (hkeeps : tree.Keeps tree') : tree'.OnWay place steps reached := by
  obtain ⟨front, hfront, hwalk⟩ := h
  exact ⟨front, hfront, hkeeps.walk hplace (fun step hstep => hsteps step (hfront.subset hstep)) hwalk⟩

theorem Changes.trans (h : tree.Changes tree' written place steps) (h' : tree'.Changes tree'' written' place steps)
    (hplace : IsPlace place) (hsteps : ∀ step ∈ steps, IsName step) :
    tree.Changes tree'' (written ++ written') place steps := by
  refine ⟨h.keeps.trans h'.keeps, fun name hname => ?_⟩
  rw [List.mem_append, not_or] at hname
  rcases h'.others name hname.2 with hsame | ⟨made, hway, rfl, hnone, hmade⟩
  · rw [hsame]
    rcases h.others name hname.1 with hsame | ⟨made, hway, hmade⟩
    · exact .inl hsame
    · exact .inr ⟨made, hway.keep hplace hsteps h'.keeps, hmade⟩
  · rcases h.others _ hname.1 with hsame | ⟨_, _, _, _, hmade'⟩
    · refine .inr ⟨made, hway, rfl, ?_, hmade⟩
      rwa [ entry?, ← hsame, ← entry?]
    · rw [entry?_of_get? hmade'] at hnone
      cases hnone

theorem Changes.mono {longer : List String} (h : tree.Changes tree' written place steps) (hlonger : steps <+: longer) :
    tree.Changes tree' written place longer := by
  refine ⟨h.keeps, fun name hname => (h.others name hname).imp_right fun ⟨made, hway, hmade⟩ => ⟨made, ?_, hmade⟩⟩
  obtain ⟨front, hfront, hwalk⟩ := hway
  exact ⟨front, hfront.trans hlonger, hwalk⟩

/-- An entry that is not written stays. -/
theorem Changes.get? (h : tree.Changes tree' written place steps) {name : String} {entry : FileEntry}
    (hname : name ∉ written) (hentry : tree.entries.get? name = some entry) :
    tree'.entries.get? name = some entry := by
  rcases h.others name hname with hsame | ⟨made, _, rfl, hnone, _⟩
  · exact hsame.trans hentry
  · rw [entry?_of_get? hentry] at hnone
    cases hnone

/-- What is at a place that is not written stays. -/
theorem Changes.entry (h : tree.Changes tree' written place steps) (hplace : IsPlace place)
    (hsteps : ∀ step ∈ steps, IsName step) {held : List String} {entry : FileEntry} (hheld : IsPlace held)
    (hname : placeName held ∉ written) (hentry : tree.entry? held = some entry) : tree'.entry? held = some entry := by
  rcases h.others _ hname with hsame | ⟨made, ⟨front, hfront, hwalk⟩, hmade, hnone, _⟩
  · rwa [ entry?, hsame, ← entry?]
  · have hmadeplace := isPlace_of_walk hplace (fun step hstep => hsteps step (hfront.subset hstep)) hwalk
    rw [(placeName_inj hheld hmadeplace).1 hmade, hnone] at hentry
    cases hentry

theorem changes_makeDirectory (hplace : IsPlace place) (hsteps : ∀ step ∈ steps, IsName step)
    (h : tree.makeDirectory place steps = .ok tree') : tree.Changes tree' [] place steps := by
  obtain ⟨reached, hwalk, h⟩ := bind_eq_ok.1 h
  have hreached := isPlace_of_walk hplace hsteps hwalk
  split at h
  · cases h
  · next hnothing =>
    cases h
    have hnone : tree.entry? reached = none := Option.not_isSome_iff_eq_none.1 hnothing
    have hkeeps : tree.Keeps (tree.put reached .directory) := keeps_put hreached fun _ => rfl
    refine ⟨hkeeps, fun name _ => ?_⟩
    rw [get?_put]
    split
    · next hname =>
      exact .inr ⟨reached, ⟨steps, List.prefix_refl _, hkeeps.walk hplace hsteps hwalk⟩, hname, hnone, rfl⟩
    · exact .inl rfl

/-- Whatever comes of making directories, only directories on the way are added. -/
theorem changes_makeDirectories (tree : FileTree) (hplace : IsPlace place) {back : List String}
    (hback : ∀ step ∈ back, IsName step) :
    tree.Changes (tree.makeDirectories place back).2 [] place back.reverse := by
  induction back with
  | nil => exact .refl ..
  | cons last before ih =>
      have hsteps : ∀ step ∈ (last :: before).reverse, IsName step := fun step hstep =>
        hback step (List.mem_reverse.1 hstep)
      have hbefore := (ih (List.forall_mem_cons.1 hback).2).mono
        (show before.reverse <+: (last :: before).reverse from ⟨[last], List.reverse_cons.symm⟩)
      rw [makeDirectories]
      split
      · next hmade => exact changes_makeDirectory hplace hsteps hmade
      · split
        · next heq => exact heq ▸ hbefore
        · next reached heq =>
          rw [heq] at hbefore
          split
          · next hmade => exact hbefore.trans (changes_makeDirectory hplace hsteps hmade) hplace hsteps
          · exact hbefore
      · exact .refl ..

theorem makeDirectories_of_directory {back reached : List String} (hwalk : tree.walk place back.reverse = .ok reached)
    (hentry : tree.entry? reached = some .directory) : tree.makeDirectories place back = (.ok (), tree) := by
  cases back with
  | nil => rfl
  | cons last before =>
      have hmake : tree.makeDirectory place (last :: before).reverse = .error .alreadyExists := by
        rw [makeDirectory, hwalk]
        simp [bind, Except.bind, hentry]
      have hhas : tree.hasDirectory place (last :: before).reverse = true := by
        rw [hasDirectory, hwalk]
        simp [hentry]
      rw [makeDirectories, hmake]
      simp only [hhas, ↓reduceIte]

end Changes

theorem changes_createDirectories (tree : FileTree) (path : String) :
    tree.Changes (createDirectories path tree).2 [] (Path.start path) (Path.steps path) := by
  rw [createDirectories]
  split
  · exact .refl ..
  · split
    · exact .refl ..
    · have hback : ∀ step ∈ (Path.steps path).reverse, IsName step := fun step hstep =>
        Path.isName_of_mem_steps (List.mem_reverse.1 hstep)
      have hchanges := changes_makeDirectories tree (.start path) hback
      rwa [List.reverse_reverse] at hchanges

/-- A directory that is there is not made again. -/
theorem createDirectories_of_directory {path : String} (hok : (createDirectories path tree).1 = .ok ())
    (hwalk : tree'.walk (Path.start path) (Path.steps path) = .ok place)
    (hentry : tree'.entry? place = some .directory) : createDirectories path tree' = (.ok (), tree') := by
  rw [createDirectories] at hok ⊢
  split
  · rfl
  · next hne =>
    rw [if_neg hne] at hok
    split at hok
    · cases hok
    · next hfault =>
      rw [← List.reverse_reverse (Path.steps path)] at hwalk
      exact makeDirectories_of_directory hwalk hentry

/-! ## Writing -/

theorem write_eq_ok {path : String} {contents : List UInt8} : write path contents tree = (.ok (), tree') ↔
    ∃ place, tree.locate path = .ok place ∧ tree.entry? place ≠ some .directory ∧ Path.asksDirectory path = false ∧
      tree' = tree.put place (.file contents) := by
  rw [write]
  cases tree.locate path with
  | error fault => simp
  | ok place =>
      simp only [Except.ok.injEq, exists_eq_left']
      split
      · next h =>
        rcases h with h | h <;> simp [h]
      · next h =>
        rw [not_or, Bool.not_eq_true] at h
        simp [h.1, h.2, eq_comm]

/-- Writing a file changes one place, at which it is found. -/
theorem changes_write {path : String} {contents : List UInt8} (h : write path contents tree = (.ok (), tree'))
    (steps : List String) : ∃ place, tree'.locate path = .ok place ∧
      tree'.entries.get? (placeName place) = some (.file contents) ∧ Path.asksDirectory path = false ∧
      tree.Changes tree' [placeName place] (Path.start path) steps := by
  obtain ⟨place, hlocate, hentry, hasks, rfl⟩ := write_eq_ok.1 h
  have hkeeps : tree.Keeps (tree.put place (.file contents)) :=
    keeps_put (isPlace_of_locate hlocate) fun hdirectory => absurd hdirectory hentry
  refine ⟨place, hkeeps.locate hlocate, by rw [get?_put, if_pos rfl], hasks, hkeeps, fun name hname => .inl ?_⟩
  rw [get?_put, if_neg fun heq => hname (List.mem_singleton.2 heq)]

/-- A file that is there is written once more without a change. -/
theorem write_again {path : String} {contents : List UInt8} (hlocate : tree.locate path = .ok place)
    (hentry : tree.entries.get? (placeName place) = some (.file contents))
    (hasks : Path.asksDirectory path = false) : write path contents tree = (.ok (), tree) := by
  refine write_eq_ok.2 ⟨place, hlocate, ?_, hasks, (put_eq_self hentry).symm⟩
  rw [entry?_of_get? hentry]
  exact fun heq => nomatch heq

end SerialContract.FileTree
