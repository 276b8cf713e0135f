import SerialContract.Proofs.Command.Writing

/-!
# Generating into a tree of files

Nothing is written unless the contract can be read, all files can be generated, and the directory that they are
written into is empty or may be overwritten. Then the files are what has changed, and generating them once more changes
nothing.
-/

namespace SerialContract.Command

open FileTree

/-! ## Running on a tree -/

/-- What comes of doing something on a tree. -/
def onTree {α : Type} (action : ExceptT CommandError (StateM FileTree) α) (tree : FileTree) :
    Except CommandError α × FileTree :=
  action.run tree

section Run

variable {α β : Type} (tree : FileTree)

theorem onTree_bind (x : ExceptT CommandError (StateM FileTree) α)
    (f : α → ExceptT CommandError (StateM FileTree) β) : onTree (x >>= f) tree =
      match onTree x tree with
      | (.ok a, after) => onTree (f a) after
      | (.error e, after) => (.error e, after) := by
  rw [onTree, ExceptT.run_bind]
  rcases h : onTree x tree with ⟨_ | _, _⟩
  · simp only [bind, StateT.bind, show x.run tree = _ from h]
    rfl
  · simp only [bind, StateT.bind, show x.run tree = _ from h]
    rfl

theorem onTree_lift (x : StateM FileTree α) : onTree (monadLift x) tree = (.ok (x tree).1, (x tree).2) := rfl

theorem onTree_liftExcept (x : Except CommandError α) : onTree (liftExcept x) tree = (x, tree) := rfl

theorem onTree_pure (a : α) : onTree (pure a) tree = (.ok a, tree) := rfl

end Run

theorem writeFile_run (output : String) (file : SourceFile) (tree : FileTree) :
    onTree (writeFile FileTree.system output file) tree =
      match createDirectories (directoryIn output file) tree with
      | (.error fault, made) => (.error (.write (pathIn output file) fault), made)
      | (.ok (), made) =>
        match write (pathIn output file) (utf8 file.contents.toList) made with
        | (.error fault, written) => (.error (.write (pathIn output file) fault), written)
        | (.ok (), written) => (.ok (pathIn output file), written) := by
  have hmake : FileTree.system.createDirectories = FileTree.createDirectories := rfl
  have hwrite : FileTree.system.write = FileTree.write := rfl
  simp only [writeFile, onTree_bind, onTree_lift, onTree_liftExcept, onTree_pure, hmake, hwrite, directoryIn, pathIn]
  rcases createDirectories (file.path.dropLast.foldl Path.join output) tree with ⟨_ | _, made⟩
  · rfl
  · simp only [Except.mapError]
    rcases write (Path.join output file.pathText) (utf8 file.contents.toList) made with ⟨_ | _, written⟩ <;> rfl

theorem writeFile_eq_ok {output path : String} {file : SourceFile} {tree tree' : FileTree} :
    onTree (writeFile FileTree.system output file) tree = (.ok path, tree') ↔
      path = pathIn output file ∧ Writes output file tree tree' := by
  rw [writeFile_run, Writes]
  rcases createDirectories (directoryIn output file) tree with ⟨_ | _, made⟩
  · simp
  · simp only [Prod.mk.injEq, true_and, exists_eq_left']
    rcases write (pathIn output file) (utf8 file.contents.toList) made with ⟨_ | _, written⟩
    · simp
    · simp [eq_comm]

theorem writeFile_eq_error {output : String} {file : SourceFile} {tree tree' : FileTree} {e : CommandError}
    (h : onTree (writeFile FileTree.system output file) tree = (.error e, tree')) :
    ∃ path fault, e = .write path fault := by
  rw [writeFile_run] at h
  split at h
  · cases h
    exact ⟨_, _, rfl⟩
  · split at h
    · cases h
      exact ⟨_, _, rfl⟩
    · cases h

theorem writeFiles_eq_ok {output : String} {files : List SourceFile} {paths : List String} {tree tree' : FileTree} :
    onTree (files.mapM (writeFile FileTree.system output)) tree = (.ok paths, tree') ↔
      paths = files.map (pathIn output) ∧ WritesAll output tree files tree' := by
  induction files generalizing paths tree with
  | nil =>
      rw [List.mapM_nil, onTree_pure]
      constructor
      · intro h
        cases h
        exact ⟨rfl, .nil _⟩
      · rintro ⟨rfl, h⟩
        cases h
        rfl
  | cons file files ih =>
      rw [List.mapM_cons, onTree_bind]
      constructor
      · intro h
        split at h
        · next path between hfirst =>
          obtain ⟨rfl, hwritten⟩ := writeFile_eq_ok.1 hfirst
          rw [onTree_bind] at h
          split at h
          · next rest after hrest =>
            cases h
            obtain ⟨rfl, hall⟩ := ih.1 hrest
            exact ⟨rfl, .cons hwritten hall⟩
          · cases h
        · cases h
      · rintro ⟨rfl, h⟩
        cases h with
        | cons first rest =>
            rw [writeFile_eq_ok.2 ⟨rfl, first⟩]
            simp only [onTree_bind, ih.2 ⟨rfl, rest⟩, onTree_pure, List.map_cons]

theorem writeFiles_eq_error {output : String} {files : List SourceFile} {tree tree' : FileTree} {e : CommandError}
    (h : onTree (files.mapM (writeFile FileTree.system output)) tree = (.error e, tree')) :
    ∃ path fault, e = .write path fault := by
  induction files generalizing tree with
  | nil =>
      rw [List.mapM_nil, onTree_pure] at h
      cases h
  | cons file files ih =>
      rw [List.mapM_cons, onTree_bind] at h
      split at h
      · next path after hfirst =>
        rw [onTree_bind] at h
        split at h
        · cases h
        · next hrest =>
          cases h
          exact ih hrest
      · next hfirst =>
        cases h
        exact writeFile_eq_error hfirst

theorem generateInto_run (contract output : String) (dialect : Dialect) (force : Bool) (tree : FileTree) :
    onTree (generateInto FileTree.system contract output dialect force) tree =
      match contractIn contract (tree.read contract) with
      | .error e => (.error e, tree)
      | .ok loaded =>
        match (loaded.sources dialect).mapError CommandError.source with
        | .error e => (.error e, tree)
        | .ok files =>
          match (tree.isOccupied output).mapError (CommandError.write output) with
          | .error e => (.error e, tree)
          | .ok occupied =>
            if occupied && !force then (.error (.occupied output), tree)
            else onTree (files.mapM (writeFile FileTree.system output)) tree := by
  have hread : FileTree.system.read contract = fun tree => (tree.read contract, tree) := rfl
  have hoccupied : FileTree.system.isOccupied output = fun tree => (tree.isOccupied output, tree) := rfl
  simp only [generateInto, loadContract, onTree_bind, onTree_lift, onTree_liftExcept, hread, hoccupied]
  cases contractIn contract (tree.read contract) with
  | error e => rfl
  | ok loaded =>
      simp only
      cases (loaded.sources dialect).mapError CommandError.source with
      | error e => rfl
      | ok files =>
          simp only
          cases (tree.isOccupied output).mapError (CommandError.write output) with
          | error e => rfl
          | ok occupied =>
              simp only
              split <;> rfl

/-! ## What is read -/

theorem contractIn_ne_occupied {path output : String} {contents : Except FileFault (List UInt8)} :
    contractIn path contents ≠ .error (.occupied output) := by
  intro h
  rcases bind_eq_error.1 h with h | ⟨text, _, h⟩
  · obtain ⟨_, _, h⟩ := mapError_eq_error.1 h
    cases h
  · rcases bind_eq_error.1 h with h | ⟨declaration, _, h⟩
    · unfold readDeclaration at h
      split at h <;> cases h
    · obtain ⟨_, _, h⟩ := mapError_eq_error.1 h
      cases h

theorem dialectIn_ne_occupied {path output : String} {contents : Except FileFault (List UInt8)} :
    dialectIn path contents ≠ .error (.occupied output) := by
  intro h
  rcases bind_eq_error.1 h with h | ⟨text, _, h⟩
  · obtain ⟨_, _, h⟩ := mapError_eq_error.1 h
    cases h
  · split at h <;> cases h

/-- The dialect that is chosen, as it is read from a tree. -/
def chosenDialect : DialectChoice → FileTree → Except CommandError Dialect
  | .target target, _ => .ok target.dialect
  | .file path, tree => dialectIn path (tree.read path)

/-- The files that are read for a dialect. -/
def dialectFiles : DialectChoice → List String
  | .target _ => []
  | .file path => [path]

/-- The files that are asked for, by a dialect and a contract as they are read from a tree. -/
def Generates (dialect : FileTree → Except CommandError Dialect) (contract : String) (tree : FileTree)
    (files : List SourceFile) : Prop :=
  ∃ d c, dialect tree = .ok d ∧ contractIn contract (tree.read contract) = .ok c ∧ c.sources d = .ok files

/-- A dialect that is read from files, if from any. -/
structure ReadsDialect (dialect : FileTree → Except CommandError Dialect) (inputs : List String) : Prop where
  fault : ∀ tree output, dialect tree ≠ .error (.occupied output)
  again : ∀ tree tree' d, dialect tree = .ok d →
    (∀ input ∈ inputs, ∀ contents, tree.read input = .ok contents → tree'.read input = .ok contents) →
    dialect tree' = .ok d

theorem readsDialect_const (d : Dialect) : ReadsDialect (fun _ => .ok d) [] := by
  constructor
  · intro _ _ h
    cases h
  · exact fun _ _ _ h _ => h

theorem exists_contents_of_text {α : Type} {contents : Except FileFault (List UInt8)} {fault : FileFault → CommandError}
    {read : String → Except CommandError α} {a : α}
    (h : ((contents >>= textOf).mapError fault >>= read) = .ok a) : ∃ bytes, contents = .ok bytes := by
  obtain ⟨text, htext, _⟩ := bind_eq_ok.1 h
  obtain ⟨bytes, hbytes, _⟩ := bind_eq_ok.1 (mapError_eq_ok.1 htext)
  exact ⟨bytes, hbytes⟩

theorem readsDialect_chosen (choice : DialectChoice) : ReadsDialect (chosenDialect choice) (dialectFiles choice) := by
  constructor
  · intro tree output h
    cases choice with
    | target => cases h
    | file path => exact dialectIn_ne_occupied h
  · intro tree tree' d h hagain
    cases choice with
    | target => exact h
    | file path =>
        obtain ⟨bytes, hbytes⟩ := exists_contents_of_text h
        rw [chosenDialect, hagain path List.mem_cons_self bytes hbytes, ← hbytes]
        exact h

theorem Generates.again {dialect : FileTree → Except CommandError Dialect} {inputs : List String}
    (hreads : ReadsDialect dialect inputs) {contract : String} {tree tree' : FileTree} {files : List SourceFile}
    (h : Generates dialect contract tree files)
    (hsame : ∀ input ∈ contract :: inputs, ∀ contents,
      tree.read input = .ok contents → tree'.read input = .ok contents) :
    Generates dialect contract tree' files := by
  obtain ⟨d, c, hdialect, hcontract, hsources⟩ := h
  rw [List.forall_mem_cons] at hsame
  obtain ⟨bytes, hbytes⟩ := exists_contents_of_text hcontract
  refine ⟨d, c, hreads.again tree tree' d hdialect hsame.2, ?_, hsources⟩
  rwa [hsame.1 bytes hbytes, ← hbytes]

/-! ## Generating -/

/-- Files are generated, once a dialect has been read. -/
def generation (dialect : FileTree → Except CommandError Dialect) (contract output : String) (force : Bool)
    (tree : FileTree) : Except CommandError (List String) × FileTree :=
  match dialect tree with
  | .error e => (.error e, tree)
  | .ok d => onTree (generateInto FileTree.system contract output d force) tree

section Generation

variable {dialect : FileTree → Except CommandError Dialect} {inputs : List String} {contract output : String}
  {force : Bool} {tree tree' : FileTree} {files : List SourceFile}

theorem generation_of_generates (h : Generates dialect contract tree files) :
    generation dialect contract output force tree =
      match (tree.isOccupied output).mapError (CommandError.write output) with
      | .error e => (.error e, tree)
      | .ok occupied =>
        if occupied && !force then (.error (.occupied output), tree)
        else onTree (files.mapM (writeFile FileTree.system output)) tree := by
  obtain ⟨d, c, hdialect, hcontract, hsources⟩ := h
  rw [generation, hdialect]
  simp only [generateInto_run, hcontract, hsources]
  rfl

/-- Either something fails that is asked for before the directory is looked at, or there are files to be written. -/
theorem generation_cases (hreads : ReadsDialect dialect inputs) (contract output : String) (force : Bool)
    (tree : FileTree) :
    (∃ e, generation dialect contract output force tree = (.error e, tree) ∧ (∀ path, e ≠ .occupied path) ∧
      ∀ files, ¬ Generates dialect contract tree files) ∨ ∃ files, Generates dialect contract tree files := by
  cases hdialect : dialect tree with
  | error e =>
      refine .inl ⟨e, by rw [generation, hdialect], ?_, ?_⟩
      · rintro path rfl
        exact hreads.fault tree path hdialect
      · rintro files ⟨d, _, h, _⟩
        cases hdialect.symm.trans h
  | ok d =>
      cases hcontract : contractIn contract (tree.read contract) with
      | error e =>
          refine .inl ⟨e, ?_, ?_, ?_⟩
          · rw [generation, hdialect]
            simp only [generateInto_run, hcontract]
          · rintro path rfl
            exact contractIn_ne_occupied hcontract
          · rintro files ⟨_, c, _, h, _⟩
            cases hcontract.symm.trans h
      | ok c =>
          cases hsources : c.sources d with
          | error fault =>
              refine .inl ⟨.source fault, ?_, by simp, ?_⟩
              · rw [generation, hdialect]
                simp only [generateInto_run, hcontract, hsources, Except.mapError]
              · rintro files ⟨d', c', hd', hc', h⟩
                cases hdialect.symm.trans hd'
                cases hcontract.symm.trans hc'
                cases hsources.symm.trans h
          | ok files => exact .inr ⟨files, d, c, hdialect, hcontract, hsources⟩

theorem generation_eq_ok {paths : List String} (hreads : ReadsDialect dialect inputs)
    (h : generation dialect contract output force tree = (.ok paths, tree')) :
    ∃ files occupied, Generates dialect contract tree files ∧ tree.isOccupied output = .ok occupied ∧
      paths = files.map (pathIn output) ∧ WritesAll output tree files tree' := by
  rcases generation_cases hreads contract output force tree with ⟨e, herror, _⟩ | ⟨files, hfiles⟩
  · cases herror.symm.trans h
  · rw [generation_of_generates hfiles] at h
    cases hoccupied : tree.isOccupied output with
    | error fault =>
        rw [hoccupied] at h
        cases h
    | ok occupied =>
        simp only [hoccupied, Except.mapError] at h
        split at h
        · cases h
        · exact ⟨files, occupied, hfiles, rfl, writeFiles_eq_ok.1 h⟩

/-- Where the files that are asked for belong. -/
structure Placed (files : List SourceFile) : Prop where
  paths : files.map SourceFile.path = Contract.places
  descends : ∀ file ∈ files, Descends file.path
  way : ∀ file ∈ files, file.path.dropLast <+: [Firmware.directory]
  ne_nil : files ≠ []

theorem Generates.placed (h : Generates dialect contract tree files) : Placed files := by
  obtain ⟨_, _, _, _, hsources⟩ := h
  have hpaths := Contract.places_of_sources hsources
  have hmem : ∀ file ∈ files, file.path ∈ Contract.places := fun file hfile => hpaths ▸ List.mem_map_of_mem hfile
  refine ⟨hpaths, fun file hfile => Contract.descends_of_mem _ (hmem file hfile),
    fun file hfile => Contract.dropLast_prefix_of_mem _ (hmem file hfile), ?_⟩
  rintro rfl
  cases hpaths

theorem Placed.pathTexts (h : Placed files) : files.map SourceFile.pathText = Contract.filePaths := by
  rw [← Contract.filePaths_eq, ← h.paths, List.map_map]
  rfl

theorem Placed.changes (h : Placed files) (hwritten : WritesAll output tree files tree') :
    ∃ base, tree'.walk (Path.start output) (Path.steps output) = .ok base ∧
      tree.Changes tree' (files.map fun file => placeName (base ++ file.path)) (Path.start output) (waySteps output) ∧
      ∀ file ∈ files, Settled output base tree' file := by
  obtain ⟨base, hbase⟩ := hwritten.exists_base h.ne_nil h.descends h.way
  exact ⟨base, hbase, hwritten.changes h.descends h.way (h.paths ▸ Contract.nodup_places) hbase⟩

/-- A file that is not among those written is read as before. -/
theorem read_of_changes {base : List String}
    (hchanges : tree.Changes tree' (files.map fun file => placeName (base ++ file.path)) (Path.start output)
      (waySteps output)) (hsettled : ∀ file ∈ files, Settled output base tree' file) {path : String}
    (hother : ∀ file ∈ files, tree'.locate path ≠ tree'.locate (pathIn output file)) {contents : List UInt8}
    (hread : tree.read path = .ok contents) : tree'.read path = .ok contents := by
  obtain ⟨place, hlocate, hentry, hasks⟩ := read_eq_ok.1 hread
  have hlater := hchanges.keeps.locate hlocate
  refine read_eq_ok.2 ⟨place, hlater, ?_, hasks⟩
  refine hchanges.entry (.start output) isName_waySteps (isPlace_of_locate hlocate) (fun hmem => ?_) hentry
  obtain ⟨file, hfile, heq⟩ := List.mem_map.1 hmem
  have hlocated := (hsettled file hfile).located
  rw [placeName_inj (isPlace_of_locate hlocated) (isPlace_of_locate hlater)] at heq
  exact hother file hfile (by rw [hlater, hlocated, heq])

theorem exists_isOccupied_again {base : List String} {occupied : Bool} (h : tree.isOccupied output = .ok occupied)
    (hbase : tree'.walk (Path.start output) (Path.steps output) = .ok base)
    (hentry : tree'.entry? base = some .directory) : ∃ occupied', tree'.isOccupied output = .ok occupied' := by
  cases hfault : pathFault? output with
  | none => exact ⟨tree'.hasBelow base, by simp only [isOccupied, locate, hfault, hbase, hentry]⟩
  | some fault =>
      rw [isOccupied, locate, hfault] at h
      rw [isOccupied, locate, hfault]
      cases fault <;> first | exact ⟨_, rfl⟩ | cases h

end Generation

/-- Whatever a command that generates files does, all of them are written or none is, unless writing itself fails. -/
structure AllOrNothing (dialect : FileTree → Except CommandError Dialect) (inputs : List String)
    (contract output : String) (command : Bool → FileTree → Except CommandError (List String) × FileTree) : Prop where
  /-- What fails before anything is written leaves the tree as it is. -/
  unchanged : ∀ force tree e tree', command force tree = (.error e, tree') →
    (∀ path fault, e ≠ .write path fault) → tree' = tree
  /-- A directory with something in it is not written into, unless that is asked for. -/
  occupied : ∀ force tree path, (command force tree).1 = .error (.occupied path) ↔
    path = output ∧ force = false ∧ tree.Occupied output ∧ ∃ files, Generates dialect contract tree files
  /-- The files that are asked for are written at their places below the directory, and nothing else changes but for
  directories on the way to them. -/
  written : ∀ force tree paths tree', command force tree = (.ok paths, tree') →
    paths = Contract.filePaths.map (Path.join output) ∧
      ∃ files base, Generates dialect contract tree files ∧ files.map SourceFile.pathText = Contract.filePaths ∧
        (∀ file ∈ files, tree'.locate (Path.join output file.pathText) = .ok (base ++ file.path) ∧
          tree'.read (Path.join output file.pathText) = .ok (utf8 file.contents.toList)) ∧
        tree.Changes tree' (files.map fun file => placeName (base ++ file.path)) (Path.start output) (waySteps output)
  /-- Where nothing that is read has been overwritten, generating the files once more changes nothing. -/
  again : ∀ force tree paths tree', command force tree = (.ok paths, tree') →
    (∀ input ∈ inputs, ∀ path ∈ paths, tree'.locate input ≠ tree'.locate path) →
    command true tree' = (.ok paths, tree')

section AllOrNothing

variable {dialect : FileTree → Except CommandError Dialect} {inputs : List String} {contract output : String}
  {force : Bool} {tree tree' : FileTree}

/-- Before the first file nothing is written, so that only what fails with a file can have changed the tree. -/
theorem eq_of_generation_eq_error (hreads : ReadsDialect dialect inputs) {e : CommandError}
    (h : generation dialect contract output force tree = (.error e, tree'))
    (hwrite : ∀ path fault, e ≠ .write path fault) : tree' = tree := by
  rcases generation_cases hreads contract output force tree with ⟨e, herror, _⟩ | ⟨files, hfiles⟩
  · cases herror.symm.trans h
    rfl
  · rw [generation_of_generates hfiles] at h
    split at h
    · cases h
      rfl
    · split at h
      · cases h
        rfl
      · obtain ⟨path, fault, rfl⟩ := writeFiles_eq_error h
        exact absurd rfl (hwrite path fault)

theorem generation_eq_occupied_iff (hreads : ReadsDialect dialect inputs) {path : String} :
    (generation dialect contract output force tree).1 = .error (.occupied path) ↔
      path = output ∧ force = false ∧ tree.Occupied output ∧ ∃ files, Generates dialect contract tree files := by
  rcases generation_cases hreads contract output force tree with ⟨e, herror, hother, hnone⟩ | ⟨files, hfiles⟩
  · rw [herror]
    refine ⟨fun h => absurd (Except.error.inj h) (hother path), ?_⟩
    rintro ⟨_, _, _, files, hfiles⟩
    exact absurd hfiles (hnone files)
  · rw [generation_of_generates hfiles, ← isOccupied_eq_true]
    cases hoccupied : tree.isOccupied output with
    | error fault => simp [Except.mapError]
    | ok occupied =>
        simp only [Except.mapError]
        split
        · next hrefused =>
          rw [Bool.and_eq_true, Bool.not_eq_true'] at hrefused
          have hgenerates : ∃ files, Generates dialect contract tree files := ⟨files, hfiles⟩
          simp [hrefused, hgenerates, eq_comm]
        · next hgone =>
          constructor
          · intro h
            obtain ⟨_, _, h⟩ := writeFiles_eq_error (Prod.ext h rfl)
            cases h
          · rintro ⟨_, rfl, htrue, _⟩
            cases htrue
            exact absurd rfl hgone

theorem generation_written (hreads : ReadsDialect dialect inputs) {paths : List String}
    (h : generation dialect contract output force tree = (.ok paths, tree')) :
    paths = Contract.filePaths.map (Path.join output) ∧
      ∃ files base, Generates dialect contract tree files ∧ files.map SourceFile.pathText = Contract.filePaths ∧
        (∀ file ∈ files, tree'.locate (Path.join output file.pathText) = .ok (base ++ file.path) ∧
          tree'.read (Path.join output file.pathText) = .ok (utf8 file.contents.toList)) ∧
        tree.Changes tree' (files.map fun file => placeName (base ++ file.path)) (Path.start output)
          (waySteps output) := by
  obtain ⟨files, _, hfiles, _, rfl, hwritten⟩ := generation_eq_ok hreads h
  obtain ⟨base, _, hchanges, hsettled⟩ := hfiles.placed.changes hwritten
  refine ⟨?_, files, base, hfiles, hfiles.placed.pathTexts, fun file hfile => ?_, hchanges⟩
  · rw [← hfiles.placed.pathTexts, List.map_map]
    rfl
  · exact ⟨(hsettled file hfile).located, (hsettled file hfile).read⟩

/-- What has been written is settled, so that writing it again finds every directory made and every file as it is. -/
theorem generation_again (hreads : ReadsDialect dialect inputs) {paths : List String}
    (h : generation dialect contract output force tree = (.ok paths, tree'))
    (hother : ∀ input ∈ contract :: inputs, ∀ path ∈ paths, tree'.locate input ≠ tree'.locate path) :
    generation dialect contract output true tree' = (.ok paths, tree') := by
  obtain ⟨files, occupied, hfiles, hoccupied, rfl, hwritten⟩ := generation_eq_ok hreads h
  obtain ⟨base, hbase, hchanges, hsettled⟩ := hfiles.placed.changes hwritten
  obtain ⟨file, hfile⟩ := List.exists_mem_of_ne_nil files hfiles.placed.ne_nil
  obtain ⟨base', hbase', hentry, _⟩ := locate_pathIn (hfiles.placed.descends file hfile) (hsettled file hfile).located
  obtain rfl : base' = base := Except.ok.inj (hbase'.symm.trans hbase)
  obtain ⟨occupied', hoccupied'⟩ := exists_isOccupied_again hoccupied hbase hentry
  have hagain : Generates dialect contract tree' files := hfiles.again hreads fun input hinput contents hread =>
    read_of_changes hchanges hsettled (fun file hfile => hother input hinput _ (List.mem_map_of_mem hfile)) hread
  rw [generation_of_generates hagain, hoccupied']
  simp only [Except.mapError, Bool.not_true, Bool.and_false, Bool.false_eq_true, ↓reduceIte]
  exact writeFiles_eq_ok.2 ⟨rfl, .of_settled hsettled⟩

end AllOrNothing

theorem allOrNothing_generation {dialect : FileTree → Except CommandError Dialect} {inputs : List String}
    (hreads : ReadsDialect dialect inputs) (contract output : String) :
    AllOrNothing dialect (contract :: inputs) contract output (generation dialect contract output) where
  unchanged _ _ _ _ h hwrite := eq_of_generation_eq_error hreads h hwrite
  occupied _ _ _ := generation_eq_occupied_iff hreads
  written _ _ _ _ h := generation_written hreads h
  again _ _ _ _ h hother := generation_again hreads h hother

theorem runOn_generate (contract output : String) (choice : DialectChoice) (force : Bool) (tree : FileTree) :
    Action.runOn (.generate contract output choice force) tree =
      ((generation (chosenDialect choice) contract output force tree).1.map lines,
        (generation (chosenDialect choice) contract output force tree).2) := by
  have hload : onTree (loadDialect FileTree.system choice) tree = (chosenDialect choice tree, tree) := by
    cases choice <;> rfl
  have hrun : Action.runOn (.generate contract output choice force) tree =
      onTree ((Action.generate contract output choice force).run FileTree.system) tree := rfl
  rw [hrun]
  simp only [Action.run, onTree_bind, hload, generation]
  cases chosenDialect choice tree with
  | error e => rfl
  | ok d =>
      simp only
      rcases onTree (generateInto FileTree.system contract output d force) tree with ⟨_ | _, _⟩ <;> rfl

/-- Generating the files of a contract, in a dialect that is given or chosen, is all or nothing. -/
theorem generation_all_or_nothing (contract output : String) :
    (∀ dialect, AllOrNothing (fun _ => .ok dialect) [contract] contract output
      fun force tree => onTree (generateInto FileTree.system contract output dialect force) tree) ∧
    ∀ choice, ∃ command, AllOrNothing (chosenDialect choice) (contract :: dialectFiles choice) contract output command ∧
      ∀ force tree, Action.runOn (.generate contract output choice force) tree =
        ((command force tree).1.map lines, (command force tree).2) :=
  ⟨fun dialect => allOrNothing_generation (readsDialect_const dialect) contract output, fun choice =>
    ⟨_, allOrNothing_generation (readsDialect_chosen choice) contract output, runOn_generate contract output choice⟩⟩

end SerialContract.Command
