import SerialContract.Command.Run
import SerialContract.Proofs.Files.FileTree
import SerialContract.Proofs.Source.Generation

/-!
# Writing the files of a contract

Each file is written behind the others, at a place of its own, and nothing else changes but for directories on the
way. Written once more, the files are what they are.
-/

namespace SerialContract

open FileTree

/-! ## Where the files belong -/

namespace Contract

/-- The paths of the files as names, in the order in which they are generated. -/
def places : List (List String) :=
  Firmware.skeletons.map (fun skeleton => [Firmware.directory, skeleton.1]) ++ [[Host.fileName]]

theorem places_of_sources {c : Contract} {dialect : Dialect} {files : List SourceFile}
    (h : c.sources dialect = .ok files) : files.map SourceFile.path = places := by
  obtain ⟨compiled, _, h⟩ := bind_eq_ok.1 h
  obtain ⟨firmware, hfirmware, h⟩ := bind_eq_ok.1 h
  obtain ⟨client, hclient, h⟩ := bind_eq_ok.1 h
  obtain ⟨contents, _, hfile⟩ := bind_eq_ok.1 hclient
  cases h
  cases hfile
  rw [List.map_append, List.map_singleton, Firmware.paths_of_generate hfirmware, places]

theorem filePaths_eq : places.map ("/".intercalate ·) = filePaths := by decide +kernel

theorem nodup_places : places.Nodup := by decide +kernel

end Contract

/-- Names that lead from a directory to a file below it. -/
structure Descends (path : List String) : Prop where
  ne_nil : path ≠ []
  steps : Path.steps ("/".intercalate path) = path
  start : ("/".intercalate path).toList.head? ≠ some '/'
  names : ∀ name ∈ path, Path.steps name = [name] ∧ name.toList.head? ≠ some '/' ∧ name ≠ Path.up

theorem Contract.descends_of_mem : ∀ path ∈ places, Descends path := by
  have hall : ∀ path ∈ places, path ≠ [] ∧ Path.steps ("/".intercalate path) = path ∧
      ("/".intercalate path).toList.head? ≠ some '/' ∧
      ∀ name ∈ path, Path.steps name = [name] ∧ name.toList.head? ≠ some '/' ∧ name ≠ Path.up := by
    decide +kernel
  intro path hpath
  obtain ⟨hne, hsteps, hstart, hnames⟩ := hall path hpath
  exact ⟨hne, hsteps, hstart, hnames⟩

theorem Contract.dropLast_prefix_of_mem : ∀ path ∈ places, path.dropLast <+: [Firmware.directory] := by
  decide +kernel

namespace Command

/-- The path at which a file is written. -/
def pathIn (output : String) (file : SourceFile) : String :=
  Path.join output file.pathText

/-- The directory in which a file is written. -/
def directoryIn (output : String) (file : SourceFile) : String :=
  file.path.dropLast.foldl Path.join output

section Descends

variable {output : String} {file : SourceFile}

theorem steps_pathIn (h : Descends file.path) :
    Path.steps (pathIn output file) = Path.steps output ++ file.path := by
  rw [pathIn, Path.steps_join, SourceFile.pathText, h.steps]

theorem start_pathIn (h : Descends file.path) : Path.start (pathIn output file) = Path.start output :=
  Path.start_join h.start

theorem foldl_join (output : String) {names : List String}
    (h : ∀ name ∈ names, Path.steps name = [name] ∧ name.toList.head? ≠ some '/' ∧ name ≠ Path.up) :
    Path.steps (names.foldl Path.join output) = Path.steps output ++ names ∧
      Path.start (names.foldl Path.join output) = Path.start output := by
  induction names generalizing output with
  | nil => exact ⟨(List.append_nil _).symm, rfl⟩
  | cons name names ih =>
      obtain ⟨⟨hsteps, hstart, _⟩, hnames⟩ := List.forall_mem_cons.1 h
      obtain ⟨hsteps', hstart'⟩ := ih (Path.join output name) hnames
      rw [List.foldl_cons, hsteps', hstart', Path.steps_join, hsteps, Path.start_join hstart, List.append_assoc]
      exact ⟨rfl, rfl⟩

theorem directoryIn_spec (output : String) (h : Descends file.path) :
    Path.steps (directoryIn output file) = Path.steps output ++ file.path.dropLast ∧
      Path.start (directoryIn output file) = Path.start output :=
  foldl_join output fun name hname => h.names name ((List.dropLast_sublist _).subset hname)

end Descends

/-- Where plain names lead: below the directory that they start from. -/
theorem walk_names {tree : FileTree} {base place names : List String} (hnames : ∀ name ∈ names, name ≠ Path.up)
    (h : tree.walk base names = .ok place) : place = base ++ names := by
  induction names generalizing base with
  | nil =>
      cases h
      exact (List.append_nil _).symm
  | cons name names ih =>
      rw [List.forall_mem_cons] at hnames
      obtain ⟨_, h⟩ := walk_cons_eq_ok.1 h
      rw [if_neg hnames.1] at h
      rw [ih hnames.2 h.2, List.append_assoc, List.singleton_append]

/-- A file is found below the place that the output leads to, in a directory. -/
theorem locate_pathIn {tree : FileTree} {output : String} {file : SourceFile} {place : List String}
    (hfile : Descends file.path) (h : tree.locate (pathIn output file) = .ok place) :
    ∃ base, tree.walk (Path.start output) (Path.steps output) = .ok base ∧ tree.entry? base = some .directory ∧
      place = base ++ file.path ∧ ∃ directory, tree.walk (Path.start (directoryIn output file))
        (Path.steps (directoryIn output file)) = .ok directory ∧ tree.entry? directory = some .directory := by
  obtain ⟨_, hwalk⟩ := locate_eq_ok.1 h
  rw [steps_pathIn hfile, start_pathIn hfile, walk_append] at hwalk
  obtain ⟨base, hbase, hwalk⟩ := bind_eq_ok.1 hwalk
  have hplace := walk_names (fun name hname => (hfile.names name hname).2.2) hwalk
  obtain ⟨hsteps, hstart⟩ := directoryIn_spec output hfile
  obtain ⟨name, names, hnames⟩ := List.exists_cons_of_ne_nil hfile.ne_nil
  have hentry : tree.entry? base = some .directory := by
    rw [hnames] at hwalk
    exact (walk_cons_eq_ok.1 hwalk).1
  refine ⟨base, hbase, hentry, hplace, ?_⟩
  rw [← List.dropLast_append_getLast hfile.ne_nil, walk_append] at hwalk
  obtain ⟨directory, hdirectory, hlast⟩ := bind_eq_ok.1 hwalk
  refine ⟨directory, ?_, (walk_cons_eq_ok.1 hlast).1⟩
  rw [hsteps, hstart, walk_append, hbase]
  exact hdirectory

/-! ## Writing the files -/

/-- A file is written, in a directory that is made if it is not there. -/
def Writes (output : String) (file : SourceFile) (tree tree' : FileTree) : Prop :=
  ∃ made, createDirectories (directoryIn output file) tree = (.ok (), made) ∧
    write (pathIn output file) (utf8 file.contents.toList) made = (.ok (), tree')

/-- Files are written one after another. -/
inductive WritesAll (output : String) : FileTree → List SourceFile → FileTree → Prop where
  | nil (tree : FileTree) : WritesAll output tree [] tree
  | cons {tree between tree' : FileTree} {file : SourceFile} {files : List SourceFile}
      (first : Writes output file tree between) (rest : WritesAll output between files tree') :
      WritesAll output tree (file :: files) tree'

/-- A file is at its place, and writing it there once more is no change. -/
structure Settled (output : String) (base : List String) (tree : FileTree) (file : SourceFile) : Prop where
  located : tree.locate (pathIn output file) = .ok (base ++ file.path)
  held : tree.entries.get? (placeName (base ++ file.path)) = some (.file (utf8 file.contents.toList))
  asks : Path.asksDirectory (pathIn output file) = false
  again : createDirectories (directoryIn output file) tree = (.ok (), tree)

section Writes

variable {output : String} {base : List String} {file : SourceFile} {files : List SourceFile}
  {tree between tree' : FileTree}

/-- The steps on which directories are made. -/
def waySteps (output : String) : List String :=
  Path.steps output ++ [Firmware.directory]

theorem isName_waySteps : ∀ step ∈ waySteps output, Path.IsName step :=
  List.forall_mem_append.2 ⟨fun _ => Path.isName_of_mem_steps,
    List.forall_mem_singleton.2 ⟨by simp [Firmware.directory], by simp [Firmware.directory]⟩⟩

theorem Writes.changes (h : Writes output file tree tree') (hfile : Descends file.path)
    (hway : file.path.dropLast <+: [Firmware.directory]) :
    ∃ base, tree'.walk (Path.start output) (Path.steps output) = .ok base ∧
      tree.Changes tree' [placeName (base ++ file.path)] (Path.start output) (waySteps output) ∧
      Settled output base tree' file := by
  obtain ⟨made, hmade, hwritten⟩ := h
  obtain ⟨place, hlocate, hheld, hasks, hchanges⟩ := changes_write hwritten (waySteps output)
  obtain ⟨base, hbase, _, rfl, directory, hdirectory, hentry⟩ := locate_pathIn hfile hlocate
  obtain ⟨hsteps, hstart⟩ := directoryIn_spec output hfile
  have hdirectories := changes_createDirectories tree (directoryIn output file)
  rw [hmade, hsteps, hstart] at hdirectories
  rw [start_pathIn hfile] at hchanges
  have hway := hdirectories.mono ((List.prefix_append_right_inj _).2 hway)
  exact ⟨base, hbase, hway.trans hchanges (.start output) isName_waySteps, hlocate, hheld, hasks,
    createDirectories_of_directory (by rw [hmade]) hdirectory hentry⟩

/-- What is settled stays so while other places are written. -/
theorem Settled.keep (h : Settled output base tree file) {written place steps : List String}
    (hchanges : tree.Changes tree' written place steps) (hother : placeName (base ++ file.path) ∉ written)
    (hfile : Descends file.path) : Settled output base tree' file := by
  have hlocate := hchanges.keeps.locate h.located
  obtain ⟨_, _, _, _, directory, hdirectory, hentry⟩ := locate_pathIn hfile hlocate
  exact ⟨hlocate, hchanges.get? hother h.held, h.asks,
    createDirectories_of_directory (by rw [h.again]) hdirectory hentry⟩

theorem WritesAll.keeps (h : WritesAll output tree files tree') (hfiles : ∀ file ∈ files, Descends file.path)
    (hway : ∀ file ∈ files, file.path.dropLast <+: [Firmware.directory]) : tree.Keeps tree' := by
  induction h with
  | nil tree => exact .refl tree
  | cons first rest ih =>
      obtain ⟨hfile, hfiles⟩ := List.forall_mem_cons.1 hfiles
      obtain ⟨hfileway, hway⟩ := List.forall_mem_cons.1 hway
      obtain ⟨_, _, hchanges, _⟩ := first.changes hfile hfileway
      exact hchanges.keeps.trans (ih hfiles hway)

/-- The output leads to a place once a file has been written. -/
theorem WritesAll.exists_base (h : WritesAll output tree files tree') (hne : files ≠ [])
    (hfiles : ∀ file ∈ files, Descends file.path)
    (hway : ∀ file ∈ files, file.path.dropLast <+: [Firmware.directory]) :
    ∃ base, tree'.walk (Path.start output) (Path.steps output) = .ok base := by
  cases h with
  | nil => exact absurd rfl hne
  | cons first rest =>
      obtain ⟨hfile, hfiles⟩ := List.forall_mem_cons.1 hfiles
      obtain ⟨hfileway, hway⟩ := List.forall_mem_cons.1 hway
      obtain ⟨base, hbase, _⟩ := first.changes hfile hfileway
      exact ⟨base, (rest.keeps hfiles hway).walk (.start output) (fun _ => Path.isName_of_mem_steps) hbase⟩

/-- Once all files are written, each is settled, and nothing else has changed. -/
theorem WritesAll.changes (h : WritesAll output tree files tree') (hfiles : ∀ file ∈ files, Descends file.path)
    (hway : ∀ file ∈ files, file.path.dropLast <+: [Firmware.directory]) (hnodup : (files.map SourceFile.path).Nodup)
    (hbase : tree'.walk (Path.start output) (Path.steps output) = .ok base) :
    tree.Changes tree' (files.map fun file => placeName (base ++ file.path)) (Path.start output) (waySteps output) ∧
      ∀ file ∈ files, Settled output base tree' file := by
  induction h with
  | nil tree => exact ⟨.refl .., List.forall_mem_nil _⟩
  | @cons tree between tree' file files first rest ih =>
      obtain ⟨hfile, hfiles⟩ := List.forall_mem_cons.1 hfiles
      obtain ⟨hfileway, hway⟩ := List.forall_mem_cons.1 hway
      obtain ⟨hnew, hnodup⟩ := List.nodup_cons.1 hnodup
      obtain ⟨hchanges, hsettled⟩ := ih hfiles hway hnodup hbase
      obtain ⟨base', hbase', hfirst, hheld⟩ := first.changes hfile hfileway
      -- the output leads to one place from the first file on
      have hlater := hchanges.keeps.walk (.start output) (fun _ => Path.isName_of_mem_steps) hbase'
      obtain rfl : base' = base := Except.ok.inj (hlater.symm.trans hbase)
      have hother : placeName (base' ++ file.path) ∉ files.map fun file => placeName (base' ++ file.path) := by
        intro hmem
        obtain ⟨other, hmem, heq⟩ := List.mem_map.1 hmem
        have hsame := (placeName_inj (isPlace_of_locate (hsettled other hmem).located)
          (isPlace_of_locate hheld.located)).1 heq
        exact hnew (List.mem_map.2 ⟨other, hmem, List.append_cancel_left hsame⟩)
      exact ⟨hfirst.trans hchanges (.start output) isName_waySteps,
        List.forall_mem_cons.2 ⟨hheld.keep hchanges hother hfile, hsettled⟩⟩

theorem Settled.read (h : Settled output base tree file) :
    tree.read (pathIn output file) = .ok (utf8 file.contents.toList) :=
  read_eq_ok.2 ⟨_, h.located, entry?_of_get? h.held, h.asks⟩

theorem Settled.writes (h : Settled output base tree file) : Writes output file tree tree :=
  ⟨tree, h.again, write_again h.located h.held h.asks⟩

theorem WritesAll.of_settled (h : ∀ file ∈ files, Settled output base tree file) :
    WritesAll output tree files tree := by
  induction files with
  | nil => exact .nil tree
  | cons file files ih =>
      rw [List.forall_mem_cons] at h
      exact .cons h.1.writes (ih h.2)

end Writes

end Command

end SerialContract
