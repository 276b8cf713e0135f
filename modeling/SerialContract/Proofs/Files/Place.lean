import SerialContract.Files.FileTree
import SerialContract.Proofs.Text.Cut

/-!
# Paths and places

The steps of a path are names, and a path inside a directory has the steps of both. A place is written as names with
slashes between them, and no two places are written alike.
-/

namespace SerialContract

namespace Path

/-- A name is not empty, and there is no slash in it. -/
structure IsName (name : String) : Prop where
  ne_empty : name ≠ ""
  slash : '/' ∉ name.toList

theorem IsName.ne_root {name : String} (h : IsName name) : name ≠ root := by
  rintro rfl
  exact h.slash (by simp [root])

theorem isName_of_mem_steps {path name : String} (h : name ∈ steps path) : IsName name := by
  obtain ⟨hsegment, hkept⟩ := List.mem_filter.1 h
  obtain ⟨segment, hmem, rfl⟩ := List.mem_map.1 hsegment
  refine ⟨by simpa using (Bool.and_eq_true_iff.1 hkept).1, ?_⟩
  rw [String.toList_ofList]
  exact notMem_of_mem_splitOn hmem

theorem steps_slash (front back : List Char) :
    steps (String.ofList (front ++ '/' :: back)) = steps (String.ofList front) ++ steps (String.ofList back) := by
  simp only [steps, segments, String.toList_ofList, List.splitOn_append_cons_self, List.map_append, List.filter_append]

theorem steps_empty : steps (String.ofList []) = [] := by simp [steps, segments]

/-- A path inside a directory is what leads to the directory, a slash and the path. -/
theorem exists_join {directory : String} (h : directory ≠ "") (path : String) : ∃ front : List Char,
    join directory path = String.ofList (front ++ '/' :: path.toList) ∧
      steps directory = steps (String.ofList front) ∧
      (front ++ '/' :: path.toList).head? = directory.toList.head? := by
  have hne : directory.toList ≠ [] := fun heq => h (String.toList_eq_nil_iff.1 heq)
  have hlast := List.getLast?_eq_getLast_of_ne_nil hne
  by_cases hc : directory.toList.getLast hne = '/'
  · rw [hc] at hlast
    obtain ⟨front, hfront⟩ := List.getLast?_eq_some_iff.1 hlast
    have hjoin : join directory path = directory ++ path := by
      rw [join, hlast]
      rfl
    have hdirectory : directory = String.ofList (front ++ ['/']) := by rw [← hfront, String.ofList_toList]
    refine ⟨front, ?_, ?_, ?_⟩
    · rw [hjoin, ← String.toList_inj, String.toList_append, String.toList_ofList, hfront, List.append_assoc]
      rfl
    · rw [hdirectory, steps_slash, steps_empty, List.append_nil]
    · rw [hfront]
      cases front <;> rfl
  · have hjoin : join directory path = directory ++ "/" ++ path := by
      rw [join, hlast]
      split
      · next heq => cases heq
      · next heq => exact absurd (Option.some.inj heq) hc
      · rfl
    refine ⟨directory.toList, ?_, by rw [String.ofList_toList], List.head?_append_of_ne_nil _ hne⟩
    rw [hjoin, ← String.toList_inj, String.toList_append, String.toList_append, String.toList_ofList,
      String.toList_ofList, List.append_assoc, List.singleton_append]

theorem steps_join (directory path : String) : steps (join directory path) = steps directory ++ steps path := by
  by_cases h : directory = ""
  · subst h
    have hjoin : join "" path = path := String.empty_append
    have hsteps : steps "" = [] := steps_empty
    rw [hjoin, hsteps, List.nil_append]
  · obtain ⟨front, hjoin, hsteps, _⟩ := exists_join h path
    rw [hjoin, steps_slash, String.ofList_toList, hsteps]

theorem start_join {directory path : String} (h : path.toList.head? ≠ some '/') :
    start (join directory path) = start directory := by
  by_cases hempty : directory = ""
  · subst hempty
    have hjoin : join "" path = path := String.empty_append
    rw [hjoin, start, if_neg h]
    rfl
  · obtain ⟨front, hjoin, _, hhead⟩ := exists_join hempty path
    rw [start, hjoin, String.toList_ofList, hhead, start]

end Path

namespace FileTree

open SerialContract.Path (IsName root up)

/-- A place is made of names; the first one is a slash outside of the tree. -/
def IsPlace (place : List String) : Prop :=
  (∀ name ∈ place, IsName name) ∨ ∃ rest, place = root :: rest ∧ ∀ name ∈ rest, IsName name

theorem isName_up : IsName up := ⟨by simp [up], by simp [up]⟩

theorem IsPlace.start (path : String) : IsPlace (Path.start path) := by
  unfold Path.start
  split
  · exact .inr ⟨[], rfl, List.forall_mem_nil _⟩
  · exact .inl (List.forall_mem_nil _)

theorem IsPlace.snoc {place : List String} (h : IsPlace place) {name : String} (hname : IsName name) :
    IsPlace (place ++ [name]) := by
  rcases h with h | ⟨rest, rfl, h⟩
  · exact .inl (List.forall_mem_append.2 ⟨h, List.forall_mem_singleton.2 hname⟩)
  · exact .inr ⟨rest ++ [name], rfl, List.forall_mem_append.2 ⟨h, List.forall_mem_singleton.2 hname⟩⟩

theorem IsPlace.above {place : List String} (h : IsPlace place) : IsPlace (above place) := by
  unfold FileTree.above
  split
  · exact h
  · split
    · next hup =>
      refine .inl (List.forall_mem_cons.2 ⟨isName_up, fun name hname => ?_⟩)
      rw [of_decide_eq_true (List.all_eq_true.1 hup name hname)]
      exact isName_up
    · rcases h with h | ⟨rest, rfl, h⟩
      · exact .inl fun name hname => h name ((List.dropLast_sublist _).subset hname)
      · cases rest with
        | nil => exact .inl (List.forall_mem_nil _)
        | cons first rest =>
            exact .inr ⟨(first :: rest).dropLast, rfl,
              fun name hname => h name ((List.dropLast_sublist _).subset hname)⟩

/-! ## How places are written -/

/-- What stands between the slashes of a place as it is written. -/
def tokens : List String → List (List Char)
  | [] => [[]]
  | first :: rest => if first = root then [] :: [] :: rest.map String.toList else (first :: rest).map String.toList

theorem tokens_ne_nil (place : List String) : tokens place ≠ [] := by
  unfold tokens
  split
  · exact List.cons_ne_nil _ _
  · split <;> exact List.cons_ne_nil _ _

theorem toList_placeName (place : List String) : (placeName place).toList = ['/'].intercalate (tokens place) := by
  have hslash : "/".toList = ['/'] := by simp
  rw [placeName, String.toList_intercalate, hslash]
  unfold tokens
  split
  · rfl
  · next first rest =>
    split
    · next hroot =>
      have hfirst : first.toList = ['/'] := by rw [hroot, root, hslash]
      cases rest with
      | nil =>
          rw [List.map_cons, hfirst]
          rfl
      | cons second rest =>
          rw [List.map_cons, List.map_cons, List.intercalate_cons_cons, List.intercalate_cons_cons,
            List.intercalate_cons_cons, hfirst]
          rfl
    · rfl

theorem splitOn_placeName {place : List String} (h : IsPlace place) :
    (placeName place).toList.splitOn '/' = tokens place := by
  have hnames : ∀ names : List String, (∀ name ∈ names, IsName name) → ∀ token ∈ names.map String.toList, '/' ∉ token :=
    fun names hnames => List.forall_mem_map.2 fun name hname => (hnames name hname).slash
  rw [toList_placeName]
  refine List.splitOn_intercalate '/' ?_ (tokens_ne_nil place)
  rcases h with h | ⟨rest, rfl, h⟩
  · cases place with
    | nil => simp [tokens]
    | cons first rest =>
        rw [tokens, if_neg (h first List.mem_cons_self).ne_root]
        exact hnames _ h
  · rw [tokens, if_pos rfl]
    refine List.forall_mem_cons.2 ⟨by simp, List.forall_mem_cons.2 ⟨by simp, hnames _ h⟩⟩

/-- The place of which these are the tokens. -/
def ofTokens : List (List Char) → List String
  | [[]] => []
  | [] :: [] :: rest => root :: rest.map String.ofList
  | names => names.map String.ofList

theorem ofTokens_tokens {place : List String} (h : IsPlace place) : ofTokens (tokens place) = place := by
  have hnames : ∀ names : List String, (names.map String.toList).map String.ofList = names := by
    intro names
    rw [List.map_map]
    exact (List.map_congr_left fun name _ => String.ofList_toList).trans (List.map_id names)
  rcases h with h | ⟨rest, rfl, _⟩
  · cases place with
    | nil => rfl
    | cons first rest =>
        have hfirst := h first List.mem_cons_self
        have hchars : first.toList ≠ [] := fun heq => hfirst.ne_empty (String.toList_eq_nil_iff.1 heq)
        rw [tokens, if_neg hfirst.ne_root, List.map_cons, ofTokens.eq_3 _ (by simp [hchars]) (by simp [hchars]),
          ← List.map_cons, hnames]
  · rw [tokens, if_pos rfl, ofTokens, hnames]

theorem placeName_inj {place place' : List String} (h : IsPlace place) (h' : IsPlace place') :
    placeName place = placeName place' ↔ place = place' := by
  refine ⟨fun heq => ?_, congrArg placeName⟩
  rw [← ofTokens_tokens h, ← splitOn_placeName h, heq, splitOn_placeName h', ofTokens_tokens h']

end FileTree

end SerialContract
