import Mathlib.Data.List.Induction
import SystemyOperacyjne.Library.Words

/-!
# Directories and their path names

A path name is resolved word by word, from the root directory or from the current one. The
directories are given by what a word leads to from each of them, links followed; every one has a
canonical name, a list of words that leads to it from the root. A slash at the end of a path name
makes no difference (`resolve_append_slash`), and behind a slash a name may be appended
(`resolve_append_name`).
-/

set_option autoImplicit false

namespace SystemyOperacyjne.Library

/-- A name that an entry of a directory can have in a path. -/
def Proper (name : List Char) : Prop :=
  name ≠ [] ∧ '/' ∉ name

/-- What separates the words of a path name. -/
def slash (x : Char) : Bool :=
  x = '/'

/-- The words of a path name. -/
def components (path : List Char) : List (List Char) :=
  words slash path

/-- The path name of some words from the root. -/
def absolutePath (names : List (List Char)) : List Char :=
  if names = [] then ['/'] else names.flatMap ('/' :: ·)

/-- The directories of a system. -/
structure Directories (D : Type*) where
  root : D
  enter : D → List Char → Option D
  canonical : D → List (List Char)
  canonical_proper : ∀ d, ∀ name ∈ canonical d, Proper name
  canonical_root : canonical root = []
  enter_canonical : ∀ d, (canonical d).foldlM enter root = some d

namespace Directories

variable {D : Type*} (fs : Directories D)

/-- The directory that a path name leads to, if it does. -/
def resolve (cwd : D) (path : List Char) : Option D :=
  if path = [] then none
  else (components path).foldlM fs.enter (if path.head? = some '/' then fs.root else cwd)

/-- `realpath`, for directories. -/
def realpath (cwd : D) (path : List Char) : Option (List Char) :=
  (fs.resolve cwd path).map fun d => absolutePath (fs.canonical d)

end Directories

variable {path name : List Char} {names : List (List Char)}

/-- The characters of a name are no slashes. -/
theorem slash_of_not_mem (h : '/' ∉ name) : ∀ x ∈ name, slash x = false := by
  intro x hx
  unfold slash
  rw [decide_eq_false_iff_not]
  rintro rfl
  exact h hx

/-- A name behind a path is one more component. -/
theorem components_append_name (path : List Char) (h : Proper name) :
    components (path ++ '/' :: name) = components path ++ [name] := by
  unfold components
  rw [words_append_cons path name rfl, words_of_forall (slash_of_not_mem h.2), if_neg h.1]

/-- A slash at the end adds no word. -/
theorem components_append_slash (path : List Char) :
    components (path ++ ['/']) = components path := by
  unfold components
  rw [words_append_cons path [] rfl, words_of_forall (List.forall_mem_nil _), if_pos rfl,
    List.append_nil]

/-- The words of an absolute path name. The induction is on the words, from the last. -/
theorem components_absolutePath (h : ∀ name ∈ names, Proper name) :
    components (absolutePath names) = names := by
  by_cases hnil : names = []
  · subst hnil
    exact components_append_slash []
  · unfold absolutePath
    rw [if_neg hnil]
    clear hnil
    induction names using List.reverseRecOn with
    | nil => rfl
    | append_singleton names name ih =>
      rw [List.flatMap_append, List.flatMap_singleton,
        components_append_name _ (h name (List.mem_append_right _ (List.mem_singleton_self _))),
        ih fun x hx => h x (List.mem_append_left _ hx)]

/-- An absolute path begins with a slash. -/
theorem head?_absolutePath (names : List (List Char)) :
    (absolutePath names).head? = some '/' := by
  unfold absolutePath
  cases names with
  | nil => rfl
  | cons name names => rfl

/-- A path name of words does not end in a slash. -/
theorem getLast?_absolutePath (hne : names ≠ []) (h : ∀ name ∈ names, Proper name) :
    (absolutePath names).getLast? ≠ some '/' := by
  unfold absolutePath
  rw [if_neg hne]
  rcases List.eq_nil_or_concat names with rfl | ⟨front, name, rfl⟩
  · exact absurd rfl hne
  · have hname : Proper name := h name (by simp)
    rw [List.concat_eq_append, List.flatMap_append, List.flatMap_singleton,
      List.getLast?_append_of_ne_nil _ (List.cons_ne_nil _ _)]
    intro hlast
    have hmem := List.mem_of_getLast? hlast
    rw [List.getLast?_cons_of_ne_nil hname.1] at hlast
    exact hname.2 (List.mem_of_getLast? hlast)

namespace Directories

variable {D : Type*} (fs : Directories D) {cwd d : D}

/-- A slash at the end changes nothing. -/
theorem resolve_append_slash (cwd : D) (hne : path ≠ []) :
    fs.resolve cwd (path ++ ['/']) = fs.resolve cwd path := by
  unfold resolve
  rw [if_neg (by simp), if_neg hne, components_append_slash, List.head?_append_of_ne_nil _ hne]

/-- **Behind a slash a name may be appended**: it is looked up in the directory before it. -/
theorem resolve_append_name (cwd : D) (hlast : path.getLast? = some '/') (hname : Proper name) :
    fs.resolve cwd (path ++ name) = (fs.resolve cwd path).bind fun d => fs.enter d name := by
  obtain ⟨front, rfl⟩ := List.getLast?_eq_some_iff.mp hlast
  have hne : front ++ ['/'] ≠ [] := List.append_ne_nil_of_right_ne_nil _ (List.cons_ne_nil _ _)
  have hne' : front ++ ['/'] ++ name ≠ [] := List.append_ne_nil_of_left_ne_nil hne _
  have hhead : (front ++ ['/'] ++ name).head? = (front ++ ['/']).head? :=
    List.head?_append_of_ne_nil _ hne
  unfold resolve
  rw [if_neg hne', if_neg hne, hhead, List.append_assoc, List.singleton_append,
    components_append_name front hname, components_append_slash, List.foldlM_append]
  simp only [List.foldlM_cons, List.foldlM_nil, bind_pure]
  rfl

/-- The canonical path name leads to the directory, from wherever. -/
theorem resolve_canonical (cwd d : D) :
    fs.resolve cwd (absolutePath (fs.canonical d)) = some d := by
  have hhead := head?_absolutePath (fs.canonical d)
  have hne : absolutePath (fs.canonical d) ≠ [] := by
    intro hnil
    rw [hnil] at hhead
    cases hhead
  unfold resolve
  rw [if_neg hne, if_pos hhead, components_absolutePath (fs.canonical_proper d),
    fs.enter_canonical]

/-- Only the root has no words in its canonical name. -/
theorem canonical_eq_nil_iff : fs.canonical d = [] ↔ d = fs.root := by
  constructor
  · intro hnil
    have hd := fs.enter_canonical d
    rw [hnil] at hd
    exact (Option.some.inj hd).symm
  · rintro rfl
    exact fs.canonical_root

end Directories

end SystemyOperacyjne.Library
