import SystemyOperacyjne.Model.DirectorySearch

/-!
# The path that a search begins with

An absolute path gets a slash at its end if it has none. A relative one is resolved, and gets its
slash behind what it resolves to; but the canonical path of the root directory ends in a slash
already, and then it is the relative path that is returned (`validatePath_iff`).
-/

set_option autoImplicit false

namespace SystemyOperacyjne.DirectorySearch

open Library

variable {D : Type*} (fs : Directories D) {cwd d : D} {path : Path}

/-- The path is absolute, ends in a slash, names the directory, and the name of an entry may be
appended to it. -/
def StartsAt (cwd d : D) (path : Path) : Prop :=
  path.head? = some '/' ∧ path.getLast? = some '/' ∧ fs.resolve cwd path = some d ∧
    ∀ name, Proper name → fs.resolve cwd (path ++ name) = fs.enter d name

variable {fs}

/-- A search starts where a path with slashes at both ends says. -/
theorem startsAt_of_slash (hhead : path.head? = some '/') (hlast : path.getLast? = some '/')
    (hnames : fs.resolve cwd path = some d) : StartsAt fs cwd d path := by
  refine ⟨hhead, hlast, hnames, ?_⟩
  intro name hname
  rw [fs.resolve_append_name cwd hlast hname, hnames]
  rfl

/-- With a slash appended a path names the same directory. -/
theorem startsAt_append_slash (hhead : path.head? = some '/')
    (hnames : fs.resolve cwd path = some d) : StartsAt fs cwd d (path ++ ['/']) := by
  have hne : path ≠ [] := by
    rintro rfl
    cases hhead
  apply startsAt_of_slash
  · rw [List.head?_append_of_ne_nil _ hne, hhead]
  · exact List.getLast?_concat
  · rw [fs.resolve_append_slash cwd hne, hnames]

/-- An absolute path. -/
theorem validatePath_absolute (hhead : path.head? = some '/')
    (hnames : fs.resolve cwd path = some d) :
    ∃ valid, validatePath fs cwd path = some valid ∧ StartsAt fs cwd d valid := by
  have hnot : ¬ path.head? ≠ some '/' := not_not.mpr hhead
  unfold validatePath
  simp only [if_neg hnot, Option.map_some]
  by_cases hlast : path.getLast? = some '/'
  · rw [if_neg (not_not.mpr hlast)]
    exact ⟨path, rfl, startsAt_of_slash hhead hlast hnames⟩
  · rw [if_pos hlast]
    exact ⟨path ++ ['/'], rfl, startsAt_append_slash hhead hnames⟩

/-- A relative path to the root directory is returned as it is. -/
theorem validatePath_root (hhead : path.head? ≠ some '/')
    (hnames : fs.resolve cwd path = some fs.root) : validatePath fs cwd path = some path := by
  have hreal : fs.realpath cwd path = some ['/'] := by
    unfold Directories.realpath
    rw [hnames, Option.map_some, fs.canonical_root]
    rfl
  unfold validatePath
  simp only [if_pos hhead, hreal, Option.map_some]
  rfl

/-- A relative path to another directory. -/
theorem validatePath_relative (hhead : path.head? ≠ some '/')
    (hnames : fs.resolve cwd path = some d) (hroot : d ≠ fs.root) :
    ∃ valid, validatePath fs cwd path = some valid ∧ StartsAt fs cwd d valid := by
  have hreal : fs.realpath cwd path = some (absolutePath (fs.canonical d)) := by
    unfold Directories.realpath
    rw [hnames, Option.map_some]
  have hne : fs.canonical d ≠ [] := fun hnil => hroot (fs.canonical_eq_nil_iff.mp hnil)
  have hlast := getLast?_absolutePath hne (fs.canonical_proper d)
  refine ⟨absolutePath (fs.canonical d) ++ ['/'], ?_, ?_⟩
  · unfold validatePath
    simp only [if_pos hhead, hreal, Option.map_some]
    rw [if_pos hlast]
  · exact startsAt_append_slash (head?_absolutePath _) (fs.resolve_canonical cwd d)

/-- **Path normalisation**. For every path to a directory, from every current directory,
`validatePath` returns an absolute path that ends in a slash and names the directory exactly when
the path is absolute itself or the directory is not the root.
SOURCE: cw02/zad2/main.c:115-135 -/
theorem validatePath_iff {D : Type*} (fs : Directories D) {cwd d : D} {path : Path}
    (names : fs.resolve cwd path = some d) :
    (∃ valid, validatePath fs cwd path = some valid ∧ StartsAt fs cwd d valid) ↔
      path.head? = some '/' ∨ d ≠ fs.root := by
  by_cases hhead : path.head? = some '/'
  · exact iff_of_true (validatePath_absolute hhead names) (Or.inl hhead)
  · by_cases hroot : d = fs.root
    · subst hroot
      apply iff_of_false
      · rintro ⟨valid, hvalid, hstarts⟩
        rw [validatePath_root hhead names, Option.some.injEq] at hvalid
        subst hvalid
        exact hhead hstarts.1
      · rintro (hhead' | hne)
        · exact hhead hhead'
        · exact hne rfl
    · exact iff_of_true (validatePath_relative hhead names hroot) (Or.inr hroot)

/-- The root directory and the directory `home` in it. -/
inductive Place
  | top
  | home
  deriving DecidableEq, Repr

def Place.enter (d : Place) (name : List Char) : Option Place :=
  if name = ['.'] then some d
  else if name = ['.', '.'] then some .top
  else if d = .top ∧ name = ['h', 'o', 'm', 'e'] then some .home
  else none

def Place.canonical : Place → List (List Char)
  | .top => []
  | .home => [['h', 'o', 'm', 'e']]

/-- The canonical path of a place has proper names. -/
theorem Place.canonical_proper (d : Place) : ∀ name ∈ d.canonical, Proper name := by
  unfold Proper
  cases d <;> decide

/-- It leads to the place. -/
theorem Place.enter_canonical (d : Place) : d.canonical.foldlM Place.enter .top = some d := by
  cases d <;> rfl

def places : Directories Place where
  root := .top
  enter := Place.enter
  canonical := Place.canonical
  canonical_proper := Place.canonical_proper
  canonical_root := rfl
  enter_canonical := Place.enter_canonical

/-- The current directory itself, from `home`. -/
theorem validatePath_iff_home :
    (∃ valid, validatePath places Place.home ['.'] = some valid ∧
        StartsAt places Place.home .home valid) ↔
      List.head? ['.'] = some '/' ∨ Place.home ≠ places.root :=
  validatePath_iff places (by decide)

/-- The directory above `home` is the root, and its relative path is returned. -/
theorem validatePath_parent : places.resolve .home ['.', '.'] = some .top ∧
    ¬ ∃ valid, validatePath places .home ['.', '.'] = some valid ∧
      StartsAt places .home .top valid := by
  refine ⟨by decide, ?_⟩
  rintro ⟨valid, hvalid, hstarts⟩
  have hsame : validatePath places .home ['.', '.'] = some ['.', '.'] := by decide
  rw [hsame, Option.some.injEq] at hvalid
  subst hvalid
  exact absurd hstarts.1 (by decide)

end SystemyOperacyjne.DirectorySearch
