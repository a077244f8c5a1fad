-- SUMMARY: A file system of directories, files and symlinks, and how a path is walked in it.
import FlyCockpit.Lib.UnixPath

/-!
# A file system

A file system is what stands at each location, seen from a working directory. A path is walked
component by component; a symlink is replaced by its target, and only so many links are followed. The
walk arrives somewhere, gets stuck where nothing is, or follows too many links. What it is stuck
before are names that could be created.
-/

open UnixPath (Component components segments)

abbrev Location := List Text

inductive Entry
  | dir
  | file
  | symlink (target : Text)
  deriving DecidableEq

structure FileSystem where
  entry : Location → Option Entry
  parent_dir : ∀ loc name, entry (loc ++ [name]) ≠ none → entry loc = some .dir
  root_dir : entry [] = some .dir
  cwd : Location
  cwd_dir : entry cwd = some .dir
  maxLinks : Nat

namespace FileSystem

open List

/-- The path ends with a slash or with a `.` segment: it can only be a directory. -/
def endsLoosely (path : Text) : Bool :=
  !path.isEmpty && (segments path).getLast?.any fun segment => segment.isEmpty || segment == ['.']

/-- The components of a path for the system, which looks into what a loose end is behind. -/
def sysComponents (path : Text) : List Component :=
  components path ++ if endsLoosely path then [.curDir] else []

inductive Walk
  | reached (links : Nat) (loc : Location)
  | stuck (loc : Location) (rest : List Component)
  | loop
  deriving DecidableEq

variable (fs : FileSystem)

def walk : Nat → Location → List Component → Walk
  | links, loc, [] => .reached links loc
  | links, _, .rootDir :: rest => walk links [] rest
  | links, loc, .curDir :: rest => walk links loc rest
  | links, loc, .parentDir :: rest => walk links loc.dropLast rest
  | links, loc, .normal name :: rest =>
    match fs.entry (loc ++ [name]) with
    | none => .stuck loc (.normal name :: rest)
    | some .dir => walk links (loc ++ [name]) rest
    | some .file => if rest = [] then .reached links (loc ++ [name]) else .stuck (loc ++ [name]) rest
    | some (.symlink target) =>
      match links with
      | 0 => .loop
      | links + 1 => walk links loc (sysComponents target ++ rest)
termination_by links _ comps => (links, comps.length)

/-- The walk from the working directory. -/
def visit (comps : List Component) : Walk := fs.walk fs.maxLinks fs.cwd comps

/-- `realpath`; the empty path is nothing. -/
def canonicalize (comps : List Component) : Option Location :=
  if comps = [] then none
  else
    match fs.visit comps with
    | .reached _ loc => some loc
    | _ => none

/-- `lstat` finds a symlink. -/
def isSymlink (comps : List Component) : Bool :=
  match comps.getLast? with
  | some (.normal name) =>
    match fs.visit comps.dropLast with
    | .reached _ loc =>
      match fs.entry (loc ++ [name]) with
      | some (.symlink _) => true
      | _ => false
    | _ => false
  | _ => false

/-- The names among components. -/
def names (comps : List Component) : List Text :=
  comps.filterMap fun
    | .normal name => some name
    | _ => none

/-- Where a walk ends if what it is stuck before is created. -/
def Walk.place : Walk → Option Location
  | .reached _ loc => some loc
  | .stuck loc rest => if rest.contains .parentDir then none else some (loc ++ names rest)
  | .loop => none

def resolve (path : Text) : Option Location :=
  if path = [] then none else (fs.visit (sysComponents path)).place

variable {fs} {loc : Location} {links : Nat} {comps : List Component}

/-! ## Locations -/

theorem entry_dir_of_append {q r : Location} (h : fs.entry (q ++ r) ≠ none) (hr : r ≠ []) :
    fs.entry q = some .dir := by
  induction r using List.reverseRecOn with
  | nil => exact absurd rfl hr
  | append_singleton r name ih =>
    rw [← append_assoc] at h
    have hparent := fs.parent_dir _ _ h
    obtain rfl | hr := eq_or_ne r []
    · rwa [append_nil] at hparent
    · exact ih (by rw [hparent]; simp) hr

theorem entry_dir_dropLast (h : fs.entry loc = some .dir) : fs.entry loc.dropLast = some .dir := by
  obtain rfl | hne := eq_or_ne loc []
  · exact fs.root_dir
  · refine fs.parent_dir _ (loc.getLast hne) ?_
    rw [dropLast_append_getLast hne, h]
    simp

/-- No symlink stands on the way to the location. -/
def Solid (fs : FileSystem) (loc : Location) : Prop :=
  ∀ q target, q <+: loc → fs.entry q ≠ some (.symlink target)

theorem solid_append {r : Location} (hloc : fs.entry loc = some .dir ∨ fs.entry loc = some .file)
    (hnone : ∀ r', r' <+: r → r' ≠ [] → fs.entry (loc ++ r') = none) : fs.Solid (loc ++ r) := by
  intro q target hq hlink
  have hself : fs.entry loc ≠ some (.symlink target) := by
    intro h
    rw [h] at hloc
    simp at hloc
  obtain ⟨r', rfl⟩ | ⟨r', rfl⟩ := prefix_or_prefix_of_prefix hq (prefix_append loc r)
  · obtain rfl | hne := eq_or_ne r' []
    · rw [append_nil] at hself
      exact hself hlink
    · have hdir := @entry_dir_of_append fs q r' (by obtain h | h := hloc <;> simp [h]) hne
      cases hdir.symm.trans hlink
  · obtain rfl | hne := eq_or_ne r' []
    · rw [append_nil] at hlink
      exact hself hlink
    · rw [hnone r' ((prefix_append_right_inj loc).1 hq) hne] at hlink
      cases hlink

/-! ## Walks -/

/-- A walk that goes on behind where it was to end. -/
def Walk.andThen (fs : FileSystem) (more : List Component) : Walk → Walk
  | .reached links loc => if fs.entry loc = some .file then .stuck loc more else fs.walk links loc more
  | .stuck loc rest => .stuck loc (rest ++ more)
  | .loop => .loop

theorem walk_append (hdir : fs.entry loc = some .dir) {more : List Component} (hmore : more ≠ []) :
    fs.walk links loc (comps ++ more) = (fs.walk links loc comps).andThen fs more := by
  induction links, loc, comps using walk.induct fs with
  | case1 links loc => simp [walk, hdir, Walk.andThen]
  | case2 links loc rest ih => simpa [walk] using ih fs.root_dir
  | case3 links loc rest ih => simpa [walk] using ih hdir
  | case4 links loc rest ih => simpa [walk] using ih (entry_dir_dropLast hdir)
  | case5 links loc name rest hentry => simp [walk, hentry, Walk.andThen]
  | case6 links loc name rest hentry ih => simpa [walk, hentry] using ih hentry
  | case7 links loc name hentry => simp [walk, hentry, hmore, Walk.andThen]
  | case8 links loc name rest hentry hrest => simp [walk, hentry, hmore, hrest, Walk.andThen]
  | case9 loc name rest target hentry => simp [walk, hentry, Walk.andThen]
  | case10 loc name rest target hentry links ih => simpa [walk, hentry] using ih hdir

/-- Where a walk can end: at what is there, or before what is not. -/
def Walk.Sound (fs : FileSystem) : Walk → Prop
  | .reached _ loc => fs.entry loc = some .dir ∨ fs.entry loc = some .file
  | .stuck loc rest => fs.entry loc = some .file ∧ rest ≠ [] ∨
      fs.entry loc = some .dir ∧ ∃ name more, rest = .normal name :: more ∧ fs.entry (loc ++ [name]) = none
  | .loop => True

theorem sound_walk (hdir : fs.entry loc = some .dir) : (fs.walk links loc comps).Sound fs := by
  induction links, loc, comps using walk.induct fs with
  | case1 links loc => simp [walk, hdir, Walk.Sound]
  | case2 links loc rest ih => simpa [walk] using ih fs.root_dir
  | case3 links loc rest ih => simpa [walk] using ih hdir
  | case4 links loc rest ih => simpa [walk] using ih (entry_dir_dropLast hdir)
  | case5 links loc name rest hentry => simp [walk, hentry, hdir, Walk.Sound]
  | case6 links loc name rest hentry ih => simpa [walk, hentry] using ih hentry
  | case7 links loc name hentry => simp [walk, hentry, Walk.Sound]
  | case8 links loc name rest hentry hrest => simp [walk, hentry, hrest, Walk.Sound]
  | case9 loc name rest target hentry => simp [walk, hentry, Walk.Sound]
  | case10 loc name rest target hentry links ih => simpa [walk, hentry] using ih hdir

/-- The limit of links decides whether a walk ends, not where. -/
theorem place_unique {links' : Nat} {p p' : Location} (h : (fs.walk links loc comps).place = some p)
    (h' : (fs.walk links' loc comps).place = some p') : p' = p := by
  induction links, loc, comps using walk.induct fs generalizing links' with
  | case1 links loc => simp_all [walk, Walk.place]
  | case2 links loc rest ih =>
    rw [walk] at h h'
    exact ih h h'
  | case3 links loc rest ih =>
    rw [walk] at h h'
    exact ih h h'
  | case4 links loc rest ih =>
    rw [walk] at h h'
    exact ih h h'
  | case5 links loc name rest hentry => simp_all [walk, Walk.place]
  | case6 links loc name rest hentry ih =>
    exact ih (by simpa [walk, hentry] using h) (by simpa [walk, hentry] using h')
  | case7 links loc name hentry => simp_all [walk, Walk.place]
  | case8 links loc name rest hentry hrest => simp_all [walk, Walk.place]
  | case9 loc name rest target hentry => simp [walk, hentry, Walk.place] at h
  | case10 loc name rest target hentry links ih =>
    cases links' with
    | zero => simp [walk, hentry, Walk.place] at h'
    | succ links' => exact ih (by simpa [walk, hentry] using h) (by simpa [walk, hentry] using h')

/-- A place that a walk can end at is reached through directories, and is one only if it is reached. -/
theorem Walk.Sound.place {w : Walk} {p : Location} (h : w.Sound fs) (hplace : w.place = some p) :
    fs.Solid p ∧ (fs.entry p = some .dir → ∃ links, w = .reached links p) := by
  cases w with
  | reached links loc =>
    obtain rfl := Option.some.inj hplace
    refine ⟨?_, fun _ => ⟨links, rfl⟩⟩
    have hsolid := solid_append (r := []) h fun r' hr' hne => absurd (prefix_nil.1 hr') hne
    rwa [append_nil] at hsolid
  | stuck loc rest =>
    rw [Walk.place] at hplace
    split_ifs at hplace
    obtain rfl := Option.some.inj hplace
    have hnone : ∀ r', r' <+: names rest → r' ≠ [] → fs.entry (loc ++ r') = none := by
      intro r' hr' hne
      obtain ⟨hfile, -⟩ | ⟨-, name, more, rfl, hmissing⟩ := h
      · by_contra hentry
        cases (entry_dir_of_append hentry hne).symm.trans hfile
      · obtain ⟨name', r', rfl⟩ := exists_cons_of_ne_nil hne
        obtain ⟨rfl, -⟩ := cons_prefix_cons.1 hr'
        by_contra hentry
        rw [← singleton_append, ← append_assoc] at hentry
        obtain rfl | hne := eq_or_ne r' []
        · exact hentry (by rwa [append_nil])
        · cases (entry_dir_of_append hentry hne).symm.trans hmissing
    refine ⟨solid_append ?_ hnone, fun hdir => ?_⟩
    · obtain ⟨hfile, -⟩ | ⟨hdir, -⟩ := h
      · exact .inr hfile
      · exact .inl hdir
    · obtain hnil | hne := eq_or_ne (names rest) []
      · rw [hnil, append_nil] at hdir
        obtain ⟨hfile, -⟩ | ⟨-, name, more, rfl, -⟩ := h
        · cases hdir.symm.trans hfile
        · cases hnil
      · cases (hnone _ (prefix_refl _) hne).symm.trans hdir
  | loop => cases hplace

theorem ne_nil_of_sysComponents {path : Text} (h : sysComponents path ≠ []) : path ≠ [] := by
  rintro rfl
  exact h rfl

theorem names_append (front rest : List Component) : names (front ++ rest) = names front ++ names rest :=
  filterMap_append

theorem place_stuck {rest : List Component} (h : rest.contains .parentDir = false) :
    (Walk.stuck loc rest).place = some (loc ++ names rest) := by
  rw [Walk.place, h]
  rfl

/-! ## Existing paths -/

theorem canonicalize_eq_some :
    fs.canonicalize comps = some loc ↔ comps ≠ [] ∧ ∃ links, fs.visit comps = .reached links loc := by
  rw [canonicalize]
  split_ifs with hnil
  · simp [hnil]
  · cases hvisit : fs.visit comps with
    | reached links loc' => simp [hnil]
    | stuck => simp
    | loop => simp

theorem visit_ne_reached (h : fs.canonicalize comps = none) (hne : comps ≠ []) (links : Nat)
    (loc : Location) : fs.visit comps ≠ .reached links loc := by
  intro hreached
  cases (canonicalize_eq_some.2 ⟨hne, links, hreached⟩).symm.trans h

/-- Behind a path that exists the walk goes on from where it leads. -/
theorem visit_append (h : fs.canonicalize comps = some loc) :
    ∃ links, ∀ more : List Component, more ≠ [] → fs.visit (comps ++ more) =
      if fs.entry loc = some .file then .stuck loc more else fs.walk links loc more := by
  obtain ⟨-, links, hvisit⟩ := canonicalize_eq_some.1 h
  refine ⟨links, fun more hmore => ?_⟩
  rw [visit, walk_append fs.cwd_dir hmore, ← visit, hvisit, Walk.andThen]

theorem isSymlink_append {name target : Text} (h : fs.canonicalize comps = some loc)
    (hentry : fs.entry (loc ++ [name]) = some (.symlink target)) :
    fs.isSymlink (comps ++ [.normal name]) = true := by
  obtain ⟨-, links, hvisit⟩ := canonicalize_eq_some.1 h
  simp [isSymlink, hvisit, hentry]

end FileSystem
