-- SUMMARY: Symlink-aware path containment: the nearest existing ancestor and the unresolved tail.
import FlyCockpit.Lib.FileSystem

/-!
# Path containment

A path is held against a root by its effective path: the nearest existing ancestor with its symlinks
resolved, and the rest of the path as names. A symlink where the existing part ends is refused. With a
slash or a `.` behind it the link is not seen: the path with the slash cannot be resolved and is no
symlink, and the ancestor that is tried next is the one in front of the link.
-/

namespace FlyCockpit.Host

open List

open UnixPath (Component components)
open FileSystem (sysComponents endsLoosely names)

inductive PathError
  | notFound
  | unresolvedParentTraversal (original : Text)

variable (fs : FileSystem)

/-- The ancestors of a path that is given by its components, the last one first. -/
def nearestFrom : List Component → Except PathError (List Component × Location)
  | [] => .error .notFound
  | last :: rest =>
    match fs.canonicalize (last :: rest).reverse with
    | some base => .ok ((last :: rest).reverse, base)
    | none =>
      if fs.isSymlink (last :: rest).reverse then .error .notFound
      else if last = .rootDir then .error .notFound
      else nearestFrom rest

def nearestExistingAncestor (path : Text) : Except PathError (List Component × Location) :=
  match fs.canonicalize (sysComponents path) with
  | some base => .ok (components path, base)
  | none =>
    if fs.isSymlink (sysComponents path) then .error .notFound
    else
      match (components path).reverse with
      | [] => .error .notFound
      | last :: rest => if last = .rootDir then .error .notFound else nearestFrom fs rest

def pushTail (original : Text) : Location → List Component → Except PathError Location
  | base, [] => .ok base
  | base, .normal part :: rest => pushTail original (base ++ [part]) rest
  | base, .curDir :: rest => pushTail original base rest
  | _, .parentDir :: _ => .error (.unresolvedParentTraversal original)
  | base, .rootDir :: rest => pushTail original base rest

/-- `Path::file_name`, which is never `..`. -/
def fileName (loc : Location) : Option Text := loc.getLast?.filter (· ≠ ['.', '.'])

def appendUnresolvedTail (base : Location) (original : Text) (existing : List Component) :
    Except PathError Location :=
  let tail :=
    if existing.isPrefixOf (components original) then (components original).drop existing.length else []
  match pushTail original base tail with
  | .error e => .error e
  | .ok base =>
    if fileName base = some ['.', '.'] then .error (.unresolvedParentTraversal original) else .ok base

def effectivePath (path : Text) : Except PathError Location :=
  match nearestExistingAncestor fs path with
  | .error e => .error e
  | .ok (existing, base) => appendUnresolvedTail base path existing

def containedUnder (root candidate : Text) : Bool :=
  match effectivePath fs root with
  | .error _ => false
  | .ok root =>
    match effectivePath fs candidate with
    | .error _ => false
    | .ok candidate => root.isPrefixOf candidate

/-- What containment promises: the candidate ends at or below the root. -/
def SoundFor (root candidate : Text) : Prop :=
  containedUnder fs root candidate = true → ∀ place rootPlace, fs.resolve candidate = some place →
    fs.resolve root = some rootPlace → rootPlace <+: place

/-- The path ends loosely behind a symlink that does not lead to a directory. -/
structure LooseLink (path : Text) (link : Location) : Prop where
  loose : endsLoosely path = true
  nowhere : fs.canonicalize (sysComponents path) = none
  exists_link : ∃ front name base target, components path = front ++ [.normal name] ∧
    fs.canonicalize front = some base ∧ fs.entry (base ++ [name]) = some (.symlink target) ∧
      link = base ++ [name]

variable {fs} {base link e : Location} {path root candidate : Text} {front : List Component}

/-! ## The effective path -/

theorem pushTail_eq (original : Text) (tail : List Component) (base : Location) :
    pushTail original base tail =
      if tail.contains .parentDir then .error (.unresolvedParentTraversal original)
      else .ok (base ++ names tail) := by
  induction tail generalizing base with
  | nil => simp [pushTail, names]
  | cons c tail ih =>
    cases c with
    | parentDir => simp [pushTail]
    | normal part => simp [pushTail, ih, names]
    | rootDir => simp [pushTail, ih, names]
    | curDir => simp [pushTail, ih, names]

theorem fileName_ne (loc : Location) : fileName loc ≠ some ['.', '.'] := by
  intro h
  have hne := Option.filter_eq_some_iff.1 h
  simp at hne

theorem appendUnresolvedTail_eq {rest : List Component} (hpath : components path = front ++ rest) :
    appendUnresolvedTail base path front =
      if rest.contains .parentDir then .error (.unresolvedParentTraversal path)
      else .ok (base ++ names rest) := by
  rw [appendUnresolvedTail, hpath, if_pos (by simp), drop_left, pushTail_eq]
  split_ifs
  · rfl
  · exact if_neg (fileName_ne _)

/-- The search goes up to where the path exists; what comes next is neither there nor a symlink. -/
theorem nearestFrom_ok {rev : List Component} (h : nearestFrom fs rev = .ok (front, base)) :
    fs.canonicalize front = some base ∧ (rev.reverse = front ∨ ∃ c rest, rev.reverse = front ++ c :: rest ∧
      fs.canonicalize (front ++ [c]) = none ∧ fs.isSymlink (front ++ [c]) = false) := by
  induction rev with
  | nil => cases h
  | cons last rev ih =>
    rw [nearestFrom] at h
    split at h
    next base' hbase =>
      cases h
      exact ⟨hbase, .inl rfl⟩
    next hnone =>
      split_ifs at h with hlink
      obtain ⟨hfront, heq | ⟨c, rest, heq, hc⟩⟩ := ih h
      · refine ⟨hfront, .inr ⟨last, [], ?_⟩⟩
        rw [reverse_cons, heq] at hnone hlink ⊢
        exact ⟨rfl, hnone, by simpa using hlink⟩
      · refine ⟨hfront, .inr ⟨c, rest ++ [last], ?_, hc⟩⟩
        rw [reverse_cons, heq, append_assoc, cons_append]

theorem nearestFrom_of_canonicalize (h : fs.canonicalize front = some base) :
    nearestFrom fs front.reverse = .ok (front, base) := by
  obtain ⟨hne, -⟩ := FileSystem.canonicalize_eq_some.1 h
  obtain ⟨last, rest, hrev⟩ := exists_cons_of_ne_nil (reverse_ne_nil_iff.2 hne)
  rw [hrev, nearestFrom, ← hrev, reverse_reverse, h]

/-- Where the next component is neither there nor a symlink, the rest of a path are names. -/
theorem place_of_missing {rest : List Component} {c : Component}
    (hfront : fs.canonicalize front = some base) (hnone : fs.canonicalize (front ++ [c]) = none)
    (hlink : fs.isSymlink (front ++ [c]) = false) (hparent : (c :: rest).contains .parentDir = false) :
    (fs.visit (front ++ c :: rest)).place = some (base ++ names (c :: rest)) := by
  obtain ⟨links, hvisit⟩ := FileSystem.visit_append hfront
  rw [hvisit _ (by simp)]
  split_ifs with hfile
  · exact FileSystem.place_stuck hparent
  · have hnot := FileSystem.visit_ne_reached hnone (by simp)
    rw [hvisit [c] (by simp), if_neg hfile] at hnot
    cases c with
    | rootDir => exact absurd (by simp [FileSystem.walk]) (hnot links [])
    | curDir => exact absurd (by simp [FileSystem.walk]) (hnot links base)
    | parentDir => simp at hparent
    | normal name =>
      cases hentry : fs.entry (base ++ [name]) with
      | none =>
        rw [FileSystem.walk, hentry]
        exact FileSystem.place_stuck hparent
      | some entry =>
        cases entry with
        | dir => exact absurd (by simp [FileSystem.walk, hentry]) (hnot links (base ++ [name]))
        | file => exact absurd (by simp [FileSystem.walk, hentry]) (hnot links (base ++ [name]))
        | symlink target => cases hlink.symm.trans (FileSystem.isSymlink_append hfront hentry)

theorem sysComponents_of_loose {last : Component}
    (hloose : endsLoosely path = true) (hpath : components path = front ++ [last]) :
    sysComponents path = front ++ [last, .curDir] := by
  rw [sysComponents, hpath, if_pos hloose, append_assoc]
  rfl

/-- The last component of a path that ends loosely is not looked at by itself: it may be a symlink. -/
theorem loose_cases {last : Component} (hloose : endsLoosely path = true)
    (hpath : components path = front ++ [last]) (hfront : fs.canonicalize front = some base)
    (hnone : fs.canonicalize (sysComponents path) = none) (hparent : [last].contains .parentDir = false)
    (hroot : last ≠ .rootDir) :
    (fs.visit (sysComponents path)).place = some (base ++ names [last]) ∨
      LooseLink fs path (base ++ names [last]) := by
  have hsys := sysComponents_of_loose hloose hpath
  obtain ⟨links, hvisit⟩ := FileSystem.visit_append hfront
  have hnot := FileSystem.visit_ne_reached hnone (by simp [hsys])
  rw [hsys, hvisit _ (by simp)] at hnot ⊢
  split_ifs at hnot ⊢ with hfile
  · refine .inl ((FileSystem.place_stuck ?_).trans ?_)
    · simpa using hparent
    · rfl
  · cases last with
    | rootDir => exact absurd rfl hroot
    | curDir => exact absurd (by simp [FileSystem.walk]) (hnot links base)
    | parentDir => simp at hparent
    | normal name =>
      cases hentry : fs.entry (base ++ [name]) with
      | none =>
        rw [FileSystem.walk, hentry]
        exact .inl (FileSystem.place_stuck (by simp))
      | some entry =>
        cases entry with
        | dir => exact absurd (by simp [FileSystem.walk, hentry]) (hnot links (base ++ [name]))
        | file =>
          rw [FileSystem.walk, hentry]
          exact .inl (by simp [FileSystem.Walk.place, names])
        | symlink target => exact .inr ⟨hloose, hnone, front, name, base, target, hpath, hfront, hentry, rfl⟩

/-- The effective path is where the path leads, but for a symlink with a loose end behind it. -/
theorem effectivePath_cases (h : effectivePath fs path = .ok e) :
    fs.resolve path = some e ∨ LooseLink fs path e := by
  rw [effectivePath, nearestExistingAncestor] at h
  cases hsome : fs.canonicalize (sysComponents path) with
  | some base =>
    rw [hsome] at h
    dsimp only at h
    rw [appendUnresolvedTail_eq (append_nil _).symm] at h
    obtain ⟨hne, links, hvisit⟩ := FileSystem.canonicalize_eq_some.1 hsome
    rw [FileSystem.resolve, if_neg (FileSystem.ne_nil_of_sysComponents hne), hvisit]
    cases h
    exact .inl (congrArg some (append_nil base).symm)
  | none =>
    rw [hsome] at h
    dsimp only at h
    split_ifs at h with hlink
    cases hrev : (components path).reverse with
    | nil =>
      rw [hrev] at h
      cases h
    | cons last rest =>
      have hpath : components path = rest.reverse ++ [last] := by
        rw [← reverse_reverse (components path), hrev, reverse_cons]
      have hresolve : fs.resolve path = (fs.visit (sysComponents path)).place := by
        refine if_neg (FileSystem.ne_nil_of_sysComponents ?_)
        simp [sysComponents, hpath]
      rw [hrev] at h
      dsimp only at h
      split_ifs at h with hroot
      cases hnearest : nearestFrom fs rest with
      | error =>
        rw [hnearest] at h
        cases h
      | ok found =>
        obtain ⟨front, base⟩ := found
        rw [hnearest] at h
        obtain ⟨hfront, heq | ⟨c, more, heq, hnone, hnolink⟩⟩ := nearestFrom_ok hnearest
        · rw [heq] at hpath
          dsimp only at h
          rw [appendUnresolvedTail_eq hpath] at h
          split_ifs at h with hparent
          cases h
          rw [hresolve]
          cases hloose : endsLoosely path with
          | true => exact loose_cases hloose hpath hfront hsome (Bool.eq_false_iff.2 hparent) hroot
          | false =>
            have hsys : sysComponents path = front ++ [last] := by
              rw [sysComponents, hpath, hloose]
              exact append_nil _
            rw [hsys] at hsome hlink ⊢
            exact .inl (place_of_missing hfront hsome (Bool.eq_false_iff.2 hlink)
              (Bool.eq_false_iff.2 hparent))
        · rw [heq, append_assoc, cons_append] at hpath
          dsimp only at h
          rw [appendUnresolvedTail_eq hpath] at h
          split_ifs at h with hparent
          cases h
          -- a loose end adds no name
          have hend : names (if endsLoosely path = true then [.curDir] else []) = [] := by
            split_ifs <;> rfl
          have hplace := @place_of_missing fs base front
            (more ++ [last] ++ if endsLoosely path = true then [.curDir] else []) c hfront hnone hnolink
            (by split_ifs <;> simpa using hparent)
          rw [hresolve, sysComponents, hpath, append_assoc, cons_append, hplace,
            ← cons_append, FileSystem.names_append _ (ite _ _ _), hend, append_nil]
          exact .inl rfl

/-! ## Symlinks with a loose end behind them -/

namespace LooseLink

theorem entry_eq (h : LooseLink fs path link) : ∃ target, fs.entry link = some (.symlink target) := by
  obtain ⟨-, -, front, name, base, target, -, -, hentry, rfl⟩ := h
  exact ⟨target, hentry⟩

/-- What lies in front of the link are directories. -/
theorem dir_of_below (h : LooseLink fs path link) {q : Location} (hq : q <+: link) (hne : q ≠ link) :
    fs.entry q = some .dir := by
  obtain ⟨target, hentry⟩ := h.entry_eq
  obtain ⟨r, rfl⟩ := hq
  refine FileSystem.entry_dir_of_append (r := r) (by simp [hentry]) ?_
  rintro rfl
  exact hne (append_nil q).symm

theorem effectivePath_eq (h : LooseLink fs path link) : effectivePath fs path = .ok link := by
  obtain ⟨hloose, hnone, front, name, base, target, hpath, hfront, hentry, rfl⟩ := h
  have hlink : fs.isSymlink (sysComponents path) = false := by
    simp [FileSystem.isSymlink, sysComponents, hloose]
  have hrev : (components path).reverse = .normal name :: front.reverse := by
    rw [hpath, reverse_append]
    rfl
  rw [effectivePath, nearestExistingAncestor, hnone, hlink, hrev]
  simp only [Bool.false_eq_true, if_false, reduceCtorEq, nearestFrom_of_canonicalize hfront]
  rw [appendUnresolvedTail_eq hpath]
  rfl

theorem resolve_eq {name : Text} (h : LooseLink fs path (base ++ [name])) :
    ∃ links, fs.resolve path = (fs.walk links base [.normal name, .curDir]).place := by
  obtain ⟨hloose, hnone, front, name', base', target, hpath, hfront, hentry, hlink⟩ := h
  obtain ⟨rfl, hname⟩ := append_inj' hlink rfl
  obtain rfl := singleton_inj.1 hname
  have hsys := sysComponents_of_loose hloose hpath
  have hdir : fs.entry base = some .dir := fs.parent_dir base name (by simp [hentry])
  obtain ⟨links, hvisit⟩ := FileSystem.visit_append hfront
  refine ⟨links, ?_⟩
  rw [FileSystem.resolve, if_neg (FileSystem.ne_nil_of_sysComponents (by simp [hsys])), hsys,
    hvisit _ (by simp), hdir]
  rfl

/-- Two paths that end loosely behind the same link lead to the same place. -/
theorem resolve_unique {path' : Text} {p p' : Location} (h : LooseLink fs path link)
    (h' : LooseLink fs path' link) (hp : fs.resolve path = some p) (hp' : fs.resolve path' = some p') :
    p' = p := by
  obtain ⟨-, -, front, name, base, target, -, -, -, rfl⟩ := id h
  obtain ⟨links, heq⟩ := h.resolve_eq
  obtain ⟨links', heq'⟩ := h'.resolve_eq
  exact FileSystem.place_unique (heq ▸ hp) (heq' ▸ hp')

end LooseLink

theorem effectivePath_of_reached {links : Nat} (hpath : path ≠ [])
    (h : fs.visit (sysComponents path) = .reached links base) : effectivePath fs path = .ok base := by
  have hne : sysComponents path ≠ [] := by
    intro hnil
    exact hpath (UnixPath.eq_nil_of_components (append_eq_nil_iff.1 hnil).1)
  rw [effectivePath, nearestExistingAncestor, FileSystem.canonicalize_eq_some.2 ⟨hne, links, h⟩]
  dsimp only
  rw [appendUnresolvedTail_eq (append_nil _).symm]
  exact congrArg Except.ok (append_nil base)

theorem containedUnder_iff : containedUnder fs root candidate = true ↔
    ∃ r c, effectivePath fs root = .ok r ∧ effectivePath fs candidate = .ok c ∧ r <+: c := by
  rw [containedUnder]
  cases effectivePath fs root with
  | error => simp
  | ok r =>
    cases effectivePath fs candidate with
    | error => simp
    | ok c => simp

/-- Where a path leads no symlink is on the way, and a directory there is found as it is. -/
theorem resolve_spec {place : Location} (h : fs.resolve path = some place) :
    fs.Solid place ∧ (fs.entry place = some .dir → effectivePath fs path = .ok place) := by
  rw [FileSystem.resolve] at h
  split_ifs at h with hpath
  obtain ⟨hsolid, hdir⟩ := FileSystem.Walk.Sound.place (FileSystem.sound_walk fs.cwd_dir) h
  refine ⟨hsolid, fun hentry => ?_⟩
  obtain ⟨links, hreached⟩ := hdir hentry
  exact effectivePath_of_reached hpath hreached

/-- Containment is sound for a root and a candidate exactly if a symlink at or below the root that the
candidate names with a loose end behind it leads to a place at or below the root. -/
theorem soundFor_iff (fs : FileSystem) (root candidate : Text) : SoundFor fs root candidate ↔
      ∀ link place rootPlace, LooseLink fs candidate link → fs.resolve candidate = some place →
        fs.resolve root = some rootPlace → rootPlace <+: link → rootPlace <+: place := by
  constructor
  · intro hsound link place rootPlace hlink hplace hroot hbelow
    obtain ⟨hsolid, hfound⟩ := resolve_spec hroot
    -- the root is not the link itself, and what is in front of the link are directories
    have hne : rootPlace ≠ link := by
      rintro rfl
      obtain ⟨target, hentry⟩ := hlink.entry_eq
      exact hsolid _ target (List.prefix_refl _) hentry
    have hcontained := containedUnder_iff.2
      ⟨rootPlace, link, hfound (hlink.dir_of_below hbelow hne), hlink.effectivePath_eq, hbelow⟩
    exact hsound hcontained place rootPlace hplace hroot
  · intro hlinks hcontained place rootPlace hplace hroot
    obtain ⟨r, c, hr, hc, hbelow⟩ := containedUnder_iff.1 hcontained
    obtain hc | hc := effectivePath_cases hc
    · obtain rfl := Option.some.inj (hplace.symm.trans hc)
      obtain hr | hr := effectivePath_cases hr
      · obtain rfl := Option.some.inj (hroot.symm.trans hr)
        exact hbelow
      · obtain ⟨target, hentry⟩ := hr.entry_eq
        exact absurd hentry ((resolve_spec hplace).1 r target hbelow)
    · obtain hr | hr := effectivePath_cases hr
      · obtain rfl := Option.some.inj (hroot.symm.trans hr)
        exact hlinks c place rootPlace hc hplace hroot hbelow
      · -- both end loosely behind a link, so it is the same one
        obtain ⟨target, hentry⟩ := hr.entry_eq
        obtain rfl : r = c := by
          by_contra hne
          cases hentry.symm.trans (hc.dir_of_below hbelow hne)
        rw [hr.resolve_unique hc hroot hplace]

/-! ## A slash behind a dangling link -/

/-- The directories `/r` and `/out`, and a link `/r/l` to `/out/new`, where nothing is. -/
def danglingEntry (loc : Location) : Option Entry :=
  if loc = [] ∨ loc = [['r']] ∨ loc = [['o', 'u', 't']] then some .dir
  else if loc = [['r'], ['l']] then some (.symlink "/out/new".toList)
  else none

theorem danglingEntry_parent (loc : Location) (name : Text) (h : danglingEntry (loc ++ [name]) ≠ none) :
    danglingEntry loc = some .dir := by
  have hconcat : ∀ front last, loc ++ [name] = front ++ [last] → loc = front := fun front last heq =>
    (append_inj' heq rfl).1
  rw [danglingEntry] at h
  split_ifs at h with hdir hlink
  · obtain hnil | hr | hout := hdir
    · simp at hnil
    · rw [hconcat [] _ hr]
      rfl
    · rw [hconcat [] _ hout]
      rfl
  · rw [hconcat [['r']] _ hlink]
    rfl
  · exact absurd rfl h

def danglingLink : FileSystem where
  entry := danglingEntry
  parent_dir := danglingEntry_parent
  root_dir := rfl
  cwd := []
  cwd_dir := rfl
  maxLinks := 40

/-- The link is below the root `/r`, and leads out of it. -/
theorem slash_hides_dangling_link : containedUnder danglingLink "/r".toList "/r/l/".toList = true ∧
      danglingLink.resolve "/r/l/".toList = some [['o', 'u', 't'], ['n', 'e', 'w']] ∧
      danglingLink.resolve "/r".toList = some [['r']] ∧
      ¬SoundFor danglingLink "/r".toList "/r/l/".toList := by
  have hvisit : danglingLink.visit (sysComponents "/r".toList) = .reached 40 [['r']] := by
    rw [show sysComponents "/r".toList = [.rootDir, .normal ['r']] by decide]
    simp [FileSystem.visit, FileSystem.walk, danglingLink, danglingEntry]
  have hstuck : danglingLink.visit (sysComponents "/r/l/".toList) =
      .stuck [['o', 'u', 't']] [.normal ['n', 'e', 'w'], .curDir] := by
    rw [show sysComponents "/r/l/".toList = [.rootDir, .normal ['r'], .normal ['l'], .curDir] by decide]
    have htarget : sysComponents ['/', 'o', 'u', 't', '/', 'n', 'e', 'w'] = [.rootDir, .normal ['o', 'u', 't'],
      .normal ['n', 'e', 'w']] := by decide
    simp [FileSystem.visit, FileSystem.walk, danglingLink, danglingEntry, htarget]
  have hlink : LooseLink danglingLink "/r/l/".toList [['r'], ['l']] := by
    refine ⟨by decide, ?_, [.rootDir, .normal ['r']], ['l'], [['r']], "/out/new".toList, by decide,
      ?_, rfl, rfl⟩
    · rw [FileSystem.canonicalize, hstuck]
      rfl
    · refine FileSystem.canonicalize_eq_some.2 ⟨by simp, 40, ?_⟩
      rw [← hvisit]
      congr 1
  have hresolve : danglingLink.resolve "/r/l/".toList = some [['o', 'u', 't'], ['n', 'e', 'w']] := by
    rw [FileSystem.resolve, hstuck]
    rfl
  have hroot : danglingLink.resolve "/r".toList = some [['r']] := by
    rw [FileSystem.resolve, hvisit]
    rfl
  have hcontained : containedUnder danglingLink "/r".toList "/r/l/".toList = true :=
    containedUnder_iff.2 ⟨_, _, effectivePath_of_reached (by decide) hvisit, hlink.effectivePath_eq,
      by decide⟩
  refine ⟨hcontained, hresolve, hroot, fun hsound => ?_⟩
  exact absurd (hsound hcontained _ _ hresolve hroot) (by decide)

end FlyCockpit.Host
