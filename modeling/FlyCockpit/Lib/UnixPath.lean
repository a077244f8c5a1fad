-- SUMMARY: Unix paths as texts: their components, joining, and the spelling of a list of components.
import FlyCockpit.Lib.Lines
import FlyCockpit.Lib.Text

/-!
# Unix paths

A path is a text, and two texts are the same path if they have the same components: repeated and
trailing slashes do not count, nor do `.` segments other than a leading one. A path buffer that grows
by single components is kept as the list of them; `spelling` is the text it stands for.
-/

namespace UnixPath

open List

inductive Component
  | rootDir
  | curDir
  | parentDir
  | normal (name : Text)
  deriving DecidableEq, Repr

namespace Component

def asStr : Component → Text
  | rootDir => ['/']
  | curDir => ['.']
  | parentDir => ['.', '.']
  | normal name => name

/-- What a segment between slashes counts as. -/
def ofSegment (segment : Text) : Option Component :=
  if segment = [] ∨ segment = ['.'] then none
  else if segment = ['.', '.'] then some parentDir
  else some (normal segment)

/-- A component that is one segment. -/
def Plain (c : Component) : Prop := '/' ∉ c.asStr ∧ ofSegment c.asStr = some c

end Component

open Component

def hasRoot (path : Text) : Bool := path.head? = some '/'

def segments (path : Text) : List Text := path.splitOnP (· == '/')

/-- The components of the segments. -/
def named (path : Text) : List Component := (segments path).filterMap ofSegment

def components (path : Text) : List Component :=
  if hasRoot path then .rootDir :: named path
  else if (segments path).head? = some ['.'] then .curDir :: named path
  else named path

/-- The path from `base`; one with a root stands for itself. -/
def join (base path : Text) : Text :=
  if hasRoot path then path
  else if base = [] ∨ base.getLast? = some '/' then base ++ path
  else base ++ '/' :: path

def spelling (buffer : List Component) : Text := buffer.foldl (fun out c => join out c.asStr) []

/-- The buffer without its last component; the root and the empty buffer have no parent. -/
def pop? (buffer : List Component) : Option (List Component) :=
  match buffer.getLast? with
  | none | some .rootDir => none
  | some _ => some buffer.dropLast

/-! ## Components of joined texts -/

theorem named_append (t u : Text) : named (t ++ '/' :: u) = named t ++ named u := by
  unfold named segments
  rw [splitOnP_append_cons _ _ (by rfl), filterMap_append]

theorem components_root (u : Text) : components ('/' :: u) = .rootDir :: named u := by
  have hnamed := named_append [] u
  rw [nil_append] at hnamed
  have hroot : hasRoot ('/' :: u) = true := rfl
  rw [components, if_pos hroot, hnamed]
  rfl

variable {t : Text} {c : Component} {buffer : List Component}

theorem components_append (ht : t ≠ []) (u : Text) :
    components (t ++ '/' :: u) = components t ++ named u := by
  obtain ⟨c, t', rfl⟩ := exists_cons_of_ne_nil ht
  have hroot : hasRoot (c :: t' ++ '/' :: u) = hasRoot (c :: t') := rfl
  have hhead : (segments (c :: t' ++ '/' :: u)).head? = (segments (c :: t')).head? := by
    unfold segments
    rw [splitOnP_append_cons _ _ (by rfl), List.head?_append_of_ne_nil _ (splitOnP_ne_nil _ _)]
  unfold components
  rw [hroot, hhead, named_append]
  split_ifs <;> rfl

/-- Only the empty text has no components. -/
theorem eq_nil_of_components (h : components t = []) : t = [] := by
  cases t with
  | nil => rfl
  | cons c t =>
    exfalso
    by_cases hslash : c = '/'
    · rw [hslash, components_root] at h
      cases h
    · -- The first segment is not empty, so it is a component of some kind.
      obtain ⟨p, ps, hsegments⟩ : ∃ p ps, segments (c :: t) = (c :: p) :: ps := by
        obtain ⟨p, ps, hps⟩ := exists_cons_of_ne_nil (splitOnP_ne_nil (· == '/') t)
        refine ⟨p, ps, ?_⟩
        rw [segments, splitOnP_cons_eq_if_modifyHead, if_neg (by simpa using hslash), hps]
        rfl
      by_cases hdot : c :: p = ['.']
      · rw [components, hsegments, hdot] at h
        split_ifs at h
        exact absurd rfl ‹¬List.head? _ = _›
      · have hsome : ∃ d, ofSegment (c :: p) = some d := by
          unfold ofSegment
          rw [if_neg (by simp [hdot])]
          split_ifs
          · exact ⟨_, rfl⟩
          · exact ⟨_, rfl⟩
        obtain ⟨d, hd⟩ := hsome
        have hnamed : named (c :: t) ≠ [] := by
          rw [named, hsegments, filterMap_cons_some hd]
          exact cons_ne_nil _ _
        unfold components at h
        split_ifs at h
        exact hnamed h

theorem asStr_of_ofSegment {segment : Text} (h : ofSegment segment = some c) :
    c.asStr = segment := by
  unfold ofSegment at h
  split_ifs at h with hnone hparent
  · cases h
    exact hparent.symm
  · cases h
    rfl

/-- The components of segments are plain. -/
theorem plain_of_mem_named {path : Text} (h : c ∈ named path) : c.Plain := by
  obtain ⟨segment, hmem, hc⟩ := mem_filterMap.1 h
  have hstr := asStr_of_ofSegment hc
  refine ⟨fun hslash => ?_, by rwa [hstr]⟩
  rw [hstr] at hslash
  exact absurd (Lines.not_newline_of_mem_splitOnP hmem '/' hslash) (by decide)

/-- Beside the plain ones, a path has a leading root or a leading `.`. -/
theorem plain_of_mem_components {path : Text} (h : c ∈ components path) :
    c = .rootDir ∨ c = .curDir ∨ c.Plain := by
  unfold components at h
  split_ifs at h
  · rcases mem_cons.1 h with rfl | h
    · exact .inl rfl
    · exact .inr (.inr (plain_of_mem_named h))
  · rcases mem_cons.1 h with rfl | h
    · exact .inr (.inl rfl)
    · exact .inr (.inr (plain_of_mem_named h))
  · exact .inr (.inr (plain_of_mem_named h))

/-! ## Spellings -/

namespace Component.Plain

variable {c : Component}

theorem segments_asStr (h : c.Plain) : segments c.asStr = [c.asStr] :=
  splitOnP_eq_singleton fun _ hx => beq_false_of_ne fun heq => h.1 (heq ▸ hx)

theorem named_asStr (h : c.Plain) : named c.asStr = [c] := by
  rw [named, h.segments_asStr, filterMap_cons_some h.2]
  rfl

theorem asStr_ne_nil (h : c.Plain) : c.asStr ≠ [] := by
  intro hnil
  have hc := h.2
  rw [hnil] at hc
  cases hc

theorem hasRoot_asStr (h : c.Plain) : hasRoot c.asStr = false := by
  obtain ⟨x, rest, hx⟩ := exists_cons_of_ne_nil h.asStr_ne_nil
  have hne : x ≠ '/' := fun heq => h.1 (by simp [hx, heq])
  simp [hasRoot, hx, hne]

theorem getLast?_asStr (h : c.Plain) (t : Text) : (t ++ c.asStr).getLast? ≠ some '/' := by
  rw [List.getLast?_append_of_ne_nil _ h.asStr_ne_nil]
  exact fun hlast => h.1 (mem_of_getLast? hlast)

theorem components_asStr (h : c.Plain) : UnixPath.components c.asStr = [c] := by
  have hdot : ¬(UnixPath.segments c.asStr).head? = some ['.'] := by
    rw [h.segments_asStr]
    intro heq
    have hc := h.2
    rw [Option.some.inj heq] at hc
    cases hc
  rw [UnixPath.components, h.hasRoot_asStr, if_neg Bool.false_ne_true, if_neg hdot, h.named_asStr]

end Component.Plain

/-- Plain components, behind a root or not. -/
def Formed (buffer : List Component) : Prop :=
  ∃ rest, (buffer = rest ∨ buffer = .rootDir :: rest) ∧ ∀ c ∈ rest, c.Plain

theorem Formed.dropLast (h : Formed buffer) : Formed buffer.dropLast := by
  obtain ⟨rest, rfl | rfl, hplain⟩ := h
  · exact ⟨buffer.dropLast, .inl rfl, fun c hc => hplain c (mem_of_mem_dropLast hc)⟩
  · cases rest with
    | nil => exact ⟨[], .inl rfl, by simp⟩
    | cons c rest =>
      exact ⟨(c :: rest).dropLast, .inr rfl, fun c hc => hplain c (mem_of_mem_dropLast hc)⟩

theorem Formed.append (h : Formed buffer) (hc : c.Plain) : Formed (buffer ++ [c]) := by
  obtain ⟨rest, hbuffer, hplain⟩ := h
  refine ⟨rest ++ [c], ?_, ?_⟩
  · rcases hbuffer with rfl | rfl
    · exact .inl rfl
    · exact .inr rfl
  · intro d hd
    rcases mem_append.1 hd with hd | hd
    · exact hplain d hd
    · exact mem_singleton.1 hd ▸ hc

theorem spelling_append (buffer : List Component) (c : Component) :
    spelling (buffer ++ [c]) = join (spelling buffer) c.asStr := by
  simp [spelling]

/-- Behind a front that is empty or the root, each component is set off by one slash. -/
theorem components_spelling_append {front rest : List Component} (hfront : front = [] ∨ front = [.rootDir])
    (hplain : ∀ c ∈ rest, c.Plain) :
    components (spelling (front ++ rest)) = front ++ rest ∧
      (rest ≠ [] → spelling (front ++ rest) ≠ [] ∧ (spelling (front ++ rest)).getLast? ≠ some '/') := by
  induction rest using List.reverseRecOn with
  | nil =>
    refine ⟨?_, fun h => absurd rfl h⟩
    rcases hfront with rfl | rfl <;> rfl
  | append_singleton rest c ih =>
    have hc := hplain c (by simp)
    obtain ⟨hcomponents, hlast⟩ := ih fun d hd => hplain d (mem_append_left _ hd)
    rw [← append_assoc, spelling_append, join, hc.hasRoot_asStr, if_neg Bool.false_ne_true]
    by_cases hrest : rest = []
    · subst hrest
      have hempty : spelling (front ++ []) = [] ∨ (spelling (front ++ [])).getLast? = some '/' := by
        rcases hfront with rfl | rfl
        · exact .inl rfl
        · exact .inr rfl
      rw [if_pos hempty]
      refine ⟨?_, fun _ => ⟨by simp [hc.asStr_ne_nil], hc.getLast?_asStr _⟩⟩
      rcases hfront with rfl | rfl
      · exact hc.components_asStr
      · exact (components_root c.asStr).trans (by rw [hc.named_asStr]; rfl)
    · obtain ⟨hne, hslash⟩ := hlast hrest
      have hsplit : spelling (front ++ rest) ++ '/' :: c.asStr =
          (spelling (front ++ rest) ++ ['/']) ++ c.asStr := (append_cons ..)
      rw [if_neg (not_or.2 ⟨hne, hslash⟩), components_append hne, hcomponents, hc.named_asStr]
      refine ⟨rfl, fun _ => ⟨by simp, ?_⟩⟩
      rw [hsplit]
      exact hc.getLast?_asStr _

/-- A spelling has the components it was made of. -/
theorem components_spelling (h : Formed buffer) : components (spelling buffer) = buffer := by
  obtain ⟨rest, rfl | rfl, hplain⟩ := h
  · exact (components_spelling_append (.inl rfl) hplain).1
  · exact (components_spelling_append (.inr rfl) hplain).1

/-! ## Parents -/

theorem pop?_of_formed (h : Formed buffer) (hlength : 2 ≤ buffer.length) :
    pop? buffer = some buffer.dropLast := by
  have hne : buffer ≠ [] := fun hnil => by simp [hnil] at hlength
  obtain ⟨c, hc⟩ : ∃ c, buffer.getLast? = some c := ⟨_, List.getLast?_eq_some_getLast hne⟩
  have hroot : c ≠ .rootDir := by
    rintro rfl
    have hnot : ¬Component.rootDir.Plain := fun hplain => absurd hplain.1 (by decide)
    obtain ⟨rest, rfl | rfl, hplain⟩ := h
    · exact hnot (hplain _ (mem_of_getLast? hc))
    · obtain ⟨d, rest, rfl⟩ := exists_cons_of_ne_nil fun hnil : rest = [] => by simp [hnil] at hlength
      rw [List.getLast?_cons_cons] at hc
      exact hnot (hplain _ (mem_of_getLast? hc))
  unfold pop?
  rw [hc]
  cases c with
  | rootDir => exact absurd rfl hroot
  | curDir => rfl
  | parentDir => rfl
  | normal name => rfl

theorem components_append_slash (ht : t ≠ []) : components (t ++ ['/']) = components t := by
  rw [components_append ht]
  exact append_nil _

/-- Some path from the same base goes on one step further up. -/
theorem exists_components_parent (base path : Text) : ∃ path', components (join base path') =
    components (join base path) ++ [.parentDir] := by
  have hparent : named ['.', '.'] = [.parentDir] := by decide
  have hup : ∀ {t : Text}, t ≠ [] → components (t ++ '/' :: ['.', '.']) = components t ++ [.parentDir] :=
    fun ht => by rw [components_append ht, hparent]
  by_cases hpath : path = []
  · subst hpath
    refine ⟨['.', '.'], ?_⟩
    have hroot : ∀ t : Text, t = [] ∨ t = ['.', '.'] → hasRoot t = false := by
      rintro t (rfl | rfl) <;> rfl
    unfold join
    rw [hroot _ (.inl rfl), hroot _ (.inr rfl), if_neg Bool.false_ne_true, if_neg Bool.false_ne_true]
    split_ifs with hbase
    · rcases hbase with rfl | hbase
      · decide
      · obtain ⟨t, rfl⟩ : ∃ t, base = t ++ ['/'] := ⟨base.dropLast, by
          rw [dropLast_append_getLast? _ hbase]⟩
        by_cases ht : t = []
        · subst ht
          decide
        · rw [append_nil, components_append_slash ht, append_assoc]
          exact hup ht
    · have hne : base ≠ [] := fun hnil => hbase (.inl hnil)
      rw [hup hne, components_append_slash hne]
  · refine ⟨path ++ '/' :: ['.', '.'], ?_⟩
    obtain ⟨c, rest, rfl⟩ := exists_cons_of_ne_nil hpath
    have hjoin : join base (c :: rest ++ '/' :: ['.', '.']) = join base (c :: rest) ++ '/' :: ['.', '.'] := by
      have hroot : hasRoot (c :: rest ++ '/' :: ['.', '.']) = hasRoot (c :: rest) := rfl
      unfold join
      rw [hroot]
      split_ifs <;> simp
    have hne : join base (c :: rest) ≠ [] := by
      unfold join
      split_ifs <;> simp
    rw [hjoin, hup hne]

end UnixPath
