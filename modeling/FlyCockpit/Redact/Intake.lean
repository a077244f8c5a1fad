-- SUMMARY: Scrubbing a command's pipe while it is read, chunk by chunk, and when the chunks make no difference.
import FlyCockpit.Lib.Utf8

/-!
# Pipe intake

The intake filter cuts the chunks of a pipe into lines and hands every line to a scanner. A line that
grows over the scan cap is cut there and the rest of it is discarded. The cap is only looked at when
a chunk ends inside a line, so a long line whose end arrives in the same chunk is scanned whole.
-/

namespace FlyCockpit.Redact.Intake

open List

/-! ## Observed secrets -/

structure ObservedSecret where
  value : Bytes
  lengthExempt : Bool
  encodedVariants : Bool
  caseVariants : Bool
  incomplete : Bool
  deriving DecidableEq, Repr

structure ObservedSet where
  items : List ObservedSecret
  bytes : Nat
  incomplete : Bool
  deriving DecidableEq, Repr

def maxPendingFoundBytes : Nat := 1024 * 1024

/-- The memory of one descriptor. -/
def descriptorBytes : Nat := 32

/-- What a value is charged: two copies of it, two descriptors and the index. -/
def charge (secret : ObservedSecret) : Nat := secret.value.length * 2 + (2 * descriptorBytes + 64)

/-- Two observations of one value, each policy as strong as the stronger one. -/
def ObservedSecret.merge (a b : ObservedSecret) : ObservedSecret :=
  { a with
    lengthExempt := a.lengthExempt || b.lengthExempt
    encodedVariants := a.encodedVariants || b.encodedVariants
    caseVariants := a.caseVariants || b.caseVariants }

def ObservedSet.observe (set : ObservedSet) (secret : ObservedSecret) : ObservedSet :=
  if secret.incomplete then { set with incomplete := true }
  else if set.items.any (·.value = secret.value) then
    { set with
      items := set.items.map fun old => if old.value = secret.value then old.merge secret else old }
  else if set.bytes + charge secret > maxPendingFoundBytes then { set with incomplete := true }
  else { set with items := set.items ++ [secret], bytes := set.bytes + charge secret }

def ObservedSet.extend (set : ObservedSet) (found : List ObservedSecret) : ObservedSet :=
  found.foldl ObservedSet.observe set

/-! ## The filter -/

/-- A scanner of lines. A line is answered by its replacement, or dropped. -/
structure Scanner (σ : Type) where
  pushLineWithEnding : σ → Bytes → Bool → Option Bytes × σ
  pushTruncatedLine : σ → Bytes → Option Bytes × σ
  takeFound : σ → List ObservedSecret × σ
  finish : σ → σ

def intakeLineCap : Nat := 256 * 1024

def newline : UInt8 := 10

/-- What is put behind a line that was cut. -/
def truncationNote : Bytes := Utf8.encode " [line truncated: exceeds the scan limit]"

structure NovelScrubIntake (σ : Type) where
  stream : σ
  partialLine : Bytes
  /-- Bytes of a line over the cap are being discarded until its newline. -/
  discarding : Bool
  observed : ObservedSet
  /-- The lines handed to the scanner as whole lines: an observation that nothing reads. -/
  scanned : List Bytes

variable {σ : Type} (scanner : Scanner σ)

/-- A filter that has read nothing. -/
def NovelScrubIntake.fresh (stream : σ) (observed : ObservedSet) : NovelScrubIntake σ :=
  ⟨stream, [], false, observed, []⟩

def NovelScrubIntake.collect (t : NovelScrubIntake σ) : NovelScrubIntake σ :=
  { t with
    stream := (scanner.takeFound t.stream).2
    observed := t.observed.extend (scanner.takeFound t.stream).1 }

/-- What is written for a line, given what the scanner answered. -/
def lineOutput (line : Bytes) (ends truncated : Bool) (scrubbed : Option Bytes) : Bytes :=
  match scrubbed with
  | none => []
  | some scrubbed =>
    (if scrubbed = Utf8.lossy line then line else scrubbed) ++
      (if truncated then truncationNote else []) ++ if ends then [newline] else []

def emitLine (t : NovelScrubIntake σ) (line : Bytes) (ends truncated : Bool) :
    Bytes × NovelScrubIntake σ :=
  let text := Utf8.lossy line
  let (scrubbed, stream) :=
    if truncated then scanner.pushTruncatedLine t.stream text
    else scanner.pushLineWithEnding t.stream text ends
  let scanned := if truncated then t.scanned else t.scanned ++ [line]
  (lineOutput line ends truncated scrubbed, { t with stream, scanned }.collect scanner)

/-- A line whose newline is in the chunk. -/
def endLine (t : NovelScrubIntake σ) (line : Bytes) : Bytes × NovelScrubIntake σ :=
  if t.discarding then ([newline], { t with discarding := false })
  else emitLine scanner { t with partialLine := [] } (t.partialLine ++ line) true false

/-- The rest of a chunk, without a newline. -/
def keepRest (t : NovelScrubIntake σ) (rest : Bytes) : Bytes × NovelScrubIntake σ :=
  if t.discarding then ([], t)
  else
    let whole := t.partialLine ++ rest
    if whole.length > intakeLineCap then
      let (out, t) := emitLine scanner { t with partialLine := [] } (whole.take intakeLineCap) false true
      (out, { t with discarding := true })
    else ([], { t with partialLine := whole })

/-- The lines of a chunk; all but the last have their newline in the chunk. -/
def filterLines (t : NovelScrubIntake σ) : List Bytes → Bytes × NovelScrubIntake σ
  | [] => ([], t)
  | [rest] => if rest = [] then ([], t) else keepRest scanner t rest
  | line :: more =>
    let (out, t) := endLine scanner t line
    let (behind, t) := filterLines t more
    (out ++ behind, t)

def filter (t : NovelScrubIntake σ) (chunk : Bytes) : Bytes × NovelScrubIntake σ :=
  filterLines scanner t (chunk.splitOnP (· = newline))

def finish (t : NovelScrubIntake σ) : Bytes × NovelScrubIntake σ :=
  let (out, t) :=
    if !t.discarding ∧ t.partialLine ≠ [] then
      emitLine scanner { t with partialLine := [] } t.partialLine false false
    else ([], t)
  (out, { t with stream := scanner.finish t.stream }.collect scanner)

/-- The filter over the chunks of a stream. -/
def filterAll (t : NovelScrubIntake σ) : List Bytes → Bytes × NovelScrubIntake σ
  | [] => ([], t)
  | chunk :: chunks =>
    let (out, t) := filter scanner t chunk
    let (behind, t) := filterAll t chunks
    (out ++ behind, t)

/-- The whole intake of a stream that arrives in these chunks. -/
def intake (t : NovelScrubIntake σ) (chunks : List Bytes) : Bytes × NovelScrubIntake σ :=
  let (out, t) := filterAll scanner t chunks
  let (behind, t) := finish scanner t
  (out ++ behind, t)

/-! ## Byte by byte -/

/-- One byte as a chunk of its own. -/
def feedByte (t : NovelScrubIntake σ) (b : UInt8) : Bytes × NovelScrubIntake σ :=
  if b = newline then endLine scanner t [] else keepRest scanner t [b]

/-- The filter that reads single bytes. -/
def feed (t : NovelScrubIntake σ) : Bytes → Bytes × NovelScrubIntake σ
  | [] => ([], t)
  | b :: bytes =>
    ((feedByte scanner t b).1 ++ (feed (feedByte scanner t b).2 bytes).1,
      (feed (feedByte scanner t b).2 bytes).2)

/-- How long the open line is behind these bytes. -/
def openLength (n : Nat) : Bytes → Nat
  | [] => n
  | b :: bytes => if b = newline then openLength 0 bytes else openLength (n + 1) bytes

/-- No line that ends in these bytes is longer than the cap, the open line being `n` long before. -/
def Within (n : Nat) : Bytes → Prop
  | [] => True
  | b :: bytes => if b = newline then n ≤ intakeLineCap ∧ Within 0 bytes else Within (n + 1) bytes

/-- What the filter keeps of an open line of length `n`. -/
def Tracks (t : NovelScrubIntake σ) (n : Nat) : Prop :=
  if t.discarding then t.partialLine = [] ∧ intakeLineCap < n
  else t.partialLine.length = n ∧ n ≤ intakeLineCap

variable {scanner} {t : NovelScrubIntake σ} {n : Nat} {chunk bytes : Bytes}

theorem feed_append (u v : Bytes) : feed scanner t (u ++ v) =
    ((feed scanner t u).1 ++ (feed scanner (feed scanner t u).2 v).1,
      (feed scanner (feed scanner t u).2 v).2) := by
  induction u generalizing t with
  | nil => rfl
  | cons b u ih => rw [cons_append, feed, ih, feed, append_assoc]

theorem within_append (u v : Bytes) : Within n (u ++ v) ↔ Within n u ∧ Within (openLength n u) v := by
  induction u generalizing n with
  | nil => simp [Within, openLength]
  | cons b u ih =>
    rw [cons_append, Within, Within, openLength]
    split_ifs
    · rw [ih, and_assoc]
    · exact ih

@[simp] theorem emitLine_discarding (line : Bytes) (ends truncated : Bool) :
    (emitLine scanner t line ends truncated).2.discarding = t.discarding := rfl

@[simp] theorem emitLine_partialLine (line : Bytes) (ends truncated : Bool) :
    (emitLine scanner t line ends truncated).2.partialLine = t.partialLine := rfl

theorem keepRest_of_discarding (h : t.discarding = true) (rest : Bytes) :
    keepRest scanner t rest = ([], t) := by
  rw [keepRest, if_pos h]

theorem keepRest_of_short (h : t.discarding = false) {rest : Bytes}
    (hshort : (t.partialLine ++ rest).length ≤ intakeLineCap) :
    keepRest scanner t rest = ([], { t with partialLine := t.partialLine ++ rest }) := by
  rw [keepRest, if_neg (by simp [h])]
  exact if_neg (Nat.not_lt.2 hshort)

theorem keepRest_of_long (h : t.discarding = false) {rest : Bytes}
    (hlong : intakeLineCap < (t.partialLine ++ rest).length) :
    keepRest scanner t rest =
      ((emitLine scanner { t with partialLine := [] } ((t.partialLine ++ rest).take intakeLineCap)
          false true).1,
        { (emitLine scanner { t with partialLine := [] } ((t.partialLine ++ rest).take intakeLineCap)
          false true).2 with discarding := true }) := by
  rw [keepRest, if_neg (by simp [h])]
  exact if_pos hlong

/-- Keeping a rest in two pieces. -/
theorem keepRest_append (u v : Bytes) : keepRest scanner t (u ++ v) =
    ((keepRest scanner t u).1 ++ (keepRest scanner (keepRest scanner t u).2 v).1,
      (keepRest scanner (keepRest scanner t u).2 v).2) := by
  cases hdiscarding : t.discarding with
  | true => simp only [keepRest_of_discarding hdiscarding, nil_append]
  | false =>
    obtain hlong | hshort := Nat.lt_or_ge intakeLineCap (t.partialLine ++ u).length
    · -- the cut lies in the first piece, and the second one is discarded
      have hlonger : intakeLineCap < (t.partialLine ++ (u ++ v)).length := by
        rw [← append_assoc, length_append]
        omega
      have htake : (t.partialLine ++ (u ++ v)).take intakeLineCap =
          (t.partialLine ++ u).take intakeLineCap := by
        rw [← append_assoc, take_append_of_le_length (Nat.le_of_lt hlong)]
      rw [keepRest_of_long hdiscarding hlong, keepRest_of_long hdiscarding hlonger, htake,
        keepRest_of_discarding rfl, append_nil]
    · rw [keepRest_of_short hdiscarding hshort]
      cases hv : decide (intakeLineCap < (t.partialLine ++ u ++ v).length) with
      | true =>
        have hlong := of_decide_eq_true hv
        rw [@keepRest_of_long _ _ { t with partialLine := t.partialLine ++ u } hdiscarding v hlong,
          keepRest_of_long hdiscarding (by rw [← append_assoc]; exact hlong), append_assoc]
        rfl
      | false =>
        have hshort := Nat.le_of_not_lt (of_decide_eq_false hv)
        rw [@keepRest_of_short _ _ { t with partialLine := t.partialLine ++ u } hdiscarding v hshort,
          keepRest_of_short hdiscarding (by rw [← append_assoc]; exact hshort), append_assoc]
        rfl

theorem Tracks.cases (h : Tracks t n) :
    (t.discarding = true ∧ t.partialLine = [] ∧ intakeLineCap < n) ∨
      (t.discarding = false ∧ t.partialLine.length = n ∧ n ≤ intakeLineCap) := by
  unfold Tracks at h
  split_ifs at h with hdiscarding
  · exact .inl ⟨hdiscarding, h⟩
  · exact .inr ⟨by simpa using hdiscarding, h⟩

theorem Tracks.endLine (h : Tracks t n) (line : Bytes) : Tracks (endLine scanner t line).2 0 := by
  unfold Intake.endLine
  obtain ⟨hdiscarding, hempty, -⟩ | ⟨hdiscarding, -, -⟩ := h.cases
  · rw [if_pos hdiscarding]
    exact ⟨by rw [hempty]; rfl, Nat.zero_le _⟩
  · rw [if_neg (by simp [hdiscarding]), Tracks, emitLine_discarding, emitLine_partialLine]
    rw [if_neg (by simp [hdiscarding])]
    exact ⟨rfl, Nat.zero_le _⟩

theorem Tracks.keepRest (h : Tracks t n) (rest : Bytes) :
    Tracks (keepRest scanner t rest).2 (n + rest.length) := by
  obtain ⟨hdiscarding, hempty, hlong⟩ | ⟨hdiscarding, hlength, -⟩ := h.cases
  · rw [keepRest_of_discarding hdiscarding, Tracks, if_pos hdiscarding]
    exact ⟨hempty, by omega⟩
  · have hwhole : (t.partialLine ++ rest).length = n + rest.length := by
      rw [length_append, hlength]
    obtain hlong | hshort := Nat.lt_or_ge intakeLineCap (t.partialLine ++ rest).length
    · rw [keepRest_of_long hdiscarding hlong, Tracks, if_pos rfl]
      exact ⟨rfl, hwhole ▸ hlong⟩
    · rw [keepRest_of_short hdiscarding hshort, Tracks, if_neg (by simp [hdiscarding])]
      exact ⟨hwhole, hwhole ▸ hshort⟩

/-- A line that ends in a later piece. -/
theorem endLine_append (h : Tracks t n) {u v : Bytes} (hcap : n + (u ++ v).length ≤ intakeLineCap) :
    endLine scanner t (u ++ v) =
      ((keepRest scanner t u).1 ++ (endLine scanner (keepRest scanner t u).2 v).1,
        (endLine scanner (keepRest scanner t u).2 v).2) := by
  rw [length_append] at hcap
  obtain ⟨-, -, hlong⟩ | ⟨hdiscarding, hlength, -⟩ := h.cases
  · omega
  · have hshort : (t.partialLine ++ u).length ≤ intakeLineCap := by
      rw [length_append]
      omega
    rw [keepRest_of_short hdiscarding hshort]
    simp only [endLine, hdiscarding, Bool.false_eq_true, if_false, nil_append, append_assoc]

/-! ## Chunks -/

/-- The lines of a chunk that begins with this byte. -/
theorem splitOnP_newline_cons (b : UInt8) (bytes : Bytes) : (b :: bytes).splitOnP (· = newline) =
    if b = newline then [] :: bytes.splitOnP (· = newline)
    else (bytes.splitOnP (· = newline)).modifyHead (b :: ·) := by
  rw [splitOnP_cons_eq_if_modifyHead]
  simp only [decide_eq_true_eq]

/-- The first line of a chunk that has a newline. -/
theorem Within.first {line next : Bytes} {more : List Bytes} (h : Within n chunk)
    (hsplit : chunk.splitOnP (· = newline) = line :: next :: more) : n + line.length ≤ intakeLineCap := by
  induction chunk generalizing n line next more with
  | nil => cases hsplit
  | cons b chunk ih =>
    rw [splitOnP_newline_cons] at hsplit
    rw [Within] at h
    split_ifs at h hsplit
    · obtain rfl := (List.cons.inj hsplit).1
      exact h.1
    · cases hchunk : chunk.splitOnP (· = newline) with
      | nil => exact absurd hchunk (splitOnP_ne_nil _ _)
      | cons line' more' =>
        rw [hchunk, modifyHead_cons] at hsplit
        cases hsplit
        have := ih h hchunk
        rw [length_cons]
        omega

theorem filterLines_singleton (rest : Bytes) : filterLines scanner t [rest] =
    if rest = [] then ([], t) else keepRest scanner t rest := rfl

theorem filterLines_cons (line next : Bytes) (more : List Bytes) :
    filterLines scanner t (line :: next :: more) =
      ((endLine scanner t line).1 ++ (filterLines scanner (endLine scanner t line).2 (next :: more)).1,
        (filterLines scanner (endLine scanner t line).2 (next :: more)).2) := rfl

/-- A chunk whose lines are not too long is filtered like its single bytes. -/
theorem filter_eq_feed (htracks : Tracks t n) (h : Within n chunk) :
    filter scanner t chunk = feed scanner t chunk := by
  induction chunk generalizing t n with
  | nil => rfl
  | cons b chunk ih =>
    have hfirst := h
    rw [Within] at h
    rw [filter, splitOnP_newline_cons, feed, feedByte]
    cases hchunk : chunk.splitOnP (· = newline) with
    | nil => exact absurd hchunk (splitOnP_ne_nil _ _)
    | cons line more =>
      split_ifs at h ⊢ with hb
      · have htracks' : Tracks (endLine scanner t []).2 0 := htracks.endLine []
        have hrest := ih htracks' h.2
        rw [filter, hchunk] at hrest
        rw [filterLines_cons, ← hrest]
      · have htracks' : Tracks (keepRest scanner t [b]).2 (n + 1) := htracks.keepRest [b]
        have hrest := ih htracks' h
        rw [filter, hchunk] at hrest
        rw [← hrest, modifyHead_cons]
        cases more with
        | nil =>
          have happend := @keepRest_append _ scanner t [b] line
          rw [filterLines_singleton, filterLines_singleton, if_neg (cons_ne_nil _ _)]
          split_ifs with hline
          · rw [hline, append_nil]
          · exact happend
        | cons next more =>
          have hcap : n + ([b] ++ line).length ≤ intakeLineCap := by
            have hsplit : (b :: chunk).splitOnP (· = newline) = (b :: line) :: next :: more := by
              rw [splitOnP_newline_cons, if_neg hb, hchunk]
              rfl
            exact hfirst.first hsplit
          have happend := @endLine_append _ scanner t n htracks [b] line hcap
          rw [filterLines_cons, filterLines_cons]
          rw [singleton_append] at happend
          rw [happend, append_assoc]

theorem Tracks.feed (h : Tracks t n) (bytes : Bytes) :
    Tracks (feed scanner t bytes).2 (openLength n bytes) := by
  induction bytes generalizing t n with
  | nil => exact h
  | cons b bytes ih =>
    rw [Intake.feed, openLength]
    have hbyte : Tracks (feedByte scanner t b).2 (if b = newline then 0 else n + 1) := by
      unfold feedByte
      split_ifs
      · exact h.endLine []
      · exact h.keepRest [b]
    split_ifs at hbyte ⊢ <;> exact ih hbyte

theorem filterAll_cons (chunk : Bytes) (chunks : List Bytes) : filterAll scanner t (chunk :: chunks) =
    ((filter scanner t chunk).1 ++ (filterAll scanner (filter scanner t chunk).2 chunks).1,
      (filterAll scanner (filter scanner t chunk).2 chunks).2) := rfl

/-- The filter over all chunks is the filter over all bytes. -/
theorem filterAll_eq_feed {chunks : List Bytes} (htracks : Tracks t n) (h : Within n chunks.flatten) :
    filterAll scanner t chunks = feed scanner t chunks.flatten := by
  induction chunks generalizing t n with
  | nil => rfl
  | cons chunk chunks ih =>
    rw [flatten_cons, within_append] at h
    have hrest := @ih (feed scanner t chunk).2 _ (htracks.feed chunk) h.2
    rw [filterAll_cons, filter_eq_feed htracks h.1, hrest, flatten_cons, feed_append]

/-! ## What is scanned -/

/-- No line over the cap was scanned whole. -/
def Short (t : NovelScrubIntake σ) : Prop := ∀ line ∈ t.scanned, line.length ≤ intakeLineCap

theorem keepRest_scanned (rest : Bytes) : (keepRest scanner t rest).2.scanned = t.scanned := by
  cases hdiscarding : t.discarding with
  | true => rw [keepRest_of_discarding hdiscarding]
  | false =>
    obtain hlong | hshort := Nat.lt_or_ge intakeLineCap (t.partialLine ++ rest).length
    · rw [keepRest_of_long hdiscarding hlong]
      rfl
    · rw [keepRest_of_short hdiscarding hshort]

theorem endLine_scanned (line : Bytes) : (endLine scanner t line).2.scanned =
    if t.discarding then t.scanned else t.scanned ++ [t.partialLine ++ line] := by
  unfold endLine
  split_ifs <;> rfl

theorem finish_scanned : (finish scanner t).2.scanned =
    if !t.discarding ∧ t.partialLine ≠ [] then t.scanned ++ [t.partialLine] else t.scanned := by
  unfold finish
  split_ifs <;> rfl

theorem Short.concat (h : Short t) {line : Bytes} (hline : line.length ≤ intakeLineCap) :
    ∀ line' ∈ t.scanned ++ [line], line'.length ≤ intakeLineCap := by
  intro line' hmem
  obtain hmem | hmem := mem_append.1 hmem
  · exact h line' hmem
  · rw [mem_singleton.1 hmem]
    exact hline

theorem Short.feedByte (h : Short t) (htracks : Tracks t n) (b : UInt8) :
    Short (feedByte scanner t b).2 := by
  unfold Short Intake.feedByte
  split_ifs
  · rw [endLine_scanned, append_nil]
    obtain ⟨hdiscarding, -, -⟩ | ⟨hdiscarding, hlength, hcap⟩ := htracks.cases
    · rw [if_pos hdiscarding]
      exact h
    · rw [if_neg (by simp [hdiscarding])]
      exact h.concat (hlength ▸ hcap)
  · rw [keepRest_scanned]
    exact h

theorem Short.feed (h : Short t) (htracks : Tracks t n) (bytes : Bytes) :
    Short (feed scanner t bytes).2 := by
  induction bytes generalizing t n with
  | nil => exact h
  | cons b bytes ih => exact ih (h.feedByte htracks b) (htracks.feed [b])

theorem Short.finish (h : Short t) (htracks : Tracks t n) : Short (finish scanner t).2 := by
  unfold Short
  rw [finish_scanned]
  split_ifs with hrest
  · obtain ⟨hdiscarding, -, -⟩ | ⟨-, hlength, hcap⟩ := htracks.cases
    · simp [hdiscarding] at hrest
    · exact h.concat (hlength ▸ hcap)
  · exact h

theorem finish_scanned_subset : t.scanned ⊆ (finish scanner t).2.scanned := by
  rw [finish_scanned]
  split_ifs
  · exact subset_append_left _ _
  · exact List.Subset.refl _

theorem endLine_scanned_subset (line : Bytes) : t.scanned ⊆ (endLine scanner t line).2.scanned := by
  rw [endLine_scanned]
  split_ifs
  · exact List.Subset.refl _
  · exact subset_append_left _ _

theorem filterLines_scanned_subset (lines : List Bytes) :
    t.scanned ⊆ (filterLines scanner t lines).2.scanned := by
  induction lines generalizing t with
  | nil => exact List.Subset.refl _
  | cons line more ih =>
    cases more with
    | nil =>
      rw [filterLines_singleton]
      split_ifs
      · exact List.Subset.refl _
      · rw [keepRest_scanned]
        exact List.Subset.refl _
    | cons next more =>
      rw [filterLines_cons]
      exact List.Subset.trans (endLine_scanned_subset line) ih

/-- Every line that ends in a chunk is scanned whole. -/
theorem mem_scanned_filterLines {lines : List Bytes} (h : t.discarding = false) (hempty : t.partialLine = [])
    {line : Bytes} (hline : line ∈ lines.dropLast) : line ∈ (filterLines scanner t lines).2.scanned := by
  induction lines generalizing t with
  | nil => cases hline
  | cons first more ih =>
    cases more with
    | nil => cases hline
    | cons next more =>
      rw [filterLines_cons]
      rw [dropLast_cons_cons] at hline
      obtain rfl | hline := mem_cons.1 hline
      · refine filterLines_scanned_subset _ ?_
        rw [endLine_scanned, hempty]
        simp [h]
      · have hnext : (endLine scanner t first).2.discarding = false ∧
            (endLine scanner t first).2.partialLine = [] := by
          rw [endLine, if_neg (by simp [h])]
          exact ⟨h, rfl⟩
        exact ih hnext.1 hnext.2 hline

/-! ## Chunking -/

/-- The lines of a stream that end with a newline. -/
def terminatedLines (stream : Bytes) : List Bytes := (stream.splitOnP (· = newline)).dropLast

theorem within_iff (stream : Bytes) : Within n stream ↔
    ∀ k ∈ (((stream.splitOnP (· = newline)).map List.length).modifyHead (n + ·)).dropLast,
      k ≤ intakeLineCap := by
  induction stream generalizing n with
  | nil => simp [Within]
  | cons b stream ih =>
    rw [Within, splitOnP_newline_cons]
    cases hsplit : stream.splitOnP (· = newline) with
    | nil => exact absurd hsplit (splitOnP_ne_nil _ _)
    | cons line more =>
      rw [hsplit] at ih
      split_ifs
      · rw [ih]
        simp
      · rw [ih]
        simp [Nat.add_comm, Nat.add_left_comm]

theorem within_zero_iff (stream : Bytes) :
    Within 0 stream ↔ ∀ line ∈ terminatedLines stream, line.length ≤ intakeLineCap := by
  have hmap : ∀ l : List Nat, l.modifyHead (0 + ·) = l := by
    intro l
    cases l <;> simp
  rw [within_iff, hmap, ← map_dropLast, forall_mem_map]
  rfl

/-- The output and the observed secrets do not depend on the chunks, and no line over the cap is
    scanned whole. -/
def ChunkingIndependent (scanner : Scanner σ) (t : NovelScrubIntake σ) (stream : Bytes) : Prop :=
  (∀ chunks chunks' : List Bytes, chunks.flatten = stream → chunks'.flatten = stream →
    (intake scanner t chunks).1 = (intake scanner t chunks').1 ∧
      (intake scanner t chunks).2.observed = (intake scanner t chunks').2.observed) ∧
  ∀ chunks : List Bytes, chunks.flatten = stream →
    ∀ line ∈ (intake scanner t chunks).2.scanned, line.length ≤ intakeLineCap

theorem tracks_fresh (stream : σ) (observed : ObservedSet) :
    Tracks (NovelScrubIntake.fresh stream observed) 0 :=
  ⟨rfl, Nat.zero_le _⟩

/-- In one chunk, every line that ends is scanned whole. -/
theorem mem_scanned_intake (stream : σ) (observed : ObservedSet) {line : Bytes}
    (h : line ∈ terminatedLines bytes) :
    line ∈ (intake scanner (.fresh stream observed) [bytes]).2.scanned :=
  finish_scanned_subset (@mem_scanned_filterLines _ scanner (.fresh stream observed) _ rfl rfl line h)

/-- The chunks of a stream make no difference just when no line that ends in it is longer than the
    cap. -/
theorem chunkingIndependent_iff (scanner : Scanner σ) (start : σ) (observed : ObservedSet)
    (stream : Bytes) :
    ChunkingIndependent scanner (.fresh start observed) stream ↔
      ∀ line ∈ terminatedLines stream, line.length ≤ intakeLineCap := by
  constructor
  · rintro ⟨-, hshort⟩ line hline
    exact hshort [stream] (by simp) line (mem_scanned_intake start observed hline)
  · intro hlines
    have hwithin := (within_zero_iff stream).2 hlines
    have hfeed : ∀ chunks : List Bytes, chunks.flatten = stream →
        filterAll scanner (.fresh start observed) chunks = feed scanner (.fresh start observed) stream := by
      rintro chunks rfl
      exact filterAll_eq_feed (tracks_fresh start observed) hwithin
    constructor
    · intro chunks chunks' hchunks hchunks'
      simp only [intake, hfeed chunks hchunks, hfeed chunks' hchunks', and_self]
    · intro chunks hchunks
      have htracks := @Tracks.feed _ scanner _ _ (tracks_fresh start observed) stream
      have hshort : Short (feed scanner (.fresh start observed) stream).2 :=
        @Short.feed _ _ (.fresh start observed) 0 (fun line hline => by cases hline)
          (tracks_fresh start observed) stream
      simp only [intake, hfeed chunks hchunks]
      exact hshort.finish htracks

/-! ## A long line -/

/-- A scanner that finds nothing. -/
def quietScanner : Scanner Unit where
  pushLineWithEnding s text _ := (some text, s)
  pushTruncatedLine s text := (some text, s)
  takeFound s := ([], s)
  finish s := s

/-- A line one byte over the cap. -/
def longLine : Bytes := List.replicate (intakeLineCap + 1) 97

def quietIntake : NovelScrubIntake Unit := .fresh () ⟨[], 0, false⟩

theorem length_longLine : longLine.length = intakeLineCap + 1 := length_replicate

theorem longLine_not_newline : ∀ b ∈ longLine, decide (b = newline) = false := by
  intro b hb
  rw [eq_of_mem_replicate hb]
  rfl

theorem emitLine_quiet (t : NovelScrubIntake Unit) (line : Bytes) (ends truncated : Bool) :
    (emitLine quietScanner t line ends truncated).1 =
      line ++ (if truncated then truncationNote else []) ++ if ends then [newline] else [] := by
  cases truncated <;> simp [emitLine, quietScanner, lineOutput]

/-- A line that comes with its newline is written as it is. -/
theorem intake_line {line : Bytes}
    (hsplit : (line ++ [newline]).splitOnP (· = newline) = [line, []]) :
    (intake quietScanner quietIntake [line ++ [newline]]).1 = line ++ [newline] := by
  have hout : (filter quietScanner quietIntake (line ++ [newline])).1 = line ++ [newline] := by
    rw [filter, hsplit, filterLines_cons, filterLines_singleton, if_pos rfl, endLine, if_neg (by decide),
      emitLine_quiet]
    simp [quietIntake, NovelScrubIntake.fresh]
  have hrest : (finish quietScanner (filter quietScanner quietIntake (line ++ [newline])).2).1 = [] := by
    rw [filter, hsplit, filterLines_cons, filterLines_singleton, if_pos rfl, endLine, if_neg (by decide),
      finish, if_neg (by simp)]
  calc (intake quietScanner quietIntake [line ++ [newline]]).1
      = (filter quietScanner quietIntake (line ++ [newline])).1 ++ [] ++
          (finish quietScanner (filter quietScanner quietIntake (line ++ [newline])).2).1 := rfl
    _ = line ++ [newline] := by rw [hout, hrest, append_nil, append_nil]

/-- A line over the cap whose newline comes later is cut. -/
theorem intake_cut {line : Bytes} (hsplit : line.splitOnP (· = newline) = [line]) (hne : line ≠ [])
    (hlong : intakeLineCap < line.length) :
    (intake quietScanner quietIntake [line, [newline]]).1 =
      line.take intakeLineCap ++ truncationNote ++ [newline] := by
  have hkeep := @keepRest_of_long _ quietScanner quietIntake rfl line hlong
  have hfirst : filter quietScanner quietIntake line = keepRest quietScanner quietIntake line := by
    rw [filter, hsplit, filterLines_singleton, if_neg hne]
  have hout : (filter quietScanner quietIntake line).1 = line.take intakeLineCap ++ truncationNote := by
    rw [hfirst, hkeep, emitLine_quiet]
    simp [quietIntake, NovelScrubIntake.fresh]
  have hdiscarding : (filter quietScanner quietIntake line).2.discarding = true := by
    rw [hfirst, hkeep]
  have hempty : (filter quietScanner quietIntake line).2.partialLine = [] := by
    rw [hfirst, hkeep]
    rfl
  have hend : filter quietScanner (filter quietScanner quietIntake line).2 [newline] =
      ([newline], { (filter quietScanner quietIntake line).2 with discarding := false }) := by
    change filterLines quietScanner _ [[], []] = _
    rw [filterLines_cons, filterLines_singleton, if_pos rfl, endLine, if_pos hdiscarding]
    rfl
  have hrest : (finish quietScanner
      { (filter quietScanner quietIntake line).2 with discarding := false }).1 = [] := by
    rw [finish, if_neg (by simp [hempty])]
  calc (intake quietScanner quietIntake [line, [newline]]).1
      = (filter quietScanner quietIntake line).1 ++
          ((filter quietScanner (filter quietScanner quietIntake line).2 [newline]).1 ++ []) ++
          (finish quietScanner (filter quietScanner (filter quietScanner quietIntake line).2 [newline]).2).1 := rfl
    _ = line.take intakeLineCap ++ truncationNote ++ [newline] := by
      rw [hend, hrest, hout, append_nil, append_nil]

theorem mem_scanned_quiet {line : Bytes} (h : line ∈ terminatedLines bytes) :
    line ∈ (intake quietScanner quietIntake [bytes]).2.scanned :=
  mem_scanned_intake () _ h

/-- A line over the cap is scanned whole if its newline comes with it, and cut if it comes later. -/
theorem chunks_matter {line : Bytes} (hline : ∀ b ∈ line, decide (b = newline) = false)
    (hlength : line.length = intakeLineCap + 1) :
    line ∈ (intake quietScanner quietIntake [line ++ [newline]]).2.scanned ∧
      intakeLineCap < line.length ∧
      (intake quietScanner quietIntake [line ++ [newline]]).1 ≠
        (intake quietScanner quietIntake [line, [newline]]).1 := by
  have hlong : intakeLineCap < line.length := hlength ▸ Nat.lt_succ_self _
  have hne : line ≠ [] := ne_nil_of_length_pos (Nat.zero_lt_of_lt hlong)
  have hself : line.splitOnP (· = newline) = [line] := splitOnP_eq_singleton hline
  have hended : (line ++ [newline]).splitOnP (· = newline) = [line, []] :=
    splitOnP_append_cons_of_forall_mem hline newline rfl []
  have hmem : line ∈ terminatedLines (line ++ [newline]) := by
    rw [terminatedLines, hended]
    exact mem_singleton_self line
  refine ⟨mem_scanned_quiet hmem, hlong, fun heq => ?_⟩
  rw [intake_line hended, intake_cut hself hne hlong] at heq
  have hlengths := congrArg List.length heq
  have hnote : truncationNote.length = 41 := by decide
  simp only [length_append, length_take, hlength, hnote, length_singleton] at hlengths
  omega

theorem long_line_depends_on_chunks :
    longLine ∈ (intake quietScanner quietIntake [longLine ++ [newline]]).2.scanned ∧
      intakeLineCap < longLine.length ∧
      (intake quietScanner quietIntake [longLine ++ [newline]]).1 ≠
        (intake quietScanner quietIntake [longLine, [newline]]).1 :=
  chunks_matter longLine_not_newline length_longLine

end FlyCockpit.Redact.Intake
