-- SUMMARY: The capped line reader of background output and its dependence on buffer fills.
import FlyCockpit.Lib.Bytes
import FlyCockpit.Lib.Lines

/-!
# The capped line reader

A child's output is read line by line through a buffer that may be filled in any portions. Of a line
that is longer than the cap only its head is kept, and the rest is discarded up to the newline. A
line of exactly the cap is told from a longer one only if the newline is in the same portion as its
last byte: otherwise it is reported as truncated, and keeps its carriage return.
-/

namespace FlyCockpit.Background

open List

def newlineByte : UInt8 := 10

def returnByte : UInt8 := 13

def isNewline (b : UInt8) : Bool := b == newlineByte

/-! ## The buffer -/

/-- A stream in the portions in which the buffer will be filled; the first may be used in part. An
empty portion would be the end of the stream. -/
structure BufReader where
  fills : List Bytes
  nonempty : ∀ fill ∈ fills, fill ≠ []

namespace BufReader

variable {r : BufReader} {n : Nat}

/-- What is still to be read. -/
def bytes (r : BufReader) : Bytes := r.fills.flatten

def fillBuf (r : BufReader) : Bytes := r.fills.headD []

def consumed (n : Nat) : List Bytes → List Bytes
  | [] => []
  | fill :: rest => if n < fill.length then fill.drop n :: rest else rest

theorem ne_nil_of_mem_consumed {fills : List Bytes} (h : ∀ fill ∈ fills, fill ≠ []) :
    ∀ fill ∈ consumed n fills, fill ≠ [] := by
  cases fills with
  | nil => exact forall_mem_nil _
  | cons fill rest =>
    obtain ⟨-, hrest⟩ := forall_mem_cons.1 h
    rw [consumed]
    split_ifs with hn
    · refine forall_mem_cons.2 ⟨fun hnil => ?_, hrest⟩
      exact absurd (drop_eq_nil_iff.1 hnil) (Nat.not_le.2 hn)
    · exact hrest

def consume (r : BufReader) (n : Nat) : BufReader :=
  ⟨consumed n r.fills, ne_nil_of_mem_consumed r.nonempty⟩

/-- The buffer is a part of what is to be read, and is empty only at its end. -/
theorem exists_bytes_eq (r : BufReader) :
    ∃ later, r.bytes = r.fillBuf ++ later ∧ (r.fillBuf = [] → r.bytes = []) := by
  obtain ⟨fills, hne⟩ := r
  cases fills with
  | nil => exact ⟨[], rfl, fun _ => rfl⟩
  | cons fill rest => exact ⟨rest.flatten, rfl, fun h => absurd h (hne fill mem_cons_self)⟩

theorem bytes_consume (h : n ≤ r.fillBuf.length) : (r.consume n).bytes = r.bytes.drop n := by
  obtain ⟨fills, hne⟩ := r
  cases fills with
  | nil => simp [bytes, consume, consumed]
  | cons fill rest =>
    have hn : n ≤ fill.length := h
    simp only [bytes, consume, consumed, flatten_cons, drop_append_of_le_length hn]
    split_ifs with hlt
    · rfl
    · rw [drop_eq_nil_of_le (Nat.le_of_not_lt hlt), nil_append]

theorem length_bytes_consume_lt (hpos : 0 < n) (h : n ≤ r.fillBuf.length) :
    (r.consume n).bytes.length < r.bytes.length := by
  obtain ⟨later, hbytes, -⟩ := r.exists_bytes_eq
  rw [bytes_consume h, length_drop, hbytes, length_append]
  omega

/-- Every portion is a single byte. -/
def Single (r : BufReader) : Prop := ∀ fill ∈ r.fills, fill.length = 1

theorem Single.consume (h : r.Single) (n : Nat) : (r.consume n).Single := by
  obtain ⟨fills, hne⟩ := r
  cases fills with
  | nil => exact forall_mem_nil _
  | cons fill rest =>
    obtain ⟨hfill, hrest⟩ := forall_mem_cons.1 h
    simp only [Single, BufReader.consume, consumed]
    split_ifs with hn
    · obtain rfl : n = 0 := by omega
      exact h
    · exact hrest

theorem Single.length_fillBuf_le (h : r.Single) : r.fillBuf.length ≤ 1 := by
  obtain ⟨fills, hne⟩ := r
  cases fills with
  | nil => exact Nat.zero_le _
  | cons fill rest => exact (h fill mem_cons_self).le

/-- A stream that comes byte by byte. -/
def byByte (stream : Bytes) : BufReader :=
  ⟨stream.map ([·]), by simp⟩

theorem bytes_byByte (stream : Bytes) : (byByte stream).bytes = stream := by
  induction stream with
  | nil => rfl
  | cons b stream ih => exact congrArg (b :: ·) ih

theorem single_byByte (stream : Bytes) : (byByte stream).Single := by
  simp [Single, byByte]

end BufReader

/-! ## The reader -/

structure CappedLineReader where
  reader : BufReader
  pending : Bytes
  cap : Nat
  discarding : Bool
  lastTruncated : Bool
  lastTerminated : Bool

/-- What one pass of the reading loop comes to. -/
inductive Turn
  | again (self : CappedLineReader)
  | line (self : CappedLineReader) (text : String)
  | eof (self : CappedLineReader)

section

-- `String::from_utf8_lossy`
variable (fromUtf8Lossy : Bytes → String)

def takeCappedLine (pending : Bytes) (stripCr : Bool) : String :=
  fromUtf8Lossy (if stripCr ∧ pending.getLast? = some returnByte then pending.dropLast else pending)

namespace CappedLineReader

def new (reader : BufReader) (cap : Nat) : CappedLineReader :=
  ⟨reader, [], max cap 1, false, false, false⟩

def lastWasTruncated (self : CappedLineReader) : Bool := self.lastTruncated

/-- The body of the loop of `next_line`. -/
def turn (self : CappedLineReader) : Turn :=
  let chunk := self.reader.fillBuf
  if chunk = [] then
    if self.discarding then .eof { self with discarding := false, pending := [] }
    else if self.pending = [] then .eof self
    else .line { self with pending := [] } (takeCappedLine fromUtf8Lossy self.pending false)
  else
    match chunk.findIdx? isNewline with
    | some nl =>
      if self.discarding then
        .again { self with reader := self.reader.consume (nl + 1), discarding := false }
      else
        let room := self.cap - self.pending.length
        let take := min nl room
        let complete := take == nl
        .line
          { self with
            reader := self.reader.consume (nl + 1)
            pending := []
            lastTruncated := !complete
            lastTerminated := complete }
          (takeCappedLine fromUtf8Lossy (self.pending ++ chunk.take take) complete)
    | none =>
      let len := chunk.length
      if self.discarding then .again { self with reader := self.reader.consume len }
      else
        let room := self.cap - self.pending.length
        let take := min len room
        let pending := self.pending ++ chunk.take take
        if pending.length ≥ self.cap then
          .line
            { self with
              reader := self.reader.consume len
              pending := []
              discarding := true
              lastTruncated := true }
            (takeCappedLine fromUtf8Lossy pending false)
        else .again { self with reader := self.reader.consume len, pending }

variable {fromUtf8Lossy}

theorem length_bytes_lt_of_again {self next : CappedLineReader}
    (h : self.turn fromUtf8Lossy = .again next) :
    next.reader.bytes.length < self.reader.bytes.length := by
  unfold turn at h
  dsimp only at h
  split at h
  · split_ifs at h
  next hne =>
    have hpos : 0 < self.reader.fillBuf.length := length_pos_iff.2 hne
    split at h
    next nl hnl =>
      have hlt := (List.findIdx?_eq_some_iff_findIdx_eq.1 hnl).1
      split_ifs at h
      cases h
      exact BufReader.length_bytes_consume_lt (Nat.succ_pos _) hlt
    · split_ifs at h <;> cases h <;> exact BufReader.length_bytes_consume_lt hpos (Nat.le_refl _)

variable (fromUtf8Lossy)

/-- The loop of `next_line`. -/
def nextLineLoop (self : CappedLineReader) : CappedLineReader × Option String :=
  match _ : self.turn fromUtf8Lossy with
  | .again next => nextLineLoop next
  | .line next text => (next, some text)
  | .eof next => (next, none)
termination_by self.reader.bytes.length
decreasing_by exact length_bytes_lt_of_again ‹_›

def reset (self : CappedLineReader) : CappedLineReader :=
  { self with lastTruncated := false, lastTerminated := false }

def nextLine (self : CappedLineReader) : CappedLineReader × Option String :=
  nextLineLoop fromUtf8Lossy self.reset

/-- The reader is asked until the end and yields these lines, each with the report that it was
truncated or not. -/
inductive Reads : CappedLineReader → List (String × Bool) → Prop
  | done {self : CappedLineReader} (h : (self.nextLine fromUtf8Lossy).2 = none) : Reads self []
  | line {self : CappedLineReader} {text : String} {rest : List (String × Bool)}
      (h : (self.nextLine fromUtf8Lossy).2 = some text)
      (hrest : Reads (self.nextLine fromUtf8Lossy).1 rest) :
    Reads self ((text, (self.nextLine fromUtf8Lossy).1.lastWasTruncated) :: rest)

variable {fromUtf8Lossy} {self next : CappedLineReader} {text : String} {lines : List (String × Bool)}

theorem Reads.of_nextLine_eq (hreads : Reads fromUtf8Lossy self lines)
    (h : self.nextLine fromUtf8Lossy = next.nextLine fromUtf8Lossy) : Reads fromUtf8Lossy next lines := by
  cases hreads with
  | done hdone =>
    rw [h] at hdone
    exact .done hdone
  | line hline hrest =>
    rw [h] at hline hrest ⊢
    exact .line hline hrest

theorem reads_iff_of_nextLine_eq (h : self.nextLine fromUtf8Lossy = next.nextLine fromUtf8Lossy) :
    Reads fromUtf8Lossy self lines ↔ Reads fromUtf8Lossy next lines :=
  ⟨fun hreads => hreads.of_nextLine_eq h, fun hreads => hreads.of_nextLine_eq h.symm⟩

theorem reads_reset : Reads fromUtf8Lossy self.reset lines ↔ Reads fromUtf8Lossy self lines :=
  reads_iff_of_nextLine_eq rfl

variable (fromUtf8Lossy) in
/-- What the loop comes to behind a pass. -/
def afterTurn : Turn → CappedLineReader × Option String
  | .again next => nextLineLoop fromUtf8Lossy next
  | .line next text => (next, some text)
  | .eof next => (next, none)

theorem nextLineLoop_of_turn {t : Turn} (h : self.turn fromUtf8Lossy = t) :
    nextLineLoop fromUtf8Lossy self = afterTurn fromUtf8Lossy t := by
  subst h
  rw [nextLineLoop]
  split <;> simp only [afterTurn, *]

theorem reads_of_again (hself : self.reset = self) (hnext : next.reset = next)
    (h : self.turn fromUtf8Lossy = .again next) :
    Reads fromUtf8Lossy self lines ↔ Reads fromUtf8Lossy next lines := by
  refine reads_iff_of_nextLine_eq ?_
  rw [nextLine, nextLine, hself, hnext, nextLineLoop_of_turn h]
  rfl

theorem reads_of_line (hself : self.reset = self) (h : self.turn fromUtf8Lossy = .line next text) :
    Reads fromUtf8Lossy self lines ↔
      ∃ rest, lines = (text, next.lastTruncated) :: rest ∧ Reads fromUtf8Lossy next.reset rest := by
  have hnext : self.nextLine fromUtf8Lossy = (next, some text) := by
    rw [nextLine, hself, nextLineLoop_of_turn h]
    rfl
  constructor
  · intro hreads
    cases hreads with
    | done hdone => rw [hnext] at hdone; cases hdone
    | @line _ _ rest hline hrest =>
      rw [hnext] at hline hrest ⊢
      cases hline
      exact ⟨rest, rfl, reads_reset.2 hrest⟩
  · rintro ⟨rest, rfl, hrest⟩
    have hreads : Reads fromUtf8Lossy self
        ((text, (self.nextLine fromUtf8Lossy).1.lastWasTruncated) :: rest) :=
      .line (by rw [hnext]) (by rw [hnext]; exact reads_reset.1 hrest)
    rwa [hnext] at hreads

theorem reads_of_eof (hself : self.reset = self) (h : self.turn fromUtf8Lossy = .eof next) :
    Reads fromUtf8Lossy self lines ↔ lines = [] := by
  have hnext : self.nextLine fromUtf8Lossy = (next, none) := by
    rw [nextLine, hself, nextLineLoop_of_turn h]
    rfl
  constructor
  · intro hreads
    cases hreads with
    | done => rfl
    | line hline => rw [hnext] at hline; cases hline
  · rintro rfl
    exact .done (by rw [hnext])

end CappedLineReader

/-! ## Physical lines -/

/-- A line without its newline, and whether it had one. -/
def physicalLine (piece : Bytes) : Bytes × Bool :=
  if piece.getLast? = some newlineByte then (piece.dropLast, true) else (piece, false)

def physicalLines (stream : Bytes) : List (Bytes × Bool) :=
  (Lines.pieces isNewline stream).map physicalLine

/-- What a line is to be read as: whole, but for the carriage return of its line end, or its first
bytes if it is longer than the cap. -/
def cappedLine (fromUtf8Lossy : Bytes → String) (cap : Nat) (line : Bytes × Bool) : String × Bool :=
  if line.1.length ≤ cap then
    (fromUtf8Lossy (if line.2 then Lines.stripReturn (· == returnByte) line.1 else line.1), false)
  else (fromUtf8Lossy (line.1.take cap), true)

section Physical

variable {u v : Bytes}

theorem physicalLines_append_cons (hu : ∀ b ∈ u, isNewline b = false) :
    physicalLines (u ++ newlineByte :: v) = (u, true) :: physicalLines v := by
  rw [physicalLines, Lines.pieces_append_cons hu rfl, map_cons, physicalLine,
    List.getLast?_concat, if_pos rfl, dropLast_concat]
  rfl

theorem physicalLines_of_not_newline (hu : ∀ b ∈ u, isNewline b = false) (hne : u ≠ []) :
    physicalLines u = [(u, false)] := by
  have hlast : u.getLast? ≠ some newlineByte := fun h => by
    have hnot := hu _ (mem_of_getLast? h)
    cases hnot
  rw [physicalLines, Lines.pieces_of_not_newline hu hne, map_singleton, physicalLine, if_neg hlast]

/-- What comes behind the line that a stream starts in. -/
def afterNewline : Bytes → Bytes
  | [] => []
  | b :: rest => if isNewline b then rest else afterNewline rest

theorem afterNewline_append (hu : ∀ b ∈ u, isNewline b = false) :
    afterNewline (u ++ v) = afterNewline v := by
  induction u with
  | nil => rfl
  | cons b u ih =>
    obtain ⟨hb, hu⟩ := forall_mem_cons.1 hu
    rw [cons_append, afterNewline, if_neg (by simp [hb]), ih hu]

theorem exists_physicalLines_append (hu : ∀ b ∈ u, isNewline b = false) (hne : u ≠ []) :
    ∃ t terminated, physicalLines (u ++ v) = (u ++ t, terminated) :: physicalLines (afterNewline v) := by
  obtain hv | ⟨t, b, w, rfl, hb, ht⟩ := Lines.exists_first_newline isNewline v
  · refine ⟨v, false, ?_⟩
    have hnone := afterNewline_append (v := []) hv
    rw [append_nil] at hnone
    rw [hnone, physicalLines_of_not_newline (forall_mem_append.2 ⟨hu, hv⟩) (by simp [hne])]
    rfl
  · refine ⟨t, true, ?_⟩
    rw [eq_of_beq hb, ← append_assoc,
      physicalLines_append_cons (forall_mem_append.2 ⟨hu, ht⟩), afterNewline_append ht]
    rfl

end Physical

namespace CappedLineReader

variable {fromUtf8Lossy} {self next : CappedLineReader} {lines : List (String × Bool)}

/-- The bytes whose lines are still to be read: a line that is being discarded is not among them. -/
def remaining (self : CappedLineReader) : Bytes :=
  if self.discarding then afterNewline self.reader.bytes else self.pending ++ self.reader.bytes

/-- Between two passes of the loop the pending bytes are the head of a line, shorter than the cap. -/
structure Ready (r : CappedLineReader) : Prop where
  reset : r.reset = r
  short : r.pending.length < r.cap
  head : ∀ b ∈ r.pending, isNewline b = false
  discarding : r.discarding = true → r.pending = []

theorem ready_new (reader : BufReader) (cap : Nat) : (new reader cap).Ready :=
  ⟨rfl, Nat.lt_of_lt_of_le Nat.zero_lt_one (Nat.le_max_right _ _), forall_mem_nil _, fun _ => rfl⟩

theorem findIdx?_first {u v : Bytes} (hu : ∀ b ∈ u, isNewline b = false) :
    (u ++ newlineByte :: v).findIdx? isNewline = some u.length := by
  induction u with
  | nil => rfl
  | cons b u ih =>
    obtain ⟨hb, hu⟩ := forall_mem_cons.1 hu
    rw [cons_append, List.findIdx?_cons, if_neg (by simp [hb]), ih hu]
    rfl

theorem takeCappedLine_true (line : Bytes) :
    takeCappedLine fromUtf8Lossy line true = fromUtf8Lossy (Lines.stripReturn (· == returnByte) line) := by
  rw [takeCappedLine, Lines.stripReturn]
  cases line.getLast? with
  | none => simp
  | some b => simp

/-! ### What a pass does -/

section Pass

variable {u v : Bytes}

theorem turn_end (hchunk : self.reader.fillBuf = []) (h : self.discarding = true ∨ self.pending = []) :
    ∃ next, self.turn fromUtf8Lossy = .eof next := by
  unfold turn
  dsimp only
  rw [if_pos hchunk]
  split_ifs with hdiscarding hpending
  · exact ⟨_, rfl⟩
  · exact ⟨_, rfl⟩
  · exact absurd h (by simp [hdiscarding, hpending])

theorem turn_rest (hchunk : self.reader.fillBuf = []) (hkeeps : self.discarding = false)
    (hpending : self.pending ≠ []) :
    self.turn fromUtf8Lossy = .line { self with pending := [] } (fromUtf8Lossy self.pending) := by
  simp [turn, hchunk, hkeeps, hpending, takeCappedLine]

theorem turn_newline_discarding (hchunk : self.reader.fillBuf = u ++ newlineByte :: v)
    (hu : ∀ b ∈ u, isNewline b = false) (hdiscarding : self.discarding = true) :
    self.turn fromUtf8Lossy =
      .again { self with reader := self.reader.consume (u.length + 1), discarding := false } := by
  simp [turn, hchunk, findIdx?_first hu, hdiscarding]

/-- The newline is there: the line is complete if it is not longer than the cap. -/
theorem turn_newline (hchunk : self.reader.fillBuf = u ++ newlineByte :: v)
    (hu : ∀ b ∈ u, isNewline b = false) (hkeeps : self.discarding = false)
    (hshort : self.pending.length < self.cap) :
    ∃ next, self.turn fromUtf8Lossy =
        .line next (cappedLine fromUtf8Lossy self.cap (self.pending ++ u, true)).1 ∧
      next.lastTruncated = (cappedLine fromUtf8Lossy self.cap (self.pending ++ u, true)).2 ∧
      next.reset = { self.reset with reader := self.reader.consume (u.length + 1), pending := [] } := by
  have htake : ∀ n ≤ u.length, (u ++ newlineByte :: v).take n = u.take n := fun n hn =>
    take_append_of_le_length hn
  have hne : self.reader.fillBuf ≠ [] := by simp [hchunk]
  unfold turn
  dsimp only
  rw [if_neg hne, hchunk, findIdx?_first hu]
  dsimp only
  rw [if_neg (by simp [hkeeps]), htake _ (Nat.min_le_left _ _), cappedLine, length_append]
  by_cases hle : self.pending.length + u.length ≤ self.cap
  · have hmin : min u.length (self.cap - self.pending.length) = u.length := by omega
    rw [if_pos hle, hmin, take_length, beq_self_eq_true]
    refine ⟨_, congrArg (Turn.line _) ?_, ?_, ?_⟩
    · rw [takeCappedLine_true, if_pos rfl]
    · rfl
    · rfl
  · have hmin : min u.length (self.cap - self.pending.length) = self.cap - self.pending.length := by omega
    have hcomplete : (self.cap - self.pending.length == u.length) = false := beq_eq_false_iff_ne.2 (by omega)
    rw [if_neg hle, hmin, hcomplete]
    refine ⟨_, congrArg (Turn.line _) ?_, ?_, ?_⟩
    · simp [takeCappedLine, take_append, take_of_length_le hshort.le]
    · rfl
    · rfl

theorem turn_part_discarding (hne : self.reader.fillBuf ≠ [])
    (hnone : ∀ b ∈ self.reader.fillBuf, isNewline b = false) (hdiscarding : self.discarding = true) :
    self.turn fromUtf8Lossy =
      .again { self with reader := self.reader.consume self.reader.fillBuf.length } := by
  simp [turn, hne, List.findIdx?_eq_none_iff.2 hnone, hdiscarding]

theorem turn_part (hne : self.reader.fillBuf ≠ [])
    (hnone : ∀ b ∈ self.reader.fillBuf, isNewline b = false) (hkeeps : self.discarding = false)
    (hshort : (self.pending ++ self.reader.fillBuf).length < self.cap) :
    self.turn fromUtf8Lossy = .again
      { self with
        reader := self.reader.consume self.reader.fillBuf.length
        pending := self.pending ++ self.reader.fillBuf } := by
  rw [length_append] at hshort
  have hmin : min self.reader.fillBuf.length (self.cap - self.pending.length) =
      self.reader.fillBuf.length := by omega
  simp [turn, hne, List.findIdx?_eq_none_iff.2 hnone, hkeeps, hmin, hshort]

/-- The cap is reached without a newline: the head is yielded as a truncated line. -/
theorem turn_cut (hne : self.reader.fillBuf ≠ [])
    (hnone : ∀ b ∈ self.reader.fillBuf, isNewline b = false) (hkeeps : self.discarding = false)
    (hshort : self.pending.length < self.cap)
    (hfull : self.cap ≤ (self.pending ++ self.reader.fillBuf).length) :
    self.turn fromUtf8Lossy = .line
      { self with
        reader := self.reader.consume self.reader.fillBuf.length
        pending := []
        discarding := true
        lastTruncated := true }
      (fromUtf8Lossy ((self.pending ++ self.reader.fillBuf).take self.cap)) := by
  rw [length_append] at hfull
  have hmin : min self.reader.fillBuf.length (self.cap - self.pending.length) =
      self.cap - self.pending.length := by omega
  have hcap : self.cap ≤ (self.pending ++
      self.reader.fillBuf.take (self.cap - self.pending.length)).length := by
    rw [length_append, length_take]
    omega
  simp only [turn, if_neg hne, List.findIdx?_eq_none_iff.2 hnone, hkeeps, Bool.false_eq_true, if_false,
    hmin, ge_iff_le, hcap, if_true, takeCappedLine, false_and, take_append,
    take_of_length_le hshort.le]

end Pass

/-! ### Whole streams -/

/-- What is left to do: the bytes, and a line that is pending. -/
def left (self : CappedLineReader) : Nat := 2 * self.reader.bytes.length + min 1 self.pending.length

/-- A pass ends the stream, goes on with the same lines before it, or yields the next line: as it
should be, or as a truncated line although its length is that of the cap. -/
inductive Pass (fromUtf8Lossy : Bytes → String) (self : CappedLineReader) : Prop
  | stop (hlines : physicalLines self.remaining = [])
      (hreads : ∀ lines, Reads fromUtf8Lossy self lines ↔ lines = [])
  | again (next : CappedLineReader) (hready : next.Ready) (hcap : next.cap = self.cap)
      (hleft : next.left < self.left) (hsingle : self.reader.Single → next.reader.Single)
      (hlines : physicalLines next.remaining = physicalLines self.remaining)
      (hreads : ∀ lines, Reads fromUtf8Lossy self lines ↔ Reads fromUtf8Lossy next lines)
  | line (next : CappedLineReader) (hready : next.Ready) (hcap : next.cap = self.cap)
      (hleft : next.left < self.left) (hsingle : self.reader.Single → next.reader.Single)
      (line : Bytes × Bool) (answer : String × Bool)
      (hlines : physicalLines self.remaining = line :: physicalLines next.remaining)
      (hreads : ∀ lines, Reads fromUtf8Lossy self lines ↔
        ∃ rest, lines = answer :: rest ∧ Reads fromUtf8Lossy next rest)
      (hanswer : line.1.length ≠ self.cap → answer = cappedLine fromUtf8Lossy self.cap line)
      (hexact : self.reader.Single → line.1.length = self.cap → answer.2 = true)

theorem pass_end (h : self.Ready) (hchunk : self.reader.fillBuf = []) : Pass fromUtf8Lossy self := by
  obtain ⟨later, -, hend⟩ := self.reader.exists_bytes_eq
  have hbytes := hend hchunk
  cases hdiscarding : self.discarding with
  | true =>
    obtain ⟨next, hturn⟩ := turn_end hchunk (.inl hdiscarding)
    refine .stop ?_ fun _ => reads_of_eof h.reset hturn
    rw [remaining, hdiscarding, hbytes]
    rfl
  | false =>
    obtain hpending | hpending := eq_or_ne self.pending []
    · obtain ⟨next, hturn⟩ := turn_end hchunk (.inr hpending)
      refine .stop ?_ fun _ => reads_of_eof h.reset hturn
      rw [remaining, hdiscarding, hbytes, hpending]
      rfl
    · have hlength := length_pos_iff.2 hpending
      have hready : (reset { self with pending := [] }).Ready :=
        ⟨rfl, Nat.zero_lt_of_lt h.short, forall_mem_nil _, fun _ => rfl⟩
      refine .line _ hready rfl ?_ (fun hsingle => hsingle) (self.pending, false)
        (fromUtf8Lossy self.pending, self.lastTruncated) ?_
        (fun _ => reads_of_line h.reset (turn_rest hchunk hdiscarding hpending)) ?_ ?_
      · simp only [left, reset, hbytes, length_nil]
        omega
      · simp only [remaining, reset, hdiscarding, hbytes, Bool.false_eq_true, if_false, append_nil]
        exact physicalLines_of_not_newline h.head hpending
      · intro _
        rw [cappedLine, if_pos h.short.le, ← h.reset]
        rfl
      · intro _ hexact
        exact absurd hexact h.short.ne

theorem pass_part (h : self.Ready) (hchunk : self.reader.fillBuf ≠ [])
    (hnone : ∀ b ∈ self.reader.fillBuf, isNewline b = false) : Pass fromUtf8Lossy self := by
  have hlt := BufReader.length_bytes_consume_lt (length_pos_iff.2 hchunk) (Nat.le_refl _)
  have hbytes : self.reader.bytes =
      self.reader.fillBuf ++ (self.reader.consume self.reader.fillBuf.length).bytes := by
    obtain ⟨later, hbytes, -⟩ := self.reader.exists_bytes_eq
    rw [BufReader.bytes_consume (Nat.le_refl _), hbytes, drop_left]
  cases hdiscarding : self.discarding with
  | true =>
    have hready : { self with reader := self.reader.consume self.reader.fillBuf.length }.Ready :=
      ⟨by rw [← h.reset]; rfl, h.short, h.head, h.discarding⟩
    refine .again _ hready rfl ?_ (fun hsingle => hsingle.consume _) ?_
      fun _ => reads_of_again h.reset hready.reset (turn_part_discarding hchunk hnone hdiscarding)
    · simp only [left]
      omega
    · simp only [remaining, hdiscarding, if_true]
      rw [hbytes, afterNewline_append hnone]
  | false =>
    have hhead := forall_mem_append.2 ⟨h.head, hnone⟩
    obtain hshort | hfull := Nat.lt_or_ge (self.pending ++ self.reader.fillBuf).length self.cap
    · have hready : { self with
          reader := self.reader.consume self.reader.fillBuf.length
          pending := self.pending ++ self.reader.fillBuf }.Ready :=
        ⟨by rw [← h.reset]; rfl, hshort, hhead, fun hd => by cases hdiscarding.symm.trans hd⟩
      refine .again _ hready rfl ?_ (fun hsingle => hsingle.consume _) ?_
        fun _ => reads_of_again h.reset hready.reset (turn_part hchunk hnone hdiscarding hshort)
      · simp only [left]
        omega
      · simp only [remaining, hdiscarding, Bool.false_eq_true, if_false]
        rw [append_assoc, ← hbytes]
    · have hready : (reset { self with
          reader := self.reader.consume self.reader.fillBuf.length
          pending := []
          discarding := true
          lastTruncated := true }).Ready :=
        ⟨rfl, Nat.zero_lt_of_lt h.short, forall_mem_nil _, fun _ => rfl⟩
      obtain ⟨t, terminated, hlines⟩ :=
        @exists_physicalLines_append _ (self.reader.consume self.reader.fillBuf.length).bytes hhead
          (by simp [hchunk])
      refine .line _ hready rfl ?_ (fun hsingle => hsingle.consume _)
        (self.pending ++ self.reader.fillBuf ++ t, terminated)
        (fromUtf8Lossy ((self.pending ++ self.reader.fillBuf).take self.cap), true) ?_
        (fun _ => reads_of_line h.reset (turn_cut hchunk hnone hdiscarding h.short hfull)) ?_
        fun _ _ => rfl
      · simp only [left, reset, length_nil]
        omega
      · simp only [remaining, reset, hdiscarding, Bool.false_eq_true, if_false, if_true]
        rw [← hlines, append_assoc, ← hbytes]
      · intro hne
        have hlong : self.cap < (self.pending ++ self.reader.fillBuf ++ t).length := by
          refine Nat.lt_of_le_of_ne (Nat.le_trans hfull ?_) hne.symm
          exact (sublist_append_left _ t).length_le
        rw [cappedLine, if_neg (Nat.not_le.2 hlong), take_append_of_le_length hfull]

theorem pass_newline (h : self.Ready) {u v : Bytes} (hchunk : self.reader.fillBuf = u ++ newlineByte :: v)
    (hu : ∀ b ∈ u, isNewline b = false) : Pass fromUtf8Lossy self := by
  have hle : u.length + 1 ≤ self.reader.fillBuf.length := by
    rw [hchunk, length_append, length_cons]
    omega
  have hlt := BufReader.length_bytes_consume_lt (n := u.length + 1) (Nat.succ_pos _) hle
  have hbytes : self.reader.bytes = u ++ newlineByte :: (self.reader.consume (u.length + 1)).bytes := by
    obtain ⟨later, hbytes, -⟩ := self.reader.exists_bytes_eq
    rw [BufReader.bytes_consume hle, hbytes, hchunk]
    simp [drop_append]
  cases hdiscarding : self.discarding with
  | true =>
    have hready : { self with
        reader := self.reader.consume (u.length + 1), discarding := false }.Ready :=
      ⟨by rw [← h.reset]; rfl, h.short, h.head, fun hd => by cases hd⟩
    refine .again _ hready rfl ?_ (fun hsingle => hsingle.consume _) ?_
      fun _ => reads_of_again h.reset hready.reset (turn_newline_discarding hchunk hu hdiscarding)
    · simp only [left]
      omega
    · simp only [remaining, hdiscarding, Bool.false_eq_true, if_false, if_true, h.discarding hdiscarding,
        nil_append]
      rw [hbytes, afterNewline_append hu]
      rfl
  | false =>
    obtain ⟨next, hturn, htruncated, hnext⟩ :=
      @turn_newline fromUtf8Lossy self u v hchunk hu hdiscarding h.short
    have hready : next.reset.Ready := by
      rw [hnext]
      exact ⟨rfl, Nat.zero_lt_of_lt h.short, forall_mem_nil _, fun _ => rfl⟩
    refine .line _ hready (by rw [hnext]; rfl) ?_ (fun hsingle => ?_) (self.pending ++ u, true)
      (cappedLine fromUtf8Lossy self.cap (self.pending ++ u, true)) ?_ (fun lines => ?_) (fun _ => rfl) ?_
    · rw [hnext]
      simp only [left, length_nil]
      omega
    · rw [hnext]
      exact hsingle.consume _
    · rw [hnext]
      simp only [remaining, reset, hdiscarding, Bool.false_eq_true, if_false, nil_append]
      rw [hbytes, ← append_assoc, physicalLines_append_cons (forall_mem_append.2 ⟨h.head, hu⟩)]
    · rw [reads_of_line h.reset hturn, htruncated]
    · -- the newline is the only byte of its portion, so the line is what was pending
      intro hsingle hexact
      have hone := hsingle.length_fillBuf_le
      have hshort := h.short
      simp only [length_append] at hexact
      omega

theorem pass (h : self.Ready) : Pass fromUtf8Lossy self := by
  by_cases hchunk : self.reader.fillBuf = []
  · exact pass_end h hchunk
  · obtain hnone | ⟨u, b, v, hsplit, hb, hu⟩ :=
      Lines.exists_first_newline isNewline self.reader.fillBuf
    · exact pass_part h hchunk hnone
    · rw [eq_of_beq hb] at hsplit
      exact pass_newline h hsplit hu

/-- If no line has exactly the length of the cap, the lines are read as they should be. -/
theorem reads_remaining (self : CappedLineReader) (h : self.Ready)
    (hlines : ∀ line ∈ physicalLines self.remaining, line.1.length ≠ self.cap) :
    Reads fromUtf8Lossy self
      ((physicalLines self.remaining).map (cappedLine fromUtf8Lossy self.cap)) := by
  induction hn : self.left using Nat.strong_induction_on generalizing self with
  | _ n ih =>
    subst hn
    cases @pass fromUtf8Lossy self h with
    | stop hnil hreads =>
      rw [hnil]
      exact (hreads _).2 rfl
    | again next hready hcap hleft _ hsame hreads =>
      rw [← hsame, ← hcap] at hlines ⊢
      exact (hreads _).2 (ih _ hleft next hready hlines rfl)
    | line next hready hcap hleft _ line answer hcons hreads hanswer =>
      rw [hcons, forall_mem_cons] at hlines
      obtain ⟨hline, hlines⟩ := hlines
      rw [hcons, map_cons, ← hanswer hline]
      rw [← hcap] at hlines ⊢
      exact (hreads _).2 ⟨_, rfl, ih _ hleft next hready hlines rfl⟩

/-- A stream that comes byte by byte is read as it should be only if no line has exactly the length
of the cap. -/
theorem length_ne_of_reads (self : CappedLineReader) (h : self.Ready) (hsingle : self.reader.Single)
    (hread : Reads fromUtf8Lossy self
      ((physicalLines self.remaining).map (cappedLine fromUtf8Lossy self.cap))) :
    ∀ line ∈ physicalLines self.remaining, line.1.length ≠ self.cap := by
  induction hn : self.left using Nat.strong_induction_on generalizing self with
  | _ n ih =>
    subst hn
    cases @pass fromUtf8Lossy self h with
    | stop hnil =>
      rw [hnil]
      exact forall_mem_nil _
    | again next hready hcap hleft hnext hsame hreads =>
      rw [hreads, ← hsame, ← hcap] at hread
      rw [← hsame, ← hcap]
      exact ih _ hleft next hready (hnext hsingle) hread rfl
    | line next hready hcap hleft hnext line answer hcons hreads _ hexact =>
      rw [hcons, map_cons, hreads] at hread
      obtain ⟨rest, heq, hrest⟩ := hread
      obtain ⟨rfl, rfl⟩ := List.cons.inj heq
      rw [hcons, forall_mem_cons]
      constructor
      · intro hlength
        have htrue := hexact hsingle hlength
        rw [cappedLine, if_pos hlength.le] at htrue
        cases htrue
      · rw [← hcap] at hrest ⊢
        exact ih _ hleft next hready (hnext hsingle) hrest rfl

end CappedLineReader

/-- However the stream comes in, its lines are read as they should be. -/
def ReadsAlike (fromUtf8Lossy : Bytes → String) (cap : Nat) (stream : Bytes) : Prop :=
  ∀ reader : BufReader, reader.bytes = stream →
    CappedLineReader.Reads fromUtf8Lossy (.new reader cap)
      ((physicalLines stream).map (cappedLine fromUtf8Lossy (max cap 1)))

/-- Reading does not depend on the fills of the buffer exactly if no line has the length of the cap. -/
theorem readsAlike_iff (fromUtf8Lossy : Bytes → String) (cap : Nat) (stream : Bytes) :
    ReadsAlike fromUtf8Lossy cap stream ↔
      ∀ line ∈ physicalLines stream, line.1.length ≠ max cap 1 := by
  constructor
  · intro h
    have hbytes := BufReader.bytes_byByte stream
    have hne := @CappedLineReader.length_ne_of_reads fromUtf8Lossy (.new (.byByte stream) cap)
      (CappedLineReader.ready_new _ _) (BufReader.single_byByte stream)
    simp only [CappedLineReader.remaining, CappedLineReader.new, Bool.false_eq_true, if_false,
      List.nil_append, hbytes] at hne
    exact hne (h _ hbytes)
  · rintro h reader rfl
    exact CappedLineReader.reads_remaining (.new reader cap) (CappedLineReader.ready_new _ _) h

end

/-! ## A newline in the next portion -/

def asciiText (bytes : Bytes) : String := String.ofList (bytes.map fun b => Char.ofNat b.toNat)

/-- The line `ab` with its line end, in one portion. -/
def wholeLine : BufReader := ⟨[[97, 98, 13, 10]], by simp⟩

/-- The same line with the newline in a portion of its own. -/
def splitLine : BufReader := ⟨[[97, 98, 13], [10]], by simp⟩

/-- Under a cap of three bytes the line is whole or truncated, and with or without its carriage
return, as the portions fall. -/
theorem split_line_reported_truncated : wholeLine.bytes = splitLine.bytes ∧
      CappedLineReader.Reads asciiText (.new wholeLine 3) [("ab", false)] ∧
      CappedLineReader.Reads asciiText (.new splitLine 3) [("ab\r", true)] ∧
      ¬ReadsAlike asciiText 3 splitLine.bytes := by
  have hsplit (lines : List (String × Bool)) :=
    @CappedLineReader.reads_of_line asciiText (.new splitLine 3) _ _ lines rfl rfl
  refine ⟨rfl, ?_, (hsplit _).2 ⟨[], by decide, ?_⟩, fun h => ?_⟩
  · exact (CappedLineReader.reads_of_line rfl rfl).2
      ⟨[], by decide, (CappedLineReader.reads_of_eof rfl rfl).2 rfl⟩
  · exact (CappedLineReader.reads_of_again rfl rfl rfl).2 ((CappedLineReader.reads_of_eof rfl rfl).2 rfl)
  · obtain ⟨rest, heq, -⟩ := (hsplit _).1 (h splitLine rfl)
    have hlines : (physicalLines splitLine.bytes).map (cappedLine asciiText (max 3 1)) =
        [("ab", false)] := by decide
    rw [hlines] at heq
    obtain ⟨hline, -⟩ := List.cons.inj heq
    cases congrArg Prod.snd hline

end FlyCockpit.Background
