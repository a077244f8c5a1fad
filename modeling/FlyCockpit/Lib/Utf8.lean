-- SUMMARY: UTF-8: the automaton of well-formed sequences, how far a byte string is valid, character boundaries.
import FlyCockpit.Lib.Bytes

/-!
# UTF-8

The automaton reads one byte at a time and stands between two characters in `start`. `validUpTo`
is the number of bytes up to which a byte string is a sequence of whole characters; a boundary is
a position that does not stand on a continuation byte.
-/

namespace Utf8

open List

/-- Where the automaton stands: between characters, or inside one with the bytes that may follow. -/
inductive State where
  | start
  | owes1
  | owes2
  | owes3
  | e0
  | ed
  | f0
  | f4
  deriving DecidableEq, Repr

/-- The state behind the first byte of a character. -/
def lead (b : UInt8) : Option State :=
  if b < 0x80 then some .start
  else if 0xC2 ≤ b ∧ b ≤ 0xDF then some .owes1
  else if b = 0xE0 then some .e0
  else if b = 0xED then some .ed
  else if 0xE1 ≤ b ∧ b ≤ 0xEF then some .owes2
  else if b = 0xF0 then some .f0
  else if 0xF1 ≤ b ∧ b ≤ 0xF3 then some .owes3
  else if b = 0xF4 then some .f4
  else none

/-- The state `next` when the byte lies between the bounds. -/
def within (low high b : UInt8) (next : State) : Option State :=
  if low ≤ b ∧ b ≤ high then some next else none

def step : State → UInt8 → Option State
  | .start, b => lead b
  | .owes1, b => within 0x80 0xBF b .start
  | .owes2, b => within 0x80 0xBF b .owes1
  | .owes3, b => within 0x80 0xBF b .owes2
  | .e0, b => within 0xA0 0xBF b .owes1
  | .ed, b => within 0x80 0x9F b .owes1
  | .f0, b => within 0x90 0xBF b .owes2
  | .f4, b => within 0x80 0x8F b .owes2

/-- The state behind a whole byte string, if no byte of it is refused. -/
def run : State → Bytes → Option State
  | s, [] => some s
  | s, b :: bytes => (step s b).bind (run · bytes)

/-- The byte string is a sequence of whole characters. -/
def Valid (bytes : Bytes) : Prop := run .start bytes = some .start

instance instDecidableValid (bytes : Bytes) : Decidable (Valid bytes) :=
  inferInstanceAs (Decidable (_ = _))

/-- The bytes of a text. -/
def encode (text : String) : Bytes := text.toList.flatMap String.utf8EncodeChar

/-- The character that stands for bytes that are no text. -/
def replacement : Bytes := [0xEF, 0xBF, 0xBD]

/-- What follows the bytes `pending` of an unfinished character, with every sequence that cannot be
    finished replaced. -/
def lossyFrom (s : State) (pending : Bytes) : Bytes → Bytes
  | [] => if s = .start then [] else replacement
  | b :: bytes =>
    match step s b with
    | some .start => pending ++ [b] ++ lossyFrom .start [] bytes
    | some s' => lossyFrom s' (pending ++ [b]) bytes
    | none =>
      if s = .start then replacement ++ lossyFrom .start [] bytes
      else
        -- the byte that broke the sequence begins anew
        replacement ++ match lead b with
          | some .start => b :: lossyFrom .start [] bytes
          | some s' => lossyFrom s' [b] bytes
          | none => replacement ++ lossyFrom .start [] bytes

/-- The text of a byte string, with what is no text replaced. -/
def lossy (bytes : Bytes) : Bytes := lossyFrom .start [] bytes

theorem run_append (s : State) (l r : Bytes) : run s (l ++ r) = (run s l).bind (run · r) := by
  induction l generalizing s with
  | nil => rfl
  | cons b l ih =>
    rw [cons_append, run, run]
    cases step s b with
    | none => rfl
    | some s' => exact ih s'

theorem Valid.append {l r : Bytes} (hl : Valid l) (hr : Valid r) : Valid (l ++ r) := by
  rw [Valid, run_append, hl]
  exact hr

theorem valid_of_ascii : ∀ {bytes : Bytes}, (∀ b ∈ bytes, b < 0x80) → Valid bytes
  | [], _ => rfl
  | b :: bytes, h => by
    rw [Valid, run, step, lead, if_pos (h b mem_cons_self)]
    exact valid_of_ascii fun b' hb' => h b' (mem_cons_of_mem _ hb')

variable {b : UInt8} {s : Bytes} {index i : Nat}

/-- An ASCII byte is a character of its own. -/
theorem step_ascii {s s' : State} (hb : b < 0x80) (h : step s b = some s') :
    s = .start ∧ s' = .start := by
  have hnone : ∀ low high next, 0x80 ≤ low → within low high b next ≠ some s' := by
    intro low high next hlow
    rw [within, if_neg fun hin => absurd (UInt8.lt_of_lt_of_le hb (UInt8.le_trans hlow hin.1))
      (UInt8.lt_irrefl b)]
    exact (Option.some_ne_none s').symm
  cases s with
  | start =>
    rw [step, lead, if_pos hb] at h
    exact ⟨rfl, (Option.some.inj h).symm⟩
  | owes1 | owes2 | owes3 | e0 | ed | f0 | f4 => exact absurd h (hnone _ _ _ (by decide))

theorem Valid.of_append_cons {l r : Bytes} (hb : b < 0x80) (h : Valid (l ++ b :: r)) :
    Valid l ∧ Valid r := by
  rw [Valid, run_append] at h
  obtain ⟨s, hl, h⟩ := Option.bind_eq_some_iff.1 h
  rw [run] at h
  obtain ⟨s', hstep, hr⟩ := Option.bind_eq_some_iff.1 h
  obtain ⟨rfl, rfl⟩ := step_ascii hb hstep
  exact ⟨hl, hr⟩

/-! ## Character boundaries -/

def isContinuation (b : UInt8) : Bool := b &&& 0b11000000 == 0b10000000

/-- The position is an end of the string or the first byte of a character. -/
def isCharBoundary (s : Bytes) (i : Nat) : Bool :=
  i == 0 || i == s.length || (i < s.length && !isContinuation (s.getD i 0))

/-- The last boundary among the positions up to `i`. -/
def floorFrom (s : Bytes) : Nat → Nat
  | 0 => 0
  | i + 1 => if isCharBoundary s (i + 1) then i + 1 else floorFrom s i

def floorCharBoundary (s : Bytes) (index : Nat) : Nat := floorFrom s (min index s.length)

/-- The first boundary among `i` and the `n` positions behind it. -/
def ceilFrom (s : Bytes) : Nat → Nat → Nat
  | 0, i => i
  | n + 1, i => if isCharBoundary s i then i else ceilFrom s n (i + 1)

def ceilCharBoundary (s : Bytes) (index : Nat) : Nat :=
  let i := min index s.length
  ceilFrom s (s.length - i) i

theorem lead_of_isContinuation (h : isContinuation b = true) : lead b = none := by
  have hall : ∀ n : Fin 256, isContinuation (UInt8.ofFin n) = true → lead (UInt8.ofFin n) = none := by
    decide +kernel
  exact hall b.toFin h

theorem Valid.head_not_continuation {bytes : Bytes} (h : Valid (b :: bytes)) :
    isContinuation b = false := by
  cases hb : isContinuation b with
  | false => rfl
  | true =>
    rw [Valid, run, step, lead_of_isContinuation hb] at h
    cases h

theorem floorFrom_le (s : Bytes) (i : Nat) : floorFrom s i ≤ i := by
  induction i with
  | zero => exact Nat.le_refl 0
  | succ i ih =>
    rw [floorFrom]
    split
    · exact Nat.le_refl _
    · omega

theorem floorCharBoundary_le (s : Bytes) (index : Nat) : floorCharBoundary s index ≤ index :=
  (floorFrom_le s _).trans (Nat.min_le_left ..)

theorem floorCharBoundary_le_length (s : Bytes) (index : Nat) :
    floorCharBoundary s index ≤ s.length :=
  (floorFrom_le s _).trans (Nat.min_le_right ..)

theorem le_ceilFrom (s : Bytes) (n i : Nat) : i ≤ ceilFrom s n i ∧ ceilFrom s n i ≤ i + n := by
  induction n generalizing i with
  | zero => exact ⟨Nat.le_refl _, Nat.le_refl _⟩
  | succ n ih =>
    rw [ceilFrom]
    split
    · omega
    · have := ih (i + 1)
      omega

theorem le_ceilCharBoundary (h : index ≤ s.length) : index ≤ ceilCharBoundary s index := by
  have hle := (le_ceilFrom s (s.length - min index s.length) (min index s.length)).1
  rw [Nat.min_eq_left h] at hle
  simpa only [ceilCharBoundary, Nat.min_eq_left h] using hle

theorem ceilCharBoundary_le_length (s : Bytes) (index : Nat) :
    ceilCharBoundary s index ≤ s.length := by
  have hle := (le_ceilFrom s (s.length - min index s.length) (min index s.length)).2
  have hmin : min index s.length ≤ s.length := Nat.min_le_right ..
  rw [ceilCharBoundary]
  omega

/-- The positions skipped on the way to the next boundary stand on continuation bytes. -/
theorem isContinuation_of_lt_ceilFrom {n j : Nat} (hij : i ≤ j)
    (hj : j < ceilFrom s n i) : isCharBoundary s j = false := by
  induction n generalizing i with
  | zero =>
    rw [ceilFrom] at hj
    omega
  | succ n ih =>
    rw [ceilFrom] at hj
    split at hj
    next => omega
    next hb =>
      rcases Nat.eq_or_lt_of_le hij with rfl | hlt
      · simpa using hb
      · exact ih hlt hj

theorem not_boundary_of_lt_ceil {j : Nat} (hj : index ≤ j)
    (hlt : j < ceilCharBoundary s index) : isCharBoundary s j = false :=
  isContinuation_of_lt_ceilFrom ((Nat.min_le_left ..).trans hj) hlt

theorem isCharBoundary_length (s : Bytes) : isCharBoundary s s.length = true := by
  simp [isCharBoundary]

/-- A byte that does not continue a character starts one. -/
theorem isCharBoundary_of_getElem? (hget : s[i]? = some b)
    (hb : isContinuation b = false) : isCharBoundary s i = true := by
  have hlt := (List.getElem?_eq_some_iff.1 hget).1
  have hgetD : s.getD i 0 = b := by rw [getD_eq_getElem?_getD, hget]; rfl
  have hlead : (decide (i < s.length) && !isContinuation (s.getD i 0)) = true := by
    rw [hgetD, hb, decide_eq_true hlt]
    rfl
  rw [isCharBoundary, hlead, Bool.or_true]

theorem isCharBoundary_ceilFrom {n : Nat} (h : i + n = s.length) :
    isCharBoundary s (ceilFrom s n i) = true := by
  induction n generalizing i with
  | zero =>
    obtain rfl : i = s.length := h
    exact isCharBoundary_length s
  | succ n ih =>
    rw [ceilFrom]
    split
    next hb => exact hb
    next => exact ih (by omega)

theorem isCharBoundary_ceil (s : Bytes) (index : Nat) :
    isCharBoundary s (ceilCharBoundary s index) = true :=
  isCharBoundary_ceilFrom (Nat.add_sub_cancel' (Nat.min_le_right ..))

/-- The next boundary is the first one. -/
theorem ceilCharBoundary_le (h : index ≤ i)
    (hi : isCharBoundary s i = true) : ceilCharBoundary s index ≤ i := by
  by_contra hlt
  rw [not_boundary_of_lt_ceil h (Nat.not_le.1 hlt)] at hi
  cases hi

theorem floorFrom_spec (s : Bytes) (n : Nat) : isCharBoundary s (floorFrom s n) = true ∧
    ∀ i ≤ n, isCharBoundary s i = true → i ≤ floorFrom s n := by
  induction n with
  | zero => exact ⟨rfl, fun i hi _ => hi⟩
  | succ n ih =>
    rw [floorFrom]
    split
    next hb => exact ⟨hb, fun i hi _ => hi⟩
    next hb =>
      refine ⟨ih.1, fun i hi hib => ih.2 i ?_ hib⟩
      by_contra hlt
      obtain rfl : i = n + 1 := by omega
      exact hb hib

theorem isCharBoundary_floor (s : Bytes) (index : Nat) :
    isCharBoundary s (floorCharBoundary s index) = true :=
  (floorFrom_spec s _).1

theorem isCharBoundary_le (h : isCharBoundary s i = true) : i ≤ s.length := by
  simp only [isCharBoundary, Bool.or_eq_true, beq_iff_eq, Bool.and_eq_true, decide_eq_true_eq] at h
  omega

/-- The last boundary is the greatest one. -/
theorem le_floorCharBoundary (h : i ≤ index)
    (hi : isCharBoundary s i = true) : i ≤ floorCharBoundary s index :=
  (floorFrom_spec s _).2 i (Nat.le_min.2 ⟨h, isCharBoundary_le hi⟩) hi

/-- Inside a character only continuation bytes follow. -/
theorem isContinuation_of_step {s s' : State} (hs : s ≠ .start) (h : step s b = some s') :
    isContinuation b = true := by
  have hall : ∀ s ∈ [State.owes1, .owes2, .owes3, .e0, .ed, .f0, .f4], ∀ n : Fin 256,
      (step s (UInt8.ofFin n)).isSome → isContinuation (UInt8.ofFin n) = true := by
    decide +kernel
  exact hall s (by cases s <;> simp at hs ⊢) b.toFin (h ▸ rfl)

/-- The boundaries of a text are the ends of the texts it starts with. -/
theorem Valid.isCharBoundary_iff (h : Valid s) :
    isCharBoundary s i = true ↔ i ≤ s.length ∧ Valid (s.take i) := by
  obtain hlt | hge := Nat.lt_or_ge i s.length
  · have hsplit : s = s.take i ++ s[i] :: s.drop (i + 1) := by
      rw [← drop_eq_getElem_cons hlt, take_append_drop]
    rw [hsplit, Valid, run_append] at h
    obtain ⟨st, htake, hrest⟩ := Option.bind_eq_some_iff.1 h
    rw [run] at hrest
    obtain ⟨st', hstep, -⟩ := Option.bind_eq_some_iff.1 hrest
    have hget : s.getD i 0 = s[i] := by rw [getD_eq_getElem?_getD, List.getElem?_eq_getElem hlt]; rfl
    have hstart : isContinuation s[i] = false ↔ st = .start := by
      constructor
      · intro hcont
        by_contra hst
        rw [isContinuation_of_step hst hstep] at hcont
        cases hcont
      · rintro rfl
        cases hcont : isContinuation s[i] with
        | false => rfl
        | true => rw [step, lead_of_isContinuation hcont] at hstep; cases hstep
    have hvalid : Valid (s.take i) ↔ st = .start := by rw [Valid, htake, Option.some_inj]
    rw [hvalid, ← hstart, isCharBoundary, hget]
    constructor
    · intro hb
      refine ⟨Nat.le_of_lt hlt, ?_⟩
      obtain rfl | hpos := Nat.eq_zero_or_pos i
      · rw [take_zero] at htake
        exact hstart.2 (Option.some.inj htake).symm
      · simpa [hlt, Nat.ne_of_gt hpos, Nat.ne_of_lt hlt] using hb
    · rintro ⟨-, hb⟩
      simp [hb, hlt]
  · constructor
    · intro hb
      obtain rfl := Nat.le_antisymm (isCharBoundary_le hb) hge
      exact ⟨Nat.le_refl _, by rwa [take_length]⟩
    · rintro ⟨hle, -⟩
      obtain rfl := Nat.le_antisymm hle hge
      exact isCharBoundary_length s

theorem Valid.drop (h : Valid s) (hi : isCharBoundary s i = true) : Valid (s.drop i) := by
  have htake := (h.isCharBoundary_iff.1 hi).2
  rw [← take_append_drop i s, Valid, run_append, htake] at h
  exact h

end Utf8
