-- SUMMARY: Texts made of delimited parts, and the patterns of SQL's LIKE.
import Mathlib.Data.List.Infix
import Mathlib.Algebra.GroupWithZero.Nat
import FlyCockpit.Lib.Lines

/-!
# Texts

A text is a list of characters. The first part is about texts that join parts with a delimiter no
part contains: such a text determines its parts. The second part is the matching of LIKE, as
SQLite does it without an ESCAPE clause: `%` stands for any text, `_` for any character, ASCII
letters match in either case, and a zero character ends both the pattern and the text.
-/

abbrev Text := List Char

namespace Text

open List

/-- Every occurrence of a character replaced by a text. -/
def replaceChar (c : Char) (new : Text) (t : Text) : Text :=
  t.flatMap fun x => if x = c then new else [x]

/-- The number of bytes of the text in UTF-8. -/
def utf8Length (t : Text) : Nat := (t.map Char.utf8Size).sum

/-- `str::lines`. -/
def lines (t : Text) : List Text := Lines.lines (· == '\n') (· == '\r') t

/-! ## Cutting -/

/-- The characters with the White_Space property. -/
def isWhitespace (c : Char) : Bool :=
  let n := c.toNat
  9 ≤ n && n ≤ 13 || n = 0x20 || n = 0x85 || n = 0xA0 || n = 0x1680 || 0x2000 ≤ n && n ≤ 0x200A ||
    n = 0x2028 || n = 0x2029 || n = 0x202F || n = 0x205F || n = 0x3000

def trim (t : Text) : Text :=
  ((t.dropWhile isWhitespace).reverse.dropWhile isWhitespace).reverse

/-- The words between white space. -/
def splitWhitespace (t : Text) : List Text := (t.splitOnP isWhitespace).filter (· ≠ [])

/-- What stands before and behind the first delimiter. -/
def splitOnce (d : Char) (t : Text) : Option (Text × Text) :=
  if d ∈ t then some (t.takeWhile (· ≠ d), (t.dropWhile (· ≠ d)).tail) else none

/-! ## Delimited parts -/

/-- Each part followed by the delimiter. -/
def delimited (d : Char) (parts : List Text) : Text :=
  parts.flatMap fun p => p ++ [d]

@[simp] theorem delimited_nil (d : Char) : delimited d [] = [] := rfl

theorem delimited_cons (d : Char) (p : Text) (ps : List Text) :
    delimited d (p :: ps) = p ++ d :: delimited d ps := by
  simp [delimited]

theorem delimited_append (d : Char) (ps qs : List Text) :
    delimited d (ps ++ qs) = delimited d ps ++ delimited d qs :=
  flatMap_append

variable {d c : Char} {a t s : Text}

theorem map_delimited {f : Char → Char} (hd : f d = d) (parts : List Text) :
    (delimited d parts).map f = delimited d (parts.map (List.map f)) := by
  induction parts with
  | nil => rfl
  | cons p ps ih => simp [delimited_cons, ih, hd]

/-- The first delimiter of one text meets the first delimiter of the other. -/
theorem prefix_of_delimiter {b u v : Text} (ha : d ∉ a) (hb : d ∉ b)
    (h : a ++ d :: u <+: b ++ d :: v) : a = b ∧ u <+: v := by
  induction a generalizing b with
  | nil =>
    cases b with
    | nil => exact ⟨rfl, (cons_prefix_cons.1 h).2⟩
    | cons c b =>
      obtain ⟨rfl, -⟩ := cons_prefix_cons.1 h
      exact absurd mem_cons_self hb
  | cons c a ih =>
    cases b with
    | nil =>
      obtain ⟨rfl, -⟩ := cons_prefix_cons.1 h
      exact absurd mem_cons_self ha
    | cons c' b =>
      obtain ⟨rfl, htail⟩ := cons_prefix_cons.1 h
      obtain ⟨rfl, huv⟩ := ih (fun hm => ha (mem_cons_of_mem _ hm))
        (fun hm => hb (mem_cons_of_mem _ hm)) htail
      exact ⟨rfl, huv⟩

/-- Delimited parts in front of a text are the first of its own parts. -/
theorem delimited_prefix_iff {ps qs : List Text} (hps : ∀ p ∈ ps, d ∉ p)
    (hqs : ∀ q ∈ qs, d ∉ q) (ht : d ∉ t) :
    delimited d ps <+: delimited d qs ++ t ↔ ps <+: qs := by
  constructor
  · intro h
    induction ps generalizing qs with
    | nil => exact nil_prefix
    | cons p ps ih =>
      obtain ⟨hp, hps⟩ := forall_mem_cons.1 hps
      rw [delimited_cons] at h
      cases qs with
      | nil => exact absurd (h.subset (by simp)) ht
      | cons q qs =>
        obtain ⟨hq, hrest⟩ := forall_mem_cons.1 hqs
        rw [delimited_cons, append_assoc, cons_append] at h
        obtain ⟨rfl, htail⟩ := prefix_of_delimiter hp hq h
        exact cons_prefix_cons.2 ⟨rfl, ih hps hrest htail⟩
  · rintro ⟨rest, rfl⟩
    rw [delimited_append, append_assoc]
    exact prefix_append _ _

/-- A text without the delimiter behind delimited parts leaves the parts recognisable. -/
theorem delimited_append_inj {ps qs : List Text} {u : Text} (hps : ∀ p ∈ ps, d ∉ p)
    (hqs : ∀ q ∈ qs, d ∉ q) (ht : d ∉ t) (hu : d ∉ u) :
    delimited d ps ++ t = delimited d qs ++ u ↔ ps = qs ∧ t = u := by
  constructor
  · intro h
    have hpq : ps <+: qs := (delimited_prefix_iff hps hqs hu).1 (h ▸ prefix_append _ _)
    have hqp : qs <+: ps := (delimited_prefix_iff hqs hps ht).1 (h ▸ prefix_append _ _)
    obtain rfl := hpq.eq_of_length (Nat.le_antisymm hpq.length_le hqp.length_le)
    exact ⟨rfl, append_cancel_left h⟩
  · rintro ⟨rfl, rfl⟩
    rfl

/-! ## LIKE -/

def nul : Char := Char.ofNat 0

/-- What a reader that stops at a zero character sees. -/
def cString (t : Text) : Text := t.takeWhile (· ≠ nul)

/-- The pattern against the whole text. -/
def like : Text → Text → Bool
  | [], s => s.isEmpty
  | p :: ps, s =>
    if p = '%' then s.tails.any (like ps)
    else match s with
      | [] => false
      | c :: cs => (p == '_' || p.toLower == c.toLower) && like ps cs

/-- The longest pattern the operator takes, in bytes. -/
def likePatternLimit : Nat := 50000

/-- The operator; it has no answer for a pattern that is too long. -/
def likeOperator (pattern s : Text) : Option Bool :=
  if likePatternLimit < utf8Length pattern then none
  else some (like (cString pattern) (cString s))

theorem like_any (s : Text) : like ['%'] s = true := by
  have hnil : [] ∈ s.tails := (mem_tails _ _).2 nil_suffix
  exact any_eq_true.2 ⟨[], hnil, rfl⟩

theorem like_percent {ps : Text} : like ('%' :: ps) s = true ↔ ∃ t, t <:+ s ∧ like ps t = true := by
  simp [like, any_eq_true]

theorem like_char {p : Char} {ps : Text} (hp : p ≠ '%') : like (p :: ps) s = true ↔
      ∃ c cs, s = c :: cs ∧ (p = '_' ∨ p.toLower = c.toLower) ∧ like ps cs = true := by
  cases s with
  | nil => simp [like, hp]
  | cons c cs => simp [like, hp]

/-- Patterns one behind the other match texts one behind the other. -/
theorem like_append {p q : Text} (hp : like p s = true) (hq : like q t = true) :
    like (p ++ q) (s ++ t) = true := by
  induction p generalizing s with
  | nil =>
    obtain rfl := isEmpty_iff.1 hp
    exact hq
  | cons c p ih =>
    by_cases hc : c = '%'
    · subst hc
      obtain ⟨u, ⟨r, rfl⟩, hu⟩ := like_percent.1 hp
      exact like_percent.2 ⟨u ++ t, ⟨r, by simp⟩, ih hu⟩
    · obtain ⟨x, xs, rfl, hx, hxs⟩ := (like_char hc).1 hp
      exact (like_char hc).2 ⟨x, xs ++ t, rfl, hx, ih hxs⟩

/-- A text matches itself, whatever wildcards it contains. -/
theorem like_self (p : Text) : like p p = true := by
  induction p with
  | nil => rfl
  | cons c p ih =>
    by_cases hc : c = '%'
    · subst hc
      exact like_percent.2 ⟨p, suffix_cons _ _, ih⟩
    · exact (like_char hc).2 ⟨c, p, rfl, .inr rfl, ih⟩

/-- Without wildcards in front, `%` at the end asks for a prefix up to case. -/
theorem like_literal_iff {p : Text} (hp : ∀ c ∈ p, c ≠ '%' ∧ c ≠ '_') :
    like (p ++ ['%']) s = true ↔ p.map Char.toLower <+: s.map Char.toLower := by
  induction p generalizing s with
  | nil => simp [like_any]
  | cons c p ih =>
    obtain ⟨⟨hany, hone⟩, hp⟩ := forall_mem_cons.1 hp
    rw [cons_append, like_char hany]
    cases s with
    | nil => simp
    | cons x xs => simp [ih hp, hone]

/-! ## Zero characters -/

theorem cString_append_of_mem (h : nul ∈ t) (u : Text) : cString (t ++ u) = cString t := by
  induction t with
  | nil => exact absurd h (not_mem_nil)
  | cons c t ih =>
    by_cases hc : c = nul
    · simp [cString, hc]
    · have hmem : nul ∈ t := by simpa [Ne.symm hc] using h
      simpa [cString, hc] using ih hmem

theorem cString_append_of_not_mem (h : nul ∉ t) (u : Text) : cString (t ++ u) = t ++ cString u :=
  takeWhile_append_of_pos fun _ hc => decide_eq_true fun heq => h (heq ▸ hc)

theorem cString_of_not_mem (h : nul ∉ t) : cString t = t := by
  simpa [cString] using cString_append_of_not_mem h []

theorem cString_isPrefix_self (t : Text) : cString t <+: t := takeWhile_prefix _

/-- A piece of a pattern may be exchanged for a text it matches, wherever it stands. -/
theorem like_cString_middle {b : Text} (h : like a b = true) (ha : nul ∉ a) (hb : nul ∉ b)
    (pre post u : Text) :
    like (cString (pre ++ (a ++ (post ++ ['%'])))) (cString (pre ++ (b ++ (post ++ u)))) = true := by
  by_cases hpre : nul ∈ pre
  · rw [cString_append_of_mem hpre, cString_append_of_mem hpre]
    exact like_self _
  · rw [cString_append_of_not_mem hpre, cString_append_of_not_mem hpre,
      cString_append_of_not_mem ha, cString_append_of_not_mem hb]
    refine like_append (like_self pre) (like_append h ?_)
    by_cases hpost : nul ∈ post
    · rw [cString_append_of_mem hpost, cString_append_of_mem hpost]
      exact like_self _
    · rw [cString_append_of_not_mem hpost, cString_append_of_not_mem hpost]
      refine like_append (like_self post) ?_
      rw [cString_of_not_mem (by decide)]
      exact like_any _

/-- Behind a zero character nothing is compared. -/
theorem like_cString_behind (h : nul ∈ a) (pre u v : Text) :
    like (cString (pre ++ (a ++ u))) (cString (pre ++ (a ++ v))) = true := by
  have hmem : nul ∈ pre ++ a := mem_append_right _ h
  rw [← append_assoc, ← append_assoc, cString_append_of_mem hmem, cString_append_of_mem hmem]
  exact like_self _

/-! ## Letters -/

/-- The letters of LIKE are those of ASCII. -/
theorem isAlpha_iff :
    c.isAlpha = true ↔ (65 ≤ c.toNat ∧ c.toNat ≤ 90) ∨ (97 ≤ c.toNat ∧ c.toNat ≤ 122) :=
  (Bool.or_eq_true_iff ..).trans (or_congr decide_eq_true_iff
    ((Bool.and_eq_true_iff ..).trans (and_congr decide_eq_true_iff decide_eq_true_iff)))

theorem toLower_of_not_alpha (h : c.isAlpha = false) : c.toLower = c := by
  obtain ⟨hupper, -⟩ := Bool.or_eq_false_iff.1 h
  exact dif_neg (of_decide_eq_false hupper)

/-- Only a character that is no letter folds to one that is none. -/
theorem eq_of_toLower_eq (hd : d.isAlpha = false) (h : c.toLower = d) : c = d := by
  by_cases hupper : c.val ≥ 'A'.val ∧ c.val ≤ 'Z'.val
  · have hlo : 65 ≤ c.toNat := hupper.1
    have hhi : c.toNat ≤ 90 := hupper.2
    have hval : d.val = c.val + ('a'.val - 'A'.val) := by
      rw [← h]
      exact congrArg Char.val (dif_pos hupper)
    have hnat : d.toNat = c.toNat + 32 := by
      have h32 : ('a'.val - 'A'.val).toNat = 32 := by decide
      rw [Char.toNat, hval, UInt32.toNat_add, h32]
      exact Nat.mod_eq_of_lt (by change c.toNat + 32 < _; omega)
    have halpha : d.isAlpha = true := isAlpha_iff.2 (.inr (by omega))
    rw [hd] at halpha
    cases halpha
  · rw [← h]
    exact Eq.symm (show c.toLower = c from dif_neg hupper)

/-- A letter in the other case. -/
def otherCase (c : Char) : Char := if c.isUpper then c.toLower else c.toUpper

/-- LIKE does not tell a letter from the same letter in the other case. -/
theorem otherCase_spec (h : c.isAlpha = true) :
    otherCase c ≠ c ∧ (otherCase c).isAlpha = true ∧ c.toLower = (otherCase c).toLower := by
  have hletters : ∀ n < 128, (Char.ofNat n).isAlpha = true →
      otherCase (Char.ofNat n) ≠ Char.ofNat n ∧ (otherCase (Char.ofNat n)).isAlpha = true ∧
        (Char.ofNat n).toLower = (otherCase (Char.ofNat n)).toLower := by
    decide
  have hlt : c.toNat < 128 := by
    rcases isAlpha_iff.1 h with hcase | hcase <;> omega
  have hc : Char.ofNat c.toNat = c := Char.ofNat_toNat c
  exact hc ▸ hletters c.toNat hlt (hc.symm ▸ h)

end Text
