-- SUMMARY: The encodings of a secret that are searched for: base64, hexadecimal and URL.
import FlyCockpit.Redact.Table
import Mathlib.Data.FinEnum
import Mathlib.Data.Nat.Digits.Defs

/-!
# Encodings

No encoding has an asterisk in it, and each is longer than the value. A value with an asterisk has no
encoding that lies in what stands before the asterisk, or behind it, written twice: the encoding
would repeat with the length of that text, and with it the encoded asterisk. In base64, where symbols
and bytes are not aligned, the asterisk then shows up shifted by a number of bits, and with any even
shift it sets the highest bit of a byte.
-/

namespace FlyCockpit.Redact

open Bytes List

def symbol (alphabet : Bytes) (i : Nat) : UInt8 := alphabet.getD i 0

def base64Alphabet : Bytes :=
  ascii "ABCDEFGHIJKLMNOPQRSTUVWXYZabcdefghijklmnopqrstuvwxyz0123456789+/"

/-- The standard alphabet with padding: the bytes, filled up to whole groups of three, are a number,
    and the symbols are its digits to the base 64. -/
def base64Encode (bytes : Bytes) : Bytes :=
  let groups := (bytes.length + 2) / 3
  let padding := 3 * groups - bytes.length
  let number := ofBe (bytes ++ replicate padding 0)
  (range (4 * groups)).map fun j =>
    if j + padding < 4 * groups then symbol base64Alphabet (number / 64 ^ (4 * groups - 1 - j) % 64)
    else 0x3D

def hexEncodeWith (bytes alphabet : Bytes) : Bytes :=
  bytes.flatMap fun b : UInt8 => [symbol alphabet (b >>> 4).toNat, symbol alphabet (b &&& 0x0F).toNat]

def lowerHexDigits : Bytes := ascii "0123456789abcdef"

def upperHexDigits : Bytes := ascii "0123456789ABCDEF"

def hexEncode (bytes : Bytes) : Bytes := hexEncodeWith bytes lowerHexDigits

def hexEncodeUpper (bytes : Bytes) : Bytes := hexEncodeWith bytes upperHexDigits

def isAsciiAlphanumeric (b : UInt8) : Bool :=
  0x30 ≤ b && b ≤ 0x39 || 0x41 ≤ b && b ≤ 0x5A || 0x61 ≤ b && b ≤ 0x7A

def isUnreserved (b : UInt8) : Bool := isAsciiAlphanumeric b || (ascii "-._~").contains b

def urlEncode (bytes : Bytes) : Bytes :=
  bytes.flatMap fun b : UInt8 =>
    if isUnreserved b then [b]
    else [0x25, symbol upperHexDigits (b >>> 4).toNat, symbol upperHexDigits (b &&& 0x0F).toNat]

def maxForcedSecretVariants : Nat := 4

/-- Short values have no encodings that are searched for. -/
def encodedSecretVariants (value : Bytes) : List Bytes :=
  if value.length < minRedactionEntryLength then []
  else
    ([base64Encode value, hexEncode value, hexEncodeUpper value, urlEncode value].filter fun variant =>
      variant ≠ [] ∧ variant ≠ value).take maxForcedSecretVariants

variable {literal variant alphabet bytes w rest l : Bytes}

theorem symbol_ne {b : UInt8} (hb : b ∉ alphabet) (hzero : b ≠ 0) (i : Nat) :
    symbol alphabet i ≠ b := by
  rw [symbol, getD_eq_getElem?_getD]
  cases hget : alphabet[i]? with
  | none => exact hzero.symm
  | some x =>
    rintro rfl
    exact hb (mem_of_getElem? hget)

/-! ## Texts written twice -/

/-- What lies in a text written twice and is as long starts in the first copy and ends in the
second. -/
theorem exists_suffix_prefix (h : l <:+: w ++ w) (hle : w.length ≤ l.length) :
    ∃ l₁ l₂, l = l₁ ++ l₂ ∧ l₁ <:+ w ∧ l₂ <+: w := by
  have hwhole : l <:+: w → ∃ l₁ l₂, l = l₁ ++ l₂ ∧ l₁ <:+ w ∧ l₂ <+: w := fun h =>
    ⟨[], l, rfl, nil_suffix, h.eq_of_length_le hle ▸ prefix_rfl⟩
  exact (infix_append_iff.1 h).elim hwhole (·.elim hwhole id)

/-- It repeats with the length of the text. -/
theorem drop_eq_take_of_twice (h : l <:+: w ++ w) (hle : w.length ≤ l.length) :
    l.drop w.length = l.take (l.length - w.length) := by
  obtain ⟨l₁, l₂, rfl, ⟨x, rfl⟩, hl₂⟩ := exists_suffix_prefix h hle
  have hshort := hl₂.length_le
  rw [length_append] at hshort
  rw [length_append, length_append, Nat.add_comm x.length, drop_length_add_append,
    Nat.add_sub_add_left, take_append_of_le_length (by omega)]
  conv_lhs => rw [prefix_iff_eq_take.1 hl₂, drop_take, drop_left]

/-- Every byte of the text is in it. -/
theorem subset_of_twice (h : l <:+: w ++ w) (hle : w.length ≤ l.length) : w ⊆ l := by
  obtain ⟨l₁, l₂, rfl, hl₁, hl₂⟩ := exists_suffix_prefix h hle
  rw [length_append] at hle
  intro b hb
  rw [← take_append_drop l₂.length w, ← prefix_iff_eq_take.1 hl₂, mem_append] at hb
  rcases hb with hb | hb
  · exact mem_append_right _ hb
  · have hrest : w.drop l₂.length <:+ l₁ :=
      suffix_of_suffix_length_le (drop_suffix ..) hl₁ (by rw [length_drop]; omega)
    exact mem_append_left _ (hrest.subset hb)

/-- What has no asterisk lies on one side of one. -/
theorem before_or_behind {v x y : Bytes} (hv : 0x2A ∉ v) (h : v <:+: x ++ 0x2A :: y) :
    v <:+: x ∨ v <:+: y := by
  rcases infix_append_iff.1 h with h | h | ⟨l₁, l₂, rfl, hl₁, hl₂⟩
  · exact .inl h
  · rcases infix_cons_iff.1 h with h | h
    · cases v with
      | nil => exact .inl nil_infix
      | cons b v => exact absurd ((cons_prefix_cons.1 h).1 ▸ mem_cons_self) hv
    · exact .inr h
  · cases l₂ with
    | nil =>
      rw [append_nil]
      exact .inl hl₁.isInfix
    | cons b l₂ =>
      exact absurd (mem_append_right _ ((cons_prefix_cons.1 hl₂).1 ▸ mem_cons_self)) hv

theorem prefix_drop_iff_of_twice {p : Bytes} {k : Nat} (h : l <:+: w ++ w)
    (hle : w.length + k + p.length ≤ l.length) : p <+: l.drop (w.length + k) ↔ p <+: l.drop k := by
  rw [← drop_drop, drop_eq_take_of_twice h (by omega), drop_take, prefix_take_iff,
    and_iff_left (by omega)]

/-! ## Hexadecimal -/

theorem length_hexEncodeWith (bytes alphabet : Bytes) :
    (hexEncodeWith bytes alphabet).length = 2 * bytes.length := by
  induction bytes with
  | nil => rfl
  | cons b bytes ih =>
    rw [hexEncodeWith, flatMap_cons, length_append, ← hexEncodeWith, ih]
    simp only [length_cons, length_nil]
    omega

theorem asterisk_not_mem_hexEncodeWith (h : 0x2A ∉ alphabet) :
    0x2A ∉ hexEncodeWith bytes alphabet := by
  have hsymbol : ∀ i, 0x2A ≠ symbol alphabet i := fun i => (symbol_ne h (by decide) i).symm
  simp [hexEncodeWith, hsymbol]

/-! ## URL -/

theorem asterisk_not_mem_urlEncode (bytes : Bytes) : 0x2A ∉ urlEncode bytes := by
  have hsymbol : ∀ i, 0x2A ≠ symbol upperHexDigits i := fun i =>
    (symbol_ne (by decide) (by decide) i).symm
  rw [urlEncode, mem_flatMap]
  rintro ⟨b, -, hb⟩
  split_ifs at hb with hunreserved
  · rw [← mem_singleton.1 hb] at hunreserved
    exact absurd hunreserved (by decide)
  · simp [hsymbol] at hb

/-- A value that the encoding changes has a percent sign in its encoding. -/
theorem percent_mem_urlEncode (h : urlEncode bytes ≠ bytes) : 0x25 ∈ urlEncode bytes := by
  by_contra hnot
  refine h ?_
  rw [urlEncode, mem_flatMap] at hnot
  have hall : ∀ b ∈ bytes, isUnreserved b = true := by
    intro b hb
    by_contra hreserved
    exact hnot ⟨b, hb, by rw [if_neg hreserved]; exact mem_cons_self⟩
  rw [urlEncode, flatMap_congr (g := fun b => [b]) fun b hb => if_pos (hall b hb),
    flatMap_singleton']

theorem urlEncode_append (l r : Bytes) : urlEncode (l ++ r) = urlEncode l ++ urlEncode r := flatMap_append

theorem urlEncode_eq_or_lt (bytes : Bytes) :
    urlEncode bytes = bytes ∨ bytes.length < (urlEncode bytes).length := by
  induction bytes with
  | nil => exact .inl rfl
  | cons b bytes ih =>
    rw [urlEncode, flatMap_cons, ← urlEncode]
    split_ifs
    · exact ih.imp (congrArg (b :: ·)) fun h => Nat.succ_lt_succ h
    · refine .inr ?_
      simp only [length_append, length_cons, length_nil]
      rcases ih with h | h
      · rw [h]
        omega
      · omega

/-- The encoding of an asterisk is in the encoding of a text only if the asterisk is in the text. -/
theorem asterisk_mem_of_urlEncode {bytes : Bytes} (h : [0x25, 0x32, 0x41] <:+: urlEncode bytes) :
    0x2A ∈ bytes := by
  have hnibbles : ∀ b : UInt8, symbol upperHexDigits (b >>> 4).toNat = 0x32 →
      symbol upperHexDigits (b &&& 0x0F).toNat = 0x41 → b = 0x2A := by decide +kernel
  have hpercent : ∀ i, symbol upperHexDigits i ≠ 0x25 := symbol_ne (by decide) (by decide)
  induction bytes with
  | nil => exact absurd h.length_le (by decide)
  | cons b bytes ih =>
    rw [urlEncode, flatMap_cons, ← urlEncode] at h
    split_ifs at h with hunreserved
    · rcases infix_cons_iff.1 h with h | h
      · rw [← (cons_prefix_cons.1 h).1] at hunreserved
        exact absurd hunreserved (by decide)
      · exact mem_cons_of_mem _ (ih h)
    · simp only [cons_append, nil_append, infix_cons_iff, cons_prefix_cons] at h
      rcases h with ⟨-, h₁, h₂, -⟩ | ⟨h, -⟩ | ⟨h, -⟩ | h
      · rw [hnibbles b h₁.symm h₂.symm]
        exact mem_cons_self
      · exact absurd h.symm (hpercent _)
      · exact absurd h.symm (hpercent _)
      · exact mem_cons_of_mem _ (ih h)

theorem urlEncode_not_within (hliteral : literal = w ++ 0x2A :: rest ∨ literal = rest ++ 0x2A :: w) :
    ¬urlEncode literal <:+: w ++ w := by
  intro h
  have hstar : ∀ r, urlEncode (0x2A :: r) = [0x25, 0x32, 0x41] ++ urlEncode r := fun _ => rfl
  have hw : w.length ≤ (urlEncode w).length :=
    (urlEncode_eq_or_lt w).elim (fun h => Nat.le_of_eq (congrArg length h).symm) Nat.le_of_lt
  have hlength : (urlEncode literal).length = (urlEncode w).length + 3 + (urlEncode rest).length := by
    rcases hliteral with rfl | rfl <;> simp [urlEncode_append, hstar] <;> omega
  have hle := h.length_le
  rw [length_append] at hle
  -- The encoding of the asterisk repeats in the encoding of the text.
  have hescaped : [0x25, 0x32, 0x41] <:+: urlEncode w := by
    rcases hliteral with rfl | rfl
    · have hrepeats := prefix_drop_iff_of_twice (p := [0x25, 0x32, 0x41])
        (k := (urlEncode w).length - w.length) h (by simp only [length_cons, length_nil]; omega)
      rw [Nat.add_sub_cancel' hw, urlEncode_append, hstar, drop_left,
        drop_append_of_le_length (Nat.sub_le ..)] at hrepeats
      refine (prefix_of_prefix_length_le (hrepeats.1 (prefix_append ..)) (prefix_append ..)
        ?_).isInfix.trans (drop_suffix ..).isInfix
      rw [length_drop, length_cons, length_cons, length_singleton]
      omega
    · have hrepeats := prefix_drop_iff_of_twice (p := [0x25, 0x32, 0x41])
        (k := (urlEncode rest).length) h (by simp only [length_cons, length_nil]; omega)
      rw [urlEncode_append, hstar, drop_left, Nat.add_comm, drop_length_add_append] at hrepeats
      have hstarts := hrepeats.2 (prefix_append ..)
      rw [drop_append, drop_of_length_le (by simp only [length_cons, length_nil]; omega)] at hstarts
      exact hstarts.isInfix.trans (drop_suffix ..).isInfix
  exact asterisk_not_mem_urlEncode literal
    (subset_of_twice h (by omega) (asterisk_mem_of_urlEncode hescaped))

/-! ## Base64 -/

theorem base64Alphabet_spec : base64Alphabet.length = 64 ∧ base64Alphabet.Nodup ∧
    ∀ b ∈ base64Alphabet, b ≠ 0x2A ∧ b ≠ 0x3D ∧ b < 0x80 := by decide +kernel

theorem base64_symbol (n : Nat) : ∃ hn : n % 64 < base64Alphabet.length,
    symbol base64Alphabet (n % 64) = base64Alphabet[n % 64] :=
  have hn : n % 64 < base64Alphabet.length := base64Alphabet_spec.1 ▸ Nat.mod_lt n (by decide)
  ⟨hn, by rw [symbol, getD_eq_getElem?_getD, List.getElem?_eq_getElem hn, Option.getD_some]⟩

theorem length_base64Encode (bytes : Bytes) :
    (base64Encode bytes).length = 4 * ((bytes.length + 2) / 3) := by
  rw [base64Encode, length_map, length_range]

theorem asterisk_not_mem_base64Encode (bytes : Bytes) : 0x2A ∉ base64Encode bytes := by
  rw [base64Encode, mem_map]
  rintro ⟨j, -, hj⟩
  split_ifs at hj
  · obtain ⟨hn, hat⟩ := base64_symbol _
    exact (base64Alphabet_spec.2.2 _ (getElem_mem hn)).1 (hat.symm.trans hj)
  · cases hj

theorem ofBe_byte {t : Nat} {b : UInt8} (h : bytes.reverse[t]? = some b) :
    ofBe bytes / 2 ^ (8 * t) % 256 = b.toNat := by
  induction bytes using reverseRecOn generalizing t with
  | nil => simp at h
  | append_singleton bytes x ih =>
    rw [reverse_append, reverse_singleton, singleton_append] at h
    have hx := x.toNat_lt
    rw [ofBe_concat]
    cases t with
    | zero =>
      cases h
      rw [Nat.mul_zero, pow_zero, Nat.div_one]
      omega
    | succ t =>
      rw [show 8 * (t + 1) = 8 + 8 * t by omega, pow_add, ← Nat.div_div_eq_div_mul,
        show (ofBe bytes * 256 + x.toNat) / 2 ^ 8 = ofBe bytes by omega]
      exact ih h

section Repeating

variable (h : base64Encode literal <:+: w ++ w) (hlt : w.length < literal.length)

include h hlt

/-- An encoding that repeats has no padding, and the digits that its symbols are repeat. -/
theorem digits_repeat : 3 ∣ literal.length ∧ w ⊆ base64Alphabet ∧
    ∀ i, i + w.length < (base64Encode literal).length →
      ofBe literal / 64 ^ i % 64 = ofBe literal / 64 ^ (i + w.length) % 64 := by
  have hlength := length_base64Encode literal
  have hle := h.length_le
  rw [length_append] at hle
  generalize hcount : (base64Encode literal).length = n at hle hlength ⊢
  have hrepeats : ∀ j, j + w.length < n →
      (base64Encode literal)[j + w.length]? = (base64Encode literal)[j]? := by
    intro j hj
    have hget := congrArg (·[j]?) (drop_eq_take_of_twice h (by omega))
    simp only [List.getElem?_drop] at hget
    rwa [List.getElem?_take_of_lt (by omega), Nat.add_comm] at hget
  have hdvd : 3 ∣ literal.length := by
    by_contra hdvd
    have hlast := hrepeats (n - 1 - w.length) (by omega)
    simp only [base64Encode, List.getElem?_map] at hlast
    rw [getElem?_range (by omega), getElem?_range (by omega), Option.map_some, Option.map_some,
      if_neg (by omega), if_pos (by omega)] at hlast
    obtain ⟨hn, hat⟩ := base64_symbol _
    exact (base64Alphabet_spec.2.2 _ (getElem_mem hn)).2.1 (hat.symm.trans (Option.some.inj hlast).symm)
  have hget : ∀ i < n,
      (base64Encode literal)[n - 1 - i]? =
        some (symbol base64Alphabet (ofBe literal / 64 ^ i % 64)) := by
    intro i hi
    simp only [base64Encode, List.getElem?_map]
    rw [getElem?_range (by omega), Option.map_some, if_pos (by omega),
      show 3 * ((literal.length + 2) / 3) - literal.length = 0 by omega, replicate_zero, append_nil,
      ← hlength, Nat.sub_sub_self (by omega)]
  refine ⟨hdvd, fun b hb => ?_, fun i hi => ?_⟩
  · obtain ⟨j, hj, rfl⟩ := getElem_of_mem (subset_of_twice h (by omega) hb)
    have hj' := hget (n - 1 - j) (by omega)
    obtain ⟨hn, hat⟩ := base64_symbol (ofBe literal / 64 ^ (n - 1 - j))
    rw [Nat.sub_sub_self (by omega), List.getElem?_eq_getElem hj, hat, Option.some_inj] at hj'
    exact hj' ▸ getElem_mem _
  · have hsame := hrepeats (n - 1 - (i + w.length)) (by omega)
    obtain ⟨hn, hat⟩ := base64_symbol (ofBe literal / 64 ^ i)
    obtain ⟨hn', hat'⟩ := base64_symbol (ofBe literal / 64 ^ (i + w.length))
    rw [show n - 1 - (i + w.length) + w.length =
      n - 1 - i by omega, hget i (by omega), hget _ hi, hat, hat',
      Option.some_inj, base64Alphabet_spec.2.1.getElem_inj_iff] at hsame
    exact hsame

/-- Eight bits at an even place repeat. -/
theorem bits_repeat {s : Nat} (hs : s % 2 = 0)
    (hle : s / 6 + 1 + w.length < (base64Encode literal).length) :
    ofBe literal / 2 ^ s % 256 = ofBe literal / 2 ^ (s + 6 * w.length) % 256 := by
  obtain ⟨-, -, hdigits⟩ := digits_repeat h hlt
  have h₁ := hdigits (s / 6) (by omega)
  have h₂ := hdigits (s / 6 + 1) hle
  have hpow : ∀ k, 2 ^ (s + 6 * k) = 64 ^ (s / 6 + k) * 2 ^ (s % 6) := by
    intro k
    rw [show 64 = 2 ^ 6 from rfl, ← pow_mul, ← pow_add]
    congr 1
    omega
  rw [Nat.add_right_comm, pow_succ, pow_succ, ← Nat.div_div_eq_div_mul, ← Nat.div_div_eq_div_mul] at h₂
  have hs0 := hpow 0
  rw [Nat.mul_zero, Nat.add_zero, Nat.add_zero] at hs0
  rw [hpow, hs0, ← Nat.div_div_eq_div_mul, ← Nat.div_div_eq_div_mul]
  generalize ofBe literal / 64 ^ (s / 6) = y at h₁ h₂ ⊢
  generalize ofBe literal / 64 ^ (s / 6 + w.length) = z at h₁ h₂ ⊢
  have hr : s % 6 = 0 ∨ s % 6 = 2 ∨ s % 6 = 4 := by omega
  rcases hr with hr | hr | hr <;> (rw [hr]; omega)

end Repeating

/-- Eight bits at an even place that are an asterisk: the byte they end in is one, or is not ASCII. -/
theorem not_ascii_of_asterisk {n s : Nat} (hs : s % 2 = 0) (h : n / 2 ^ s % 256 = 0x2A) :
    n / 2 ^ (8 * (s / 8)) % 256 = 0x2A ∨ 0x80 ≤ n / 2 ^ (8 * (s / 8)) % 256 := by
  have hpow : 2 ^ s = 2 ^ (8 * (s / 8)) * 2 ^ (s % 8) := by rw [← pow_add, Nat.div_add_mod]
  rw [hpow, ← Nat.div_div_eq_div_mul] at h
  generalize n / 2 ^ (8 * (s / 8)) = k at h ⊢
  have hr : s % 8 = 0 ∨ s % 8 = 2 ∨ s % 8 = 4 ∨ s % 8 = 6 := by omega
  rcases hr with hr | hr | hr | hr <;> (rw [hr] at h; omega)

theorem base64Encode_not_within (hliteral : literal = w ++ 0x2A :: rest ∨ literal = rest ++ 0x2A :: w) :
    ¬base64Encode literal <:+: w ++ w := by
  intro h
  have hlength : literal.length = w.length + 1 + rest.length := by
    rcases hliteral with rfl | rfl <;> simp <;> omega
  have hencoded := length_base64Encode literal
  have hle := h.length_le
  rw [length_append] at hle
  have hlt : w.length < literal.length := by omega
  obtain ⟨hdvd, hw, -⟩ := digits_repeat h hlt
  obtain ⟨s, t, hs, hbits, ht, hbyte⟩ : ∃ s t, s % 2 = 0 ∧ ofBe literal / 2 ^ s % 256 = 0x2A ∧
      t < w.length ∧ literal.reverse[s / 8]? = w.reverse[t]? := by
    rcases hliteral with rfl | rfl
    · refine ⟨8 * rest.length + 6 * w.length, 6 * w.length / 8 - 1, by omega, ?_, by omega, ?_⟩
      · rw [← bits_repeat h hlt (by omega) (by omega)]
        exact ofBe_byte (b := 0x2A) (by simp)
      · rw [reverse_append, reverse_cons, append_assoc, List.getElem?_append_right (by simp; omega),
          length_reverse, singleton_append, show (8 * rest.length + 6 * w.length) / 8 - rest.length =
            6 * w.length / 8 - 1 + 1 by omega, List.getElem?_cons_succ]
    · refine ⟨2 * w.length, w.length / 4, by omega, ?_, by omega, ?_⟩
      · rw [bits_repeat h hlt (by omega) (by omega), show 2 * w.length + 6 * w.length = 8 * w.length by omega]
        exact ofBe_byte (b := 0x2A) (by simp)
      · rw [reverse_append, List.getElem?_append_left (by simp; omega), reverse_cons,
          List.getElem?_append_left (by simp; omega), show 2 * w.length / 8 = w.length / 4 by omega]
  rw [← length_reverse] at ht
  rw [List.getElem?_eq_getElem ht] at hbyte
  obtain ⟨hstar, -, hascii⟩ := base64Alphabet_spec.2.2 _ (hw (mem_reverse.1 (getElem_mem ht)))
  have hor := not_ascii_of_asterisk hs hbits
  rw [ofBe_byte hbyte] at hor
  rcases hor with hor | hor
  · exact hstar (UInt8.toNat_inj.1 hor)
  · exact absurd (UInt8.lt_iff_toNat_lt.1 hascii) (Nat.not_lt.2 hor)

/-! ## What all encodings share -/

theorem encoded_cases (h : variant ∈ encodedSecretVariants literal) :
    4 ≤ literal.length ∧ variant ≠ literal ∧ (variant = base64Encode literal ∨
      (∃ alphabet, 0x2A ∉ alphabet ∧ variant = hexEncodeWith literal alphabet) ∨
      variant = urlEncode literal) := by
  rw [encodedSecretVariants] at h
  split_ifs at h with hshort
  · cases h
  obtain ⟨hmem, hkept⟩ := mem_filter.1 (mem_of_mem_take h)
  refine ⟨Nat.not_lt.1 hshort, (of_decide_eq_true hkept).2, ?_⟩
  simp only [mem_cons, not_mem_nil, or_false] at hmem
  obtain rfl | rfl | rfl | rfl := hmem
  · exact .inl rfl
  · exact .inr (.inl ⟨lowerHexDigits, by decide, rfl⟩)
  · exact .inr (.inl ⟨upperHexDigits, by decide, rfl⟩)
  · exact .inr (.inr rfl)

theorem asterisk_not_mem_of_encoded (h : variant ∈ encodedSecretVariants literal) : 0x2A ∉ variant := by
  obtain ⟨-, -, rfl | ⟨alphabet, halphabet, rfl⟩ | rfl⟩ := encoded_cases h
  · exact asterisk_not_mem_base64Encode literal
  · exact asterisk_not_mem_hexEncodeWith halphabet
  · exact asterisk_not_mem_urlEncode literal

theorem length_lt_of_encoded (h : variant ∈ encodedSecretVariants literal) :
    literal.length < variant.length := by
  obtain ⟨hlong, hne, rfl | ⟨alphabet, -, rfl⟩ | rfl⟩ := encoded_cases h
  · rw [length_base64Encode]
    omega
  · rw [length_hexEncodeWith]
    omega
  · exact (urlEncode_eq_or_lt literal).resolve_left hne

theorem encoded_not_within (h : variant ∈ encodedSecretVariants literal)
    (hliteral : literal = w ++ 0x2A :: rest ∨ literal = rest ++ 0x2A :: w) : ¬variant <:+: w ++ w := by
  obtain ⟨-, -, rfl | ⟨alphabet, -, rfl⟩ | rfl⟩ := encoded_cases h
  · exact base64Encode_not_within hliteral
  · intro hwithin
    have hle := hwithin.length_le
    rw [length_hexEncodeWith, length_append] at hle
    rcases hliteral with rfl | rfl <;> simp at hle <;> omega
  · exact urlEncode_not_within hliteral

end FlyCockpit.Redact
