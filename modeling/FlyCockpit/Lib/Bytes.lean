-- SUMMARY: Byte strings, fixed-width big-endian integers and checked machine addition.
import Mathlib.Data.List.Basic
import Mathlib.Tactic.Ring
import Mathlib.Tactic.Linarith

/-!
# Byte strings

Wire formats are sequences of bytes in which integers occupy a fixed number of bytes, most
significant byte first. `toBe w n` writes `n` into `w` bytes and `ofBe` reads a byte string back;
the two are inverse on the integers that fit.
-/

abbrev Bytes := List UInt8

namespace Bytes

open List

/-- The `w` low-order bytes of `n`, most significant first. -/
def toBe : Nat → Nat → Bytes
  | 0, _ => []
  | w + 1, n => toBe w (n / 256) ++ [UInt8.ofNat (n % 256)]

/-- The integer a byte string spells, most significant byte first. -/
def ofBe (bytes : Bytes) : Nat :=
  bytes.foldl (fun acc b => acc * 256 + b.toNat) 0

@[simp] theorem toBe_length (w n : Nat) : (toBe w n).length = w := by
  induction w generalizing n with
  | zero => rfl
  | succ w ih => simp [toBe, ih]

theorem ofBe_concat (bytes : Bytes) (b : UInt8) :
    ofBe (bytes ++ [b]) = ofBe bytes * 256 + b.toNat := by
  simp [ofBe, foldl_append]

/-- Reading back what was written gives the integer reduced to the width. -/
theorem ofBe_toBe_mod (w n : Nat) : ofBe (toBe w n) = n % 256 ^ w := by
  induction w generalizing n with
  | zero => simp [toBe, ofBe, Nat.mod_one]
  | succ w ih =>
    have hmod : (UInt8.ofNat (n % 256)).toNat = n % 256 := by simp
    rw [toBe, ofBe_concat, ih, hmod, pow_succ', Nat.mod_mul]
    ring

variable {n i : Nat} {l r : Bytes}

theorem ofBe_toBe {w : Nat} (h : n < 256 ^ w) : ofBe (toBe w n) = n := by
  rw [ofBe_toBe_mod, Nat.mod_eq_of_lt h]

/-! ## Slices -/

/-- The `n` bytes from position `i`. -/
def slice (bytes : Bytes) (i n : Nat) : Bytes :=
  (bytes.drop i).take n

@[simp] theorem drop_skip (h : l.length ≤ i) : (l ++ r).drop i = r.drop (i - l.length) := by
  simp [drop_append, drop_eq_nil_of_le h]

/-- A slice behind a field is a slice of what follows the field. -/
@[simp] theorem slice_skip (h : l.length ≤ i) : slice (l ++ r) i n = slice r (i - l.length) n := by
  rw [slice, drop_skip h, slice]

@[simp] theorem slice_cons (b : UInt8) : slice (b :: l) (i + 1) n = slice l i n := rfl

@[simp] theorem slice_head (h : l.length = n) : slice (l ++ r) 0 n = l := by
  simp [slice, ← h]

@[simp] theorem slice_self (h : l.length = n) : slice l 0 n = l := by
  simp [slice, ← h]

@[simp] theorem getD_skip (h : l.length ≤ i) : (l ++ r).getD i 0 = r.getD (i - l.length) 0 := by
  rw [getD_eq_getElem?_getD, List.getElem?_append_right h, getD_eq_getElem?_getD]

theorem slice_length (h : i + n ≤ l.length) : (slice l i n).length = n := by
  rw [slice, length_take, length_drop]
  omega

/-! ## Literals and machine words -/

/-- The bytes of an ASCII literal. -/
def ascii (text : String) : Bytes :=
  text.toList.map fun c => UInt8.ofNat c.toNat

def be16 (x : UInt16) : Bytes := toBe 2 x.toNat
def be32 (x : UInt32) : Bytes := toBe 4 x.toNat
def be64 (x : UInt64) : Bytes := toBe 8 x.toNat
def beI64 (x : Int64) : Bytes := be64 x.toUInt64

def word16 (bytes : Bytes) : UInt16 := UInt16.ofNat (ofBe bytes)
def word32 (bytes : Bytes) : UInt32 := UInt32.ofNat (ofBe bytes)
def word64 (bytes : Bytes) : UInt64 := UInt64.ofNat (ofBe bytes)
def wordI64 (bytes : Bytes) : Int64 := (word64 bytes).toInt64

@[simp] theorem be16_length (x : UInt16) : (be16 x).length = 2 := toBe_length _ _
@[simp] theorem be32_length (x : UInt32) : (be32 x).length = 4 := toBe_length _ _
@[simp] theorem be64_length (x : UInt64) : (be64 x).length = 8 := toBe_length _ _
@[simp] theorem beI64_length (x : Int64) : (beI64 x).length = 8 := toBe_length _ _

@[simp] theorem word16_be16 (x : UInt16) : word16 (be16 x) = x := by
  rw [word16, be16, ofBe_toBe x.toNat_lt, UInt16.ofNat_toNat]

@[simp] theorem word32_be32 (x : UInt32) : word32 (be32 x) = x := by
  rw [word32, be32, ofBe_toBe x.toNat_lt, UInt32.ofNat_toNat]

@[simp] theorem word64_be64 (x : UInt64) : word64 (be64 x) = x := by
  rw [word64, be64, ofBe_toBe x.toNat_lt, UInt64.ofNat_toNat]

@[simp] theorem wordI64_beI64 (x : Int64) : wordI64 (beI64 x) = x := by
  rw [wordI64, beI64, word64_be64]
  rfl

end Bytes

/-! ## Blocks -/

/-- A byte string of a fixed length. -/
def Block (n : Nat) : Type := { bytes : Bytes // bytes.length = n }

namespace Block

variable {n m : Nat}

instance instDecidableEq : DecidableEq (Block n) := inferInstanceAs (DecidableEq (Subtype _))

/-- The block that repeats one byte. -/
def fill (n : Nat) (b : UInt8) : Block n := ⟨List.replicate n b, List.length_replicate⟩

def zero (n : Nat) : Block n := fill n 0

def isZero (b : Block n) : Bool := b.val.all (· == 0)

/-- The `n` bytes of a string from position `i`, filled up with zeros behind its end. -/
def cut (bytes : Bytes) (i n : Nat) : Block n :=
  ⟨(bytes.drop i ++ List.replicate n 0).take n, by simp⟩

/-- The byte of a block at position `i`. -/
def byte (b : Block m) (i : Nat) : UInt8 := b.val.getD i 0

theorem ext {a b : Block n} (h : a.val = b.val) : a = b := Subtype.ext h

@[simp] theorem length_val (b : Block n) : b.val.length = n := b.property

@[simp] theorem cut_skip {l r : Bytes} {i n : Nat} (h : l.length ≤ i) :
    cut (l ++ r) i n = cut r (i - l.length) n := by
  apply ext
  simp only [cut, Bytes.drop_skip h]

@[simp] theorem cut_head (b : Block n) (r : Bytes) : cut (b.val ++ r) 0 n = b := by
  apply ext
  simp only [cut, List.drop_zero, List.append_assoc]
  exact List.take_left' b.property

@[simp] theorem cut_cons (b : UInt8) (l : Bytes) (i n : Nat) : cut (b :: l) (i + 1) n = cut l i n := rfl

@[simp] theorem cut_self (b : Block n) : cut b.val 0 n = b := by
  apply ext
  simp only [cut, List.drop_zero]
  exact List.take_left' b.property

end Block

/-! ## Checked machine addition -/

/-- The number of values of an unsigned `w`-bit integer. -/
def wordSize (w : Nat) : Nat := 2 ^ w

/-- `a + b` as an unsigned `w`-bit addition that refuses to wrap. -/
def checkedAdd (w a b : Nat) : Option Nat :=
  if a + b < wordSize w then some (a + b) else none

theorem checkedAdd_of_lt {w a b : Nat} (h : a + b < wordSize w) : checkedAdd w a b = some (a + b) :=
  if_pos h

/-! ## Saturating machine arithmetic -/

namespace UInt64

def saturatingAdd (a b : UInt64) : UInt64 :=
  if a.toNat + b.toNat < UInt64.size then a + b else UInt64.ofNat (UInt64.size - 1)

def saturatingSub (a b : UInt64) : UInt64 := if b ≤ a then a - b else 0

def checkedAdd (a b : UInt64) : Option UInt64 :=
  if a.toNat + b.toNat < UInt64.size then some (a + b) else none

/-- The value is also one of a signed 64-bit integer. -/
def FitsI64 (a : UInt64) : Prop := a.toNat < 2 ^ 63

instance instDecidableFitsI64 (a : UInt64) : Decidable a.FitsI64 := inferInstanceAs (Decidable (a.toNat < 2 ^ 63))

variable {a : UInt64}

theorem toNat_add_one (h : a.FitsI64) : (a + 1).toNat = a.toNat + 1 := by
  have hlt : a.toNat < 2 ^ 63 := h
  rw [UInt64.toNat_add, UInt64.toNat_one]
  omega

theorem toNat_of_checkedAdd_one {b : UInt64} (h : a.checkedAdd 1 = some b) :
    b.toNat = a.toNat + 1 := by
  unfold checkedAdd at h
  split at h
  next hlt =>
    cases h
    rw [UInt64.toNat_add]
    exact Nat.mod_eq_of_lt hlt
  next => cases h

theorem toNat_of_saturatingAdd_one {b : UInt64} (h : a.saturatingAdd 1 = b) (hb : b.FitsI64) :
    a.toNat + 1 = b.toNat := by
  have hlt : b.toNat < 2 ^ 63 := hb
  subst h
  unfold saturatingAdd at hlt ⊢
  split_ifs at hlt ⊢ with hfits
  · rw [UInt64.toNat_add]
    exact (Nat.mod_eq_of_lt hfits).symm
  · exact absurd hlt (by decide)

end UInt64
