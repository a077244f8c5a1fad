-- SUMMARY: Exact codecs: fixed fields cut out of a byte string are that byte string.
import Mathlib.Data.List.Induction
import FlyCockpit.Lib.Bytes

/-!
# Exact codecs

A codec is exact when reading back what was written gives the value, and writing what was read
gives the byte string. Then no value has two spellings. The second half needs the converse of the
integer lemmas: the bytes of a field are determined by the integer they spell, and the fields of a
message, one behind the other, make up the message.
-/

/-- `encode` and `decode` are inverse on what either of them accepts. -/
structure ExactCodec {ε α : Type} (encode : α → Except ε Bytes) (decode : Bytes → Except ε α) :
    Prop where
  decode_encode : ∀ x bytes, encode x = .ok bytes → decode bytes = .ok x
  encode_decode : ∀ bytes x, decode bytes = .ok x → encode x = .ok bytes

namespace ExactCodec

variable {ε α : Type} {encode : α → Except ε Bytes} {decode : Bytes → Except ε α}

/-- No two byte strings denote the same value. -/
theorem spelling_unique (h : ExactCodec encode decode) {x : α} {bytes bytes' : Bytes}
    (hx : decode bytes = .ok x) (hx' : decode bytes' = .ok x) : bytes = bytes' := by
  have hfirst := h.encode_decode bytes x hx
  have hsecond := h.encode_decode bytes' x hx'
  rw [hfirst] at hsecond
  exact Except.ok.inj hsecond

end ExactCodec

/-- `encode` and `decode` are inverse on the values of `P`, and only those are ever read. -/
structure ExactCodecOn {ε α : Type} (P : α → Prop) (encode : α → Except ε Bytes)
    (decode : Bytes → Except ε α) : Prop where
  decode_encode : ∀ x bytes, P x → encode x = .ok bytes → decode bytes = .ok x
  encode_decode : ∀ bytes x, decode bytes = .ok x → P x ∧ encode x = .ok bytes

namespace Bytes

/-! ## The bytes of an integer -/

theorem toBe_concat (w n : Nat) (b : UInt8) :
    toBe (w + 1) (n * 256 + b.toNat) = toBe w n ++ [b] := by
  have hlt := b.toNat_lt
  have hhigh : (n * 256 + b.toNat) / 256 = n := by omega
  have hlow : (n * 256 + b.toNat) % 256 = b.toNat := by omega
  rw [toBe, hhigh, hlow, UInt8.ofNat_toNat]

variable {bytes : Bytes} {i : Nat}

/-- Writing what was read gives the byte string back. -/
theorem toBe_ofBe {w : Nat} (h : bytes.length = w) : toBe w (ofBe bytes) = bytes := by
  induction bytes using List.reverseRecOn generalizing w with
  | nil =>
    subst h
    rfl
  | append_singleton bytes b ih =>
    rw [List.length_append, List.length_singleton] at h
    subst h
    rw [ofBe_concat, toBe_concat, ih rfl]

theorem ofBe_lt {w : Nat} (h : bytes.length = w) : ofBe bytes < 256 ^ w := by
  have hread := ofBe_toBe_mod w (ofBe bytes)
  rw [toBe_ofBe h] at hread
  rw [hread]
  exact Nat.mod_lt _ (Nat.pow_pos (by decide))

theorem be32_inj {x y : UInt32} (h : be32 x = be32 y) : x = y := by
  rw [← word32_be32 x, h, word32_be32]

theorem be64_inj {x y : UInt64} (h : be64 x = be64 y) : x = y := by
  rw [← word64_be64 x, h, word64_be64]

theorem be16_word16 (h : i + 2 ≤ bytes.length) :
    be16 (word16 (bytes.slice i 2)) = bytes.slice i 2 := by
  have hlt : ofBe (bytes.slice i 2) < 2 ^ 16 := ofBe_lt (slice_length h)
  rw [be16, word16, UInt16.toNat_ofNat_of_lt' hlt, toBe_ofBe (slice_length h)]

theorem be32_word32 (h : i + 4 ≤ bytes.length) :
    be32 (word32 (bytes.slice i 4)) = bytes.slice i 4 := by
  have hlt : ofBe (bytes.slice i 4) < 2 ^ 32 := ofBe_lt (slice_length h)
  rw [be32, word32, UInt32.toNat_ofNat_of_lt' hlt, toBe_ofBe (slice_length h)]

theorem be64_word64 (h : i + 8 ≤ bytes.length) :
    be64 (word64 (bytes.slice i 8)) = bytes.slice i 8 := by
  have hlt : ofBe (bytes.slice i 8) < 2 ^ 64 := ofBe_lt (slice_length h)
  rw [be64, word64, UInt64.toNat_ofNat_of_lt' hlt, toBe_ofBe (slice_length h)]

/-! ## Fields of a message -/

/-- A field and what follows it. -/
theorem drop_split (bytes : Bytes) (i n : Nat) :
    bytes.drop i = bytes.slice i n ++ bytes.drop (i + n) := by
  rw [slice, ← List.drop_drop, List.take_append_drop]

/-- A field of one byte and what follows it. -/
theorem drop_split_byte (i : Nat) (hi : i < bytes.length) :
    bytes.drop i = [bytes.getD i 0] ++ bytes.drop (i + 1) := by
  have hbyte : bytes.getD i 0 = bytes[i] := by
    rw [List.getD_eq_getElem?_getD, List.getElem?_eq_getElem hi, Option.getD_some]
  rw [List.drop_eq_getElem_cons hi, hbyte, List.singleton_append]

theorem head_split (h : 0 < bytes.length) : [bytes.getD 0 0] ++ bytes.drop 1 = bytes :=
  (drop_split_byte 0 h).symm

/-- The last field is all that is left. -/
theorem slice_last {n : Nat} (h : bytes.length = i + n) : bytes.slice i n = bytes.drop i := by
  refine List.take_of_length_le ?_
  rw [List.length_drop]
  omega

theorem byte_last (h : bytes.length = i + 1) : [bytes.getD i 0] = bytes.drop i := by
  rw [drop_split_byte i (by omega), List.drop_eq_nil_of_le (by omega), List.append_nil]

theorem getD_zero_of_head? {b : UInt8} (h : bytes.head? = some b) : bytes.getD 0 0 = b := by
  rw [List.getD_eq_getElem?_getD, ← List.head?_eq_getElem?, h, Option.getD_some]

end Bytes

namespace Block

theorem val_cut {bytes : Bytes} {i n : Nat} (h : i + n ≤ bytes.length) :
    (cut bytes i n).val = bytes.slice i n := by
  have hlen : n ≤ (bytes.drop i).length := by
    rw [List.length_drop]
    omega
  exact List.take_append_of_le_length hlen

/-- Behind equal blocks stand equal rests. -/
theorem val_append_inj {n : Nat} {a b : Block n} {l r : Bytes} (h : a.val ++ l = b.val ++ r) :
    a = b ∧ l = r := by
  have hlen : a.val.length = b.val.length := by rw [length_val, length_val]
  obtain ⟨hfirst, hrest⟩ := List.append_inj h hlen
  exact ⟨ext hfirst, hrest⟩

end Block
