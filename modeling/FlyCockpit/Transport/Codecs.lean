-- SUMMARY: The wire formats of frames, fragments and bulk messages are exact.
import FlyCockpit.Lib.Codec
import FlyCockpit.Transport.Fragment
import FlyCockpit.Transport.Bulk

/-!
# Exact wire formats

What a peer accepts is what the other side wrote, and every accepted byte string is the one spelling
of its value. For the first half the fields are cut out of the written bytes; for the second the
accepted bytes are put together from the fields cut out of them.
-/

namespace FlyCockpit.Transport

open Block List

open Bytes (be64_word64 drop_split drop_split_byte head_split slice_last word64_be64)

/-! ## Frames -/

theorem RemoteFrameFlags.bits_of_fromBits {bits : UInt16} {flags : RemoteFrameFlags}
    (h : fromBits bits = some flags) : flags.bits = bits := by
  unfold fromBits at h
  split_ifs at h
  cases h
  rfl

/-- The bytes of a protocol id that was read at `i`. -/
theorem val_of_tag_cut {bytes : Bytes} {i : Nat} {id : RemoteFrameId}
    (h : tagProtocolIdBytes (.cut bytes i 16) = some id) (hi : i + 16 ≤ bytes.length) :
    id.val.val = bytes.slice i 16 := by
  rw [val_of_tagProtocolIdBytes h, val_cut hi]

namespace RemoteTransportFrameV1

variable (sha256 : Bytes → Block 32) {bytes : Bytes}

theorem fields_of_length (h : 72 ≤ bytes.length) :
    bytes = [bytes.getD 0 0] ++ ([bytes.getD 1 0] ++ (bytes.slice 2 2 ++ (bytes.slice 4 8 ++
      (bytes.slice 12 8 ++ (bytes.slice 20 16 ++ (bytes.slice 36 4 ++ (bytes.slice 40 32 ++
      bytes.drop 72))))))) := by
  rw [← drop_split bytes 40 32, ← drop_split bytes 36 4, ← drop_split bytes 20 16,
    ← drop_split bytes 12 8, ← drop_split bytes 4 8, ← drop_split bytes 2 2,
    ← drop_split_byte 1 (by omega), head_split (by omega)]

theorem encode_of_decodePayload {lane : RemoteLane} {flags : RemoteFrameFlags}
    {frameId : RemoteFrameId} {f : RemoteTransportFrameV1} (hlong : 72 ≤ bytes.length)
    (hversion : bytes.getD 0 0 = remoteTransportFrameVersion)
    (hlane : RemoteLane.fromLaneId (bytes.getD 1 0) = some lane)
    (hflags : RemoteFrameFlags.fromBits (Bytes.word16 (bytes.slice 2 2)) = some flags)
    (hid : tagProtocolIdBytes (.cut bytes 20 16) = some frameId)
    (h : decodePayload sha256 bytes lane flags frameId = .ok f) : f.encode sha256 = .ok bytes := by
  unfold decodePayload at h
  dsimp only at h
  split_ifs at h with hcap hlonger hshorter hdigest
  cases h
  have hpayload : (bytes.drop remoteTransportFrameHeaderBytes).length =
      (Bytes.word32 (bytes.slice 36 4)).toNat := by
    rw [length_drop]
    omega
  refine (encode_eq_ok sha256).2 ⟨?_, ?_⟩
  · rw [hpayload]
    exact Nat.le_of_not_lt hcap
  · conv_lhs => rw [fields_of_length hlong]
    simp (disch := omega) only [wire, ← hversion, RemoteLane.laneId_of_fromLaneId hlane,
      RemoteFrameFlags.bits_of_fromBits hflags, val_of_tag_cut hid, hpayload, UInt32.ofNat_toNat,
      not_not.1 hdigest, val_cut, Bytes.be16_word16, Bytes.be32_word32, be64_word64]
    rfl

theorem encode_of_decode {f : RemoteTransportFrameV1}
    (h : decode sha256 bytes = .ok f) : f.encode sha256 = .ok bytes := by
  unfold decode at h
  split_ifs at h with hshort hversion
  split at h <;> try cases h
  split at h <;> try cases h
  split at h <;> try cases h
  next lane hlane _ flags hflags _ frameId hid =>
    exact encode_of_decodePayload sha256 (Nat.le_of_not_lt hshort) (not_not.1 hversion) hlane
      hflags hid h

theorem exactCodec : ExactCodec (encode sha256) (decode sha256) where
  decode_encode := by
    intro f bytes h
    obtain ⟨hcap, rfl⟩ := (encode_eq_ok sha256).1 h
    exact decode_wire sha256 hcap
  encode_decode _ _ h := encode_of_decode sha256 h

end RemoteTransportFrameV1

/-! ## Fragments -/

namespace RemoteFragmentFlags

@[simp] theorem fromBits_bits (flags : RemoteFragmentFlags) : fromBits flags.bits = some flags :=
  dif_pos flags.defined

theorem bits_of_fromBits {bits : UInt16} {flags : RemoteFragmentFlags}
    (h : fromBits bits = some flags) : flags.bits = bits := by
  unfold fromBits at h
  split_ifs at h
  cases h
  rfl

end RemoteFragmentFlags

namespace RemoteCarrierFragmentV1

variable {f : RemoteCarrierFragmentV1} {bytes : Bytes}

theorem encode_eq_ok : f.encode = .ok bytes ↔ f.validateShape = .ok () ∧ bytes = f.wire := by
  exact Fallible.check_bind_eq_ok.trans (and_congr_right fun _ =>
    ⟨fun | rfl => rfl, fun | rfl => rfl⟩)

theorem wire_length (f : RemoteCarrierFragmentV1) : f.wire.length = 26 + f.bytes.length := by
  simp [wire]
  omega

theorem wire_fields (f : RemoteCarrierFragmentV1) :
    f.wire.slice 2 2 = Bytes.be16 f.flags.bits ∧ cut f.wire 4 16 = f.frameId.val ∧
    f.wire.slice 20 2 = Bytes.be16 f.fragmentIndex ∧
    f.wire.slice 22 2 = Bytes.be16 f.fragmentCount ∧
    f.wire.slice 24 2 = Bytes.be16 (UInt16.ofNat f.bytes.length) ∧
    f.wire.drop 26 = f.bytes := by
  simp [wire]

theorem decode_wire (hshape : f.validateShape = .ok ()) : decode f.wire = .ok f := by
  obtain ⟨hflags, hid, hindex, hcount, hlength, hdrop⟩ := f.wire_fields
  have hcap := (validateShape_eq_ok.1 hshape).1
  have hbytes : f.wire.drop remoteCarrierFragmentHeaderBytes = f.bytes := hdrop
  have hlen := f.wire_length
  have hactual : f.wire.length - remoteCarrierFragmentHeaderBytes = f.bytes.length := by
    rw [hlen, remoteCarrierFragmentHeaderBytes, Nat.add_sub_cancel_left]
  have hdeclared : (UInt16.ofNat f.bytes.length).toNat = f.bytes.length :=
    UInt16.toNat_ofNat_of_lt' (Nat.lt_of_le_of_lt hcap (by decide))
  have hversion : f.wire.getD 0 0 = remoteCarrierFragmentVersion := rfl
  have hlane : f.wire.getD 1 0 = f.lane.laneId := rfl
  have hlong : ¬f.wire.length < remoteCarrierFragmentHeaderBytes := by
    rw [hlen, remoteCarrierFragmentHeaderBytes]
    omega
  unfold decode
  rw [if_neg hlong, if_neg (not_not.2 hversion)]
  simp only [hlane, RemoteLane.fromLaneId_laneId, hflags, Bytes.word16_be16,
    RemoteFragmentFlags.fromBits_bits, hid, tagProtocolIdBytes_val]
  unfold decodeBody
  simp only [hlength, Bytes.word16_be16, hdeclared, hactual, hbytes, hindex, hcount,
    lt_irrefl, if_false, if_neg (Nat.not_lt.2 hcap), hshape]
  rfl

theorem fields_of_length (h : 26 ≤ bytes.length) :
    bytes = [bytes.getD 0 0] ++ ([bytes.getD 1 0] ++ (bytes.slice 2 2 ++ (bytes.slice 4 16 ++
      (bytes.slice 20 2 ++ (bytes.slice 22 2 ++ (bytes.slice 24 2 ++ bytes.drop 26)))))) := by
  rw [← drop_split bytes 24 2, ← drop_split bytes 22 2, ← drop_split bytes 20 2,
    ← drop_split bytes 4 16, ← drop_split bytes 2 2, ← drop_split_byte 1 (by omega),
    head_split (by omega)]

theorem encode_of_decodeBody {lane : RemoteLane} {flags : RemoteFragmentFlags}
    {frameId : RemoteFrameId} (hlong : 26 ≤ bytes.length)
    (hversion : bytes.getD 0 0 = remoteCarrierFragmentVersion)
    (hlane : RemoteLane.fromLaneId (bytes.getD 1 0) = some lane)
    (hflags : RemoteFragmentFlags.fromBits (Bytes.word16 (bytes.slice 2 2)) = some flags)
    (hid : tagProtocolIdBytes (.cut bytes 4 16) = some frameId)
    (h : decodeBody bytes lane flags frameId = .ok f) : f.encode = .ok bytes := by
  unfold decodeBody at h
  dsimp only at h
  split_ifs at h with hcap hlonger hshorter
  have hbytes : (bytes.drop remoteCarrierFragmentHeaderBytes).length =
      (Bytes.word16 (bytes.slice 24 2)).toNat := by
    rw [length_drop]
    omega
  -- The decoded fragment passed the shape check that `encode` makes.
  obtain ⟨hshape, hok⟩ := Fallible.check_bind_eq_ok.1 h
  cases hok
  refine encode_eq_ok.2 ⟨hshape, ?_⟩
  conv_lhs => rw [fields_of_length hlong]
  simp (disch := omega) only [wire, ← hversion, RemoteLane.laneId_of_fromLaneId hlane,
    RemoteFragmentFlags.bits_of_fromBits hflags, val_of_tag_cut hid, hbytes, UInt16.ofNat_toNat,
    Bytes.be16_word16]
  rfl

theorem encode_of_decode (h : decode bytes = .ok f) : f.encode = .ok bytes := by
  unfold decode at h
  split_ifs at h with hshort hversion
  split at h <;> try cases h
  split at h <;> try cases h
  split at h <;> try cases h
  next lane hlane _ flags hflags _ frameId hid =>
    exact encode_of_decodeBody (Nat.le_of_not_lt hshort) (not_not.1 hversion) hlane hflags hid h

theorem exactCodec : ExactCodec encode decode where
  decode_encode := by
    intro f bytes h
    obtain ⟨hshape, rfl⟩ := encode_eq_ok.1 h
    exact decode_wire hshape
  encode_decode _ _ h := encode_of_decode h

end RemoteCarrierFragmentV1

/-! ## Bulk messages -/

namespace RemoteBulkMessage

variable {bytes : Bytes} {id : RemoteTransferId} {message : RemoteBulkMessage}

theorem readTransferId_eq_ok {i : Nat} :
    readTransferId bytes i = .ok id ↔ tagProtocolIdBytes (.cut bytes i 16) = some id := by
  unfold readTransferId
  cases tagProtocolIdBytes (.cut bytes i 16) <;> simp

/-- The messages `encode` accepts. -/
def Encodable : RemoteBulkMessage → Prop
  | .begin b => b.validate = .ok ()
  | .chunk c => c.bytes.length ≤ maxBulkChunkPayloadBytes
  | .complete _ => True
  | .abort _ => True

theorem encode_eq_ok : message.encode = .ok bytes ↔ message.Encodable ∧ bytes = message.wire := by
  cases message with
  | begin b =>
    exact Fallible.check_bind_eq_ok.trans (and_congr_right fun _ =>
    ⟨fun | rfl => rfl, fun | rfl => rfl⟩)
  | chunk c =>
    unfold encode Encodable
    dsimp only
    split_ifs with hcap
    · simp only [false_iff, not_and]
      omega
    · simp only [Except.ok.injEq, Nat.le_of_not_lt hcap, true_and]
      exact eq_comm
  | complete c => simp [encode, Encodable, eq_comm]
  | abort a => simp [encode, Encodable, eq_comm]

/-! ### Reading what was written -/

theorem readTransferId_wire {kind : UInt8} {rest : Bytes} :
    readTransferId ([kind] ++ (id.val.val ++ rest)) 1 = .ok id := by
  refine readTransferId_eq_ok.2 ?_
  simp

theorem decodeBegin_wire {b : RemoteBulkBegin} (hvalid : b.validate = .ok ()) :
    decodeBegin (wire (.begin b)) = .ok (.begin b) := by
  obtain ⟨written, hwritten⟩ : ∃ written, written = wire (.begin b) := ⟨_, rfl⟩
  have hid : readTransferId written 1 = .ok b.transferId := hwritten ▸ readTransferId_wire
  have hbits : written.getD 17 0 = b.optionBits := by
    simp [hwritten, wire]
  have hboth := (RemoteBulkBegin.validate_eq_ok.1 hvalid).1
  obtain ⟨id, total, digest, mimeClass, max⟩ := b
  rw [← hwritten]
  unfold decodeBegin
  cases total with
  | none =>
    cases digest with
    | some _ => cases hboth
    | none =>
      have hlen : written.length = 27 := by simp [hwritten, wire, optionFields]
      have hclass : written.getD 18 0 = mimeClass.code := by
        simp [hwritten, wire, optionFields]
      have hmax : written.slice 19 8 = Bytes.be64 max := by
        simp [hwritten, wire, optionFields]
      have hunknown : written.getD 17 0 = bulkOptionBitsUnknown := hbits
      rw [if_neg (by rw [hlen]; decide)]
      simp only [hid, hunknown, hlen, bulkBeginBytesWithoutOptions, if_true, ne_eq, not_true_eq_false,
        if_false, decodeBeginFields, hclass, RemoteBulkMimeClass.fromCode_code, Nat.reduceAdd, hmax,
        word64_be64, hvalid]
      rfl
  | some total =>
    cases digest with
    | none => cases hboth
    | some digest =>
      have hlen : written.length = 67 := by simp [hwritten, wire, optionFields]
      have hclass : written.getD 58 0 = mimeClass.code := by
        simp [hwritten, wire, optionFields]
      have hfields : written.slice 18 8 = Bytes.be64 total ∧ cut written 26 32 = digest ∧
          written.slice 59 8 = Bytes.be64 max := by
        simp [hwritten, wire, optionFields]
      obtain ⟨htotal, hdigest, hmax⟩ := hfields
      have hknown : written.getD 17 0 = bulkOptionBitsKnown := hbits
      have hdiffer : ¬bulkOptionBitsKnown = bulkOptionBitsUnknown := by decide
      rw [if_neg (by rw [hlen]; decide)]
      simp only [hid, hknown, hlen, bulkBeginBytesWithOptions, if_true, ne_eq, not_true_eq_false,
        if_false, if_neg hdiffer, decodeBeginFields, hclass, RemoteBulkMimeClass.fromCode_code,
        Nat.reduceAdd, htotal, hdigest, hmax, word64_be64, hvalid]
      rfl

theorem decodeChunk_wire {c : RemoteBulkChunk} (hcap : c.bytes.length ≤ maxBulkChunkPayloadBytes) :
    decodeChunk (wire (.chunk c)) = .ok (.chunk c) := by
  have hlen : (wire (.chunk c)).length = 33 + c.bytes.length := by
    simp [wire]
    omega
  have hfields : (wire (.chunk c)).slice 17 4 = Bytes.be32 c.chunkIndex ∧
      (wire (.chunk c)).slice 21 8 = Bytes.be64 c.offset ∧
      (wire (.chunk c)).slice 29 4 = Bytes.be32 (UInt32.ofNat c.bytes.length) ∧
      (wire (.chunk c)).drop 33 = c.bytes := by
    simp [wire]
  obtain ⟨hindex, hoffset, hlength, hdrop⟩ := hfields
  have hdeclared : (UInt32.ofNat c.bytes.length).toNat = c.bytes.length :=
    UInt32.toNat_ofNat_of_lt' (Nat.lt_of_le_of_lt hcap (by decide))
  have hid : readTransferId (wire (.chunk c)) 1 = .ok c.transferId := readTransferId_wire
  have hlong : ¬(wire (.chunk c)).length < bulkChunkEnvelopeBytes := by
    rw [hlen, bulkChunkEnvelopeBytes]
    omega
  have hactual : (wire (.chunk c)).length - bulkChunkEnvelopeBytes = c.bytes.length := by
    rw [hlen, bulkChunkEnvelopeBytes, Nat.add_sub_cancel_left]
  have hbytes : (wire (.chunk c)).drop bulkChunkEnvelopeBytes = c.bytes := hdrop
  unfold decodeChunk
  rw [if_neg hlong]
  simp only [hid, hlength, Bytes.word32_be32, hdeclared, hactual, if_neg (Nat.not_lt.2 hcap),
    lt_irrefl, if_false, hindex, hoffset, word64_be64, hbytes]

theorem decodeComplete_wire (c : RemoteBulkComplete) :
    decodeComplete (wire (.complete c)) = .ok (.complete c) := by
  have hlen : (wire (.complete c)).length = bulkCompleteBytes := by
    simp [wire, bulkCompleteBytes]
  have hfields : (wire (.complete c)).slice 17 8 = Bytes.be64 c.finalLength ∧
      cut (wire (.complete c)) 25 32 = c.sha256 := by
    simp [wire]
  have hid : readTransferId (wire (.complete c)) 1 = .ok c.transferId := readTransferId_wire
  unfold decodeComplete
  simp only [hlen, ne_eq, not_true_eq_false, if_false, hid, hfields.1, hfields.2, word64_be64]

theorem decodeAbort_wire (a : RemoteBulkAbort) :
    decodeAbort (wire (.abort a)) = .ok (.abort a) := by
  have hlen : (wire (.abort a)).length = bulkAbortBytes := by
    simp [wire, bulkAbortBytes]
  have hreason : (wire (.abort a)).getD 17 0 = a.reason.code := by simp [wire]
  have hid : readTransferId (wire (.abort a)) 1 = .ok a.transferId := readTransferId_wire
  unfold decodeAbort
  simp only [hlen, ne_eq, not_true_eq_false, if_false, hid, hreason,
    RemoteBulkAbortReason.fromCode_code]

theorem decode_wire (h : message.Encodable) : decode message.wire = .ok message := by
  cases message with
  | begin b => exact decodeBegin_wire h
  | chunk c => exact decodeChunk_wire h
  | complete c => exact decodeComplete_wire c
  | abort a => exact decodeAbort_wire a

/-! ### Writing what was read -/

theorem encode_of_decodeBeginFields
    {total : Option UInt64} {digest : Option (Block 32)} {cursor : Nat}
    (hlen : bytes.length = cursor + 9)
    (hfront : ∀ mimeClass max, bytes.take cursor ++ ([mimeClass.code] ++ Bytes.be64 max) =
      wire (.begin ⟨id, total, digest, mimeClass, max⟩))
    (h : decodeBeginFields bytes id total digest cursor = .ok message) :
    message.encode = .ok bytes := by
  unfold decodeBeginFields at h
  split at h
  next => cases h
  next mimeClass hclass =>
    obtain ⟨hvalid, hok⟩ := Fallible.check_bind_eq_ok.1 h
    cases hok
    refine encode_eq_ok.2 ⟨hvalid, ?_⟩
    have hlast : bytes.slice (cursor + 1) 8 = bytes.drop (cursor + 1) := slice_last (by omega)
    rw [← hfront, be64_word64 (by omega), hlast, RemoteBulkMimeClass.code_of_fromCode hclass,
      ← drop_split_byte cursor (by omega), take_append_drop]

/-- The kind and the transfer id in front of every message. -/
theorem front_split {kind : UInt8}
    (hkind : bytes.head? = some kind) (hid : readTransferId bytes 1 = .ok id) (h : 17 ≤ bytes.length) :
    [kind] ++ (id.val.val ++ bytes.drop 17) = bytes := by
  rw [val_of_tag_cut (readTransferId_eq_ok.1 hid) (by omega),
    ← drop_split bytes 1 16, ← Bytes.getD_zero_of_head? hkind,
    head_split (by omega)]

/-- The kind, the transfer id and the option bits in front of a begin message. -/
theorem begin_fields (h : 18 ≤ bytes.length)
    (hkind : bytes.head? = some bulkKindBegin) (hid : readTransferId bytes 1 = .ok id) :
    bytes.take 18 = [bulkKindBegin] ++ (id.val.val ++ [bytes.getD 17 0]) := by
  have hsplit : bytes = ([bulkKindBegin] ++ (id.val.val ++ [bytes.getD 17 0])) ++ bytes.drop 18 := by
    rw [append_assoc, append_assoc, ← drop_split_byte 17 (by omega),
      front_split hkind hid (by omega)]
  conv_lhs => rw [hsplit]
  exact take_left' (by simp)

theorem encode_of_decodeBegin
    (hkind : bytes.head? = some bulkKindBegin) (h : decodeBegin bytes = .ok message) :
    message.encode = .ok bytes := by
  unfold decodeBegin at h
  split at h <;> try cases h
  split at h <;> try cases h
  next hshort _ id hid =>
    have hfront := begin_fields (Nat.le_of_not_lt hshort) hkind hid
    dsimp only at h
    split_ifs at h with hunknown hlen hknown hlen
    · -- Neither optional field.
      refine encode_of_decodeBeginFields (not_not.1 hlen) (fun mimeClass max => ?_) h
      rw [hfront, hunknown]
      simp [wire, optionFields, RemoteBulkBegin.optionBits]
    · -- Both optional fields.
      have hlen := not_not.1 hlen
      unfold bulkBeginBytesWithOptions at hlen
      refine encode_of_decodeBeginFields hlen (fun mimeClass max => ?_) h
      have htake : bytes.take 58 = bytes.take 18 ++ (bytes.slice 18 8 ++ bytes.slice 26 32) := by
        rw [show 58 = 18 + (8 + 32) from rfl, take_add, take_add, drop_drop]
        rfl
      rw [htake, hfront, hknown]
      simp [wire, optionFields, RemoteBulkBegin.optionBits,
        val_cut (show 26 + 32 ≤ bytes.length by omega),
        be64_word64 (show 18 + 8 ≤ bytes.length by omega)]

theorem encode_of_decodeChunk
    (hkind : bytes.head? = some bulkKindChunk) (h : decodeChunk bytes = .ok message) :
    message.encode = .ok bytes := by
  unfold decodeChunk at h
  split_ifs at h with hshort
  have hlong : 33 ≤ bytes.length := Nat.le_of_not_lt hshort
  split at h
  next => cases h
  next id hid =>
    dsimp only at h
    split_ifs at h with hcap hlonger hshorter
    cases h
    have hbytes : (bytes.drop bulkChunkEnvelopeBytes).length =
        (Bytes.word32 (bytes.slice 29 4)).toNat := by
      rw [length_drop]
      omega
    refine encode_eq_ok.2 ⟨?_, ?_⟩
    · rw [Encodable, hbytes]
      exact Nat.le_of_not_lt hcap
    · simp (disch := omega) only [wire, hbytes, UInt32.ofNat_toNat, Bytes.be32_word32, be64_word64]
      rw [bulkChunkEnvelopeBytes, ← drop_split bytes 29 4, ← drop_split bytes 21 8,
        ← drop_split bytes 17 4, front_split hkind hid (by omega)]

theorem encode_of_decodeComplete
    (hkind : bytes.head? = some bulkKindComplete) (h : decodeComplete bytes = .ok message) :
    message.encode = .ok bytes := by
  unfold decodeComplete at h
  split_ifs at h with hlen
  have hlen : bytes.length = 57 := not_not.1 hlen
  split at h
  next => cases h
  next id hid =>
    cases h
    refine encode_eq_ok.2 ⟨trivial, ?_⟩
    simp only [wire, val_cut (show 25 + 32 ≤ bytes.length by omega),
      be64_word64 (show 17 + 8 ≤ bytes.length by omega)]
    rw [slice_last (show bytes.length = 25 + 32 from hlen),
      ← drop_split bytes 17 8, front_split hkind hid (by omega)]

theorem encode_of_decodeAbort
    (hkind : bytes.head? = some bulkKindAbort) (h : decodeAbort bytes = .ok message) :
    message.encode = .ok bytes := by
  unfold decodeAbort at h
  split_ifs at h with hlen
  have hlen : bytes.length = 18 := not_not.1 hlen
  split at h
  next => cases h
  next id hid =>
    split at h
    next => cases h
    next reason hreason =>
      cases h
      refine encode_eq_ok.2 ⟨trivial, ?_⟩
      rw [wire, RemoteBulkAbortReason.code_of_fromCode hreason,
        Bytes.byte_last (show bytes.length = 17 + 1 from hlen), front_split hkind hid (by omega)]

theorem encode_of_decode (h : decode bytes = .ok message) : message.encode = .ok bytes := by
  unfold decode at h
  split at h
  next => cases h
  next kind hkind =>
    split_ifs at h with hbegin hchunk hcomplete habort
    · exact encode_of_decodeBegin (hbegin ▸ hkind) h
    · exact encode_of_decodeChunk (hchunk ▸ hkind) h
    · exact encode_of_decodeComplete (hcomplete ▸ hkind) h
    · exact encode_of_decodeAbort (habort ▸ hkind) h

theorem exactCodec : ExactCodec encode decode where
  decode_encode := by
    intro message bytes h
    obtain ⟨hencodable, rfl⟩ := encode_eq_ok.1 h
    exact decode_wire hencodable
  encode_decode _ _ h := encode_of_decode h

end RemoteBulkMessage

/-- The three wire formats of the transport are exact, so an accepted byte string is the only
spelling of what it denotes. -/
theorem transport_codecs_exact (sha256 : Bytes → Block 32) :
    ExactCodec (RemoteTransportFrameV1.encode sha256) (RemoteTransportFrameV1.decode sha256) ∧
    ExactCodec RemoteCarrierFragmentV1.encode RemoteCarrierFragmentV1.decode ∧
    ExactCodec RemoteBulkMessage.encode RemoteBulkMessage.decode ∧
    (∀ bytes bytes' frame, RemoteTransportFrameV1.decode sha256 bytes = .ok frame →
      RemoteTransportFrameV1.decode sha256 bytes' = .ok frame → bytes = bytes') ∧
    (∀ bytes bytes' fragment, RemoteCarrierFragmentV1.decode bytes = .ok fragment →
      RemoteCarrierFragmentV1.decode bytes' = .ok fragment → bytes = bytes') ∧
    ∀ bytes bytes' message, RemoteBulkMessage.decode bytes = .ok message →
      RemoteBulkMessage.decode bytes' = .ok message → bytes = bytes' :=
  ⟨RemoteTransportFrameV1.exactCodec sha256, RemoteCarrierFragmentV1.exactCodec,
    RemoteBulkMessage.exactCodec,
    fun _ _ _ h h' => (RemoteTransportFrameV1.exactCodec sha256).spelling_unique h h',
    fun _ _ _ h h' => RemoteCarrierFragmentV1.exactCodec.spelling_unique h h',
    fun _ _ _ h h' => RemoteBulkMessage.exactCodec.spelling_unique h h'⟩

end FlyCockpit.Transport
