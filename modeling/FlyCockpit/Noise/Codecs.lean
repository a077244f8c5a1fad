-- SUMMARY: The wire formats of the Noise crate are exact, and the final proof binding is injective.
import FlyCockpit.Lib.Codec
import FlyCockpit.Noise.Record
import FlyCockpit.Noise.Fallback

/-!
# The wire formats of the Noise crate

For each format: what was written is read back as the value it was written from, and what is
accepted is, byte for byte, what the encoder makes of the value read. The integers of a value are
those its machine words can hold. `finalProofBindingBytes` is never decoded; it is signed, so what
matters is that no two transcripts share its bytes.
-/

namespace FlyCockpit.Noise

open List

open Bytes (drop_split drop_split_byte head_split ofBe_lt ofBe_toBe slice_last slice_length
  toBe_length toBe_ofBe)

theorem RecordKind.toByte_of_tryFrom {value : UInt8} {kind : RecordKind}
    (h : RecordKind.tryFrom value = .ok kind) : kind.toByte = value := by
  unfold RecordKind.tryFrom at h
  split_ifs at h with h1 h2 h3 h4 h5 <;> cases h <;> simp_all [RecordKind.toByte]

theorem FallbackDirection.toByte_of_tryFrom {value : UInt8} {direction : FallbackDirection}
    (h : FallbackDirection.tryFrom value = .ok direction) : direction.toByte = value := by
  unfold FallbackDirection.tryFrom at h
  split_ifs at h with h0 h1 <;> cases h <;> simp_all [FallbackDirection.toByte]

/-! ## Record plaintexts -/

namespace RemoteNoiseRecordV1

/-- What decoding has checked and read. -/
theorem decodePlaintext_eq_ok {bytes : Bytes} {routingSequence : Nat}
    {record : RemoteNoiseRecordV1} (h : decodePlaintext bytes routingSequence = .ok record) :
    bytes.getD 0 0 = 1 ∧ bytes.getD 1 0 = record.kind.toByte ∧
      record.sequence = Bytes.ofBe (bytes.slice 2 8) ∧ record.sequence = routingSequence ∧
      record.payload = bytes.drop 14 ∧ record.payload.length = Bytes.ofBe (bytes.slice 10 4) ∧
      record.payload.length ≤ maxPayload ∧ bytes.length = 14 + record.payload.length := by
  unfold decodePlaintext at h
  split_ifs at h
  split at h
  next => cases h
  next kind hkind =>
    dsimp only at h
    split_ifs at h with hlen hseq
    cases h
    simp only [not_or, not_not, not_lt, recordHeaderLen] at hlen
    obtain ⟨hversion, hmax, hlen⟩ := hlen
    have hpayload : (bytes.drop 14).length = Bytes.ofBe (bytes.slice 10 4) := by
      rw [length_drop]
      omega
    exact ⟨hversion, (RecordKind.toByte_of_tryFrom hkind).symm, rfl, not_not.1 hseq, rfl,
      hpayload, hpayload ▸ hmax, hpayload ▸ hlen⟩

theorem exactCodec (routingSequence : Nat) :
    ExactCodecOn (fun record => record.sequence = routingSequence ∧ record.sequence < wordSize 64)
      encodePlaintext (decodePlaintext · routingSequence) where
  decode_encode := by
    intro record bytes ⟨hrouting, hsequence⟩ h
    obtain ⟨hpayload, rfl⟩ := encodePlaintext_eq_ok.1 h
    show decodePlaintext _ routingSequence = _
    rw [decodePlaintext_header_append hpayload hsequence, if_pos hrouting]
  encode_decode := by
    intro bytes record h
    obtain ⟨hversion, hkind, hsequence, hrouting, hpayload, hlength, hmax, htotal⟩ :=
      decodePlaintext_eq_ok h
    have hseqLen : (bytes.slice 2 8).length = 8 := slice_length (by omega)
    have hlenLen : (bytes.slice 10 4).length = 4 := slice_length (by omega)
    refine ⟨⟨hrouting, ?_⟩, encodePlaintext_eq_ok.2 ⟨hmax, ?_⟩⟩
    · rw [hsequence]
      exact ofBe_lt hseqLen
    · rw [header, hlength, hsequence, toBe_ofBe hseqLen, toBe_ofBe hlenLen, hpayload, ← hkind]
      calc bytes
        _ = bytes.drop 0 := rfl
        _ = [bytes.getD 0 0] ++ ([bytes.getD 1 0] ++ (bytes.slice 2 8 ++
              (bytes.slice 10 4 ++ bytes.drop 14))) := by
          rw [drop_split_byte 0 (by omega), drop_split_byte 1 (by omega), drop_split bytes 2 8,
            drop_split bytes 10 4]
        _ = _ := by
          rw [hversion]
          simp only [cons_append, nil_append, append_assoc]

end RemoteNoiseRecordV1

/-! ## Rekey prepares -/

namespace RekeyPrepareV1

/-- A direction byte the protocol knows, and integers of their field's width. -/
structure Valid (p : RekeyPrepareV1) : Prop where
  direction : p.direction = 1 ∨ p.direction = 2
  keyEpoch : p.keyEpoch < wordSize 32
  nextKeyEpoch : p.nextKeyEpoch < wordSize 32
  throughSequence : p.throughSequence < wordSize 64

theorem exactCodec : ExactCodecOn Valid (fun p => .ok p.encode) decode where
  decode_encode := by
    intro p bytes hvalid h
    cases h
    rw [decode_encode hvalid.direction,
      wrapped_eq_self hvalid.keyEpoch hvalid.nextKeyEpoch hvalid.throughSequence]
  encode_decode := by
    intro bytes p h
    obtain ⟨hlen, hdirection⟩ := decode_eq_ok h
    unfold decode at h
    split_ifs at h
    cases h
    have hkey : (bytes.slice 1 4).length = 4 := slice_length (by omega)
    have hnext : (bytes.slice 5 4).length = 4 := slice_length (by omega)
    have hthrough : (bytes.slice 9 8).length = 8 := slice_length (by omega)
    refine ⟨⟨hdirection, ofBe_lt hkey, ofBe_lt hnext, ofBe_lt hthrough⟩, ?_⟩
    simp only [encode, toBe_ofBe hkey, toBe_ofBe hnext, toBe_ofBe hthrough, append_assoc]
    rw [slice_last (show bytes.length = 9 + 8 from hlen), ← drop_split bytes 5 4,
      ← drop_split bytes 1 4, head_split (by omega)]

/-- A prepare with an unknown direction byte is written but never read. -/
theorem decode_encode_refused {p : RekeyPrepareV1} (h : ¬(p.direction = 1 ∨ p.direction = 2)) :
    decode p.encode = .error .invalidRekey := by
  have hhead : p.encode.getD 0 0 = p.direction := rfl
  unfold decode
  rw [if_pos]
  rw [hhead]
  exact .inr h

end RekeyPrepareV1

/-! ## Framed handshake messages -/

namespace HandshakeFrame

theorem encode_eq_ok {index : UInt8} {message bytes : Bytes} : encode index message = .ok bytes ↔
      (index = 1 ∨ index = 2) ∧ message ≠ [] ∧ message.length ≤ maxHandshakeMessage ∧
        bytes = [1, index] ++ Bytes.toBe 2 message.length ++ message := by
  have hmax : maxHandshakeMessage < wordSize 16 := by decide
  unfold encode
  split_ifs with hbad hlong
  · simp only [false_iff]
    rintro ⟨hindex, hmessage, hlen, -⟩
    obtain h | h | h := hbad
    · exact h hindex
    · exact hmessage h
    · omega
  · omega
  · simp only [not_or, not_not, not_lt, not_and_or] at hbad
    simp only [hbad, ne_eq, not_false_eq_true, true_and, Except.ok.injEq, eq_comm]

/-- What decoding has checked and read. -/
theorem decode_eq_ok {bytes : Bytes} {expectedIndex : UInt8} {frame : HandshakeFrame}
    (h : decode bytes expectedIndex = .ok frame) :
    bytes.getD 0 0 = 1 ∧ bytes.getD 1 0 = frame.messageIndex ∧
      frame.messageIndex = expectedIndex ∧ (frame.messageIndex = 1 ∨ frame.messageIndex = 2) ∧
      frame.message = bytes.drop 4 ∧ frame.message.length = Bytes.ofBe (bytes.slice 2 2) ∧
      frame.message ≠ [] ∧ frame.message.length ≤ maxHandshakeMessage ∧
      bytes.length = 4 + frame.message.length := by
  unfold decode at h
  dsimp only at h
  split_ifs at h with hshort hgood
  cases h
  simp only [not_or, not_not, not_lt, not_and_or, handshakeHeaderLen] at hgood
  obtain ⟨hversion, hexpected, hindex, hpos, hmax, hlen⟩ := hgood
  have hmessage : (bytes.drop 4).length = Bytes.ofBe (bytes.slice 2 2) := by
    rw [length_drop, Bytes.slice]
    omega
  refine ⟨hversion, rfl, hexpected, hindex, rfl, hmessage, ?_, hmessage ▸ hmax, hmessage ▸ hlen⟩
  exact ne_nil_of_length_pos (hmessage ▸ Nat.pos_of_ne_zero hpos)

theorem exactCodec (expectedIndex : UInt8) :
    ExactCodecOn (fun frame => frame.messageIndex = expectedIndex)
      (fun frame => encode frame.messageIndex frame.message) (decode · expectedIndex) where
  decode_encode := by
    intro ⟨index, message⟩ bytes hexpected h
    obtain ⟨hindex, hmessage, hmax, rfl⟩ := encode_eq_ok.1 h
    dsimp only at hexpected hindex hmessage hmax
    have hpos : message.length ≠ 0 := fun hzero => hmessage (eq_nil_of_length_eq_zero hzero)
    have hlength : Bytes.ofBe (Bytes.toBe 2 message.length) = message.length :=
      ofBe_toBe (lt_of_le_of_lt hmax (by decide))
    have htotal : ([1, index] ++ Bytes.toBe 2 message.length ++ message).length =
        4 + message.length := by
      simp only [length_append, length_cons, length_nil, toBe_length]
    have hfield : ((([1, index] ++ Bytes.toBe 2 message.length ++ message).drop 2).take 2) =
        Bytes.toBe 2 message.length := by simp
    have hrest : ([1, index] ++ Bytes.toBe 2 message.length ++ message).drop 4 = message := by simp
    have hcap : maxHandshakeMessage + 4 ≤ absoluteCiphertextCap := by decide
    show decode _ expectedIndex = _
    unfold decode
    rw [if_neg (by rw [htotal, handshakeHeaderLen]; omega)]
    simp only [hfield, hlength, hrest, htotal]
    rw [if_neg]
    · rfl
    · simp only [not_or, not_not, not_lt, not_and_or]
      exact ⟨rfl, hexpected, hindex, hpos, hmax, rfl⟩
  encode_decode := by
    intro bytes frame h
    obtain ⟨hversion, hindex, hexpected, hknown, hmessage, hlength, hnonempty, hmax, htotal⟩ :=
      decode_eq_ok h
    have hfield : (bytes.slice 2 2).length = 2 := slice_length (by omega)
    refine ⟨hexpected, encode_eq_ok.2 ⟨hknown, hnonempty, hmax, ?_⟩⟩
    rw [hlength, toBe_ofBe hfield, hmessage, ← hindex]
    calc bytes
      _ = bytes.drop 0 := rfl
      _ = [bytes.getD 0 0] ++ ([bytes.getD 1 0] ++ (bytes.slice 2 2 ++ bytes.drop 4)) := by
        rw [drop_split_byte 0 (by omega), drop_split_byte 1 (by omega), drop_split bytes 2 2]
      _ = _ := by
        rw [hversion]
        simp only [cons_append, nil_append]

end HandshakeFrame

/-! ## The prologue -/

namespace RemoteNoisePrologueV1

theorem exactCodec : ExactCodecOn WellFormed (fun p => .ok p.encode) decode where
  decode_encode := by
    intro p bytes hwf h
    cases h
    exact decode_encode hwf
  encode_decode := by
    intro bytes p h
    unfold decode at h
    dsimp only at h
    split_ifs at h with hdomain hframe
    cases h
    simp only [not_or, not_not] at hdomain hframe
    obtain ⟨hlen, hdomain⟩ := hdomain
    obtain ⟨(body : Bytes), rfl⟩ := prefix_iff_eq_take.2 hdomain.symm
    rw [drop_left] at hframe ⊢
    obtain ⟨hmagic, hversion, htrailer⟩ := hframe
    rw [length_append, prologueEncodedLen, prologueBodyLen] at hlen
    have hwidth : ∀ {i n : Nat}, i + n ≤ 183 → (body.slice i n).length = n :=
      fun hle => slice_length (by omega)
    refine ⟨⟨hwidth (by decide), hwidth (by decide), hwidth (by decide),
      ofBe_lt (hwidth (by decide)), hwidth (by decide),
      ofBe_lt (hwidth (by decide)), ofBe_lt (hwidth (by decide)),
      hwidth (by decide), hwidth (by decide), hwidth (by decide)⟩, ?_⟩
    have hmagic' : body.slice 0 4 = prologueMagic := hmagic
    simp only [encode, toBe_ofBe (hwidth (show 53 + 8 ≤ 183 by decide)),
      toBe_ofBe (hwidth (show 77 + 8 ≤ 183 by decide)),
      toBe_ofBe (hwidth (show 85 + 2 ≤ 183 by decide)), append_assoc]
    rw [← htrailer, ← hmagic', ← hversion, ← drop_split body 151 32, ← drop_split body 119 32,
      ← drop_split body 87 32, ← drop_split body 85 2, ← drop_split body 77 8,
      ← drop_split body 61 16, ← drop_split body 53 8, ← drop_split body 37 16,
      ← drop_split body 21 16, ← drop_split body 5 16, ← drop_split_byte 4 (by omega),
      ← drop_split body 0 4, drop_zero]

end RemoteNoisePrologueV1

/-! ## The fallback carrier -/

namespace FallbackOuterRecordV1

/-- What the header check has read. -/
theorem validateOuterHeader_eq_ok {bytes : Bytes} {header : ValidatedFallbackOuterHeader}
    (h : validateOuterHeader bytes = .ok header) :
    bytes.getD 0 0 = 1 ∧ header.routeGeneration = Bytes.ofBe (bytes.slice 1 8) ∧
      header.routeGeneration ≠ 0 ∧ header.direction.toByte = bytes.getD 9 0 ∧
      header.recordSequence = Bytes.ofBe (bytes.slice 10 8) ∧
      header.peerSeenThrough = Bytes.ofBe (bytes.slice 18 8) ∧
      header.ciphertextLen = Bytes.ofBe (bytes.slice 26 2) := by
  unfold validateOuterHeader at h
  dsimp only at h
  split_ifs at h with hversion hlength hroute
  split at h
  next => cases h
  next direction hdirection =>
    cases h
    simp only [not_or, not_not] at hversion hroute
    exact ⟨hversion.2.2, rfl, hroute.1, FallbackDirection.toByte_of_tryFrom hdirection, rfl,
      rfl, rfl⟩

theorem exactCodec :
    ExactCodecOn
      (fun record => record.routeGeneration < wordSize 64 ∧ record.peerSeenThrough < wordSize 64)
      encode decode where
  decode_encode _ _ hfits h := decode_encode h hfits.1 hfits.2
  encode_decode := by
    intro bytes record h
    unfold decode at h
    split at h
    next => cases h
    next header hheader =>
      cases h
      obtain ⟨hversion, hroute, hnonzero, hdirection, hsequence, hseen, hlength⟩ :=
        validateOuterHeader_eq_ok hheader
      obtain ⟨htotal, hmin, hmax, hlimit⟩ := validateOuterHeader_bounds hheader
      rw [fallbackOuterHeaderLen] at htotal
      have hrouteLen : (bytes.slice 1 8).length = 8 := slice_length (by omega)
      have hseqLen : (bytes.slice 10 8).length = 8 := slice_length (by omega)
      have hseenLen : (bytes.slice 18 8).length = 8 := slice_length (by omega)
      have hlenLen : (bytes.slice 26 2).length = 2 := slice_length (by omega)
      have hciphertext : (bytes.drop 28).length = header.ciphertextLen := by
        rw [length_drop]
        omega
      refine ⟨⟨hroute ▸ ofBe_lt hrouteLen, hseen ▸ ofBe_lt hseenLen⟩,
        encode_eq_ok.2 ⟨hnonzero, hlimit, hciphertext ▸ hmin, hciphertext ▸ hmax, ?_⟩⟩
      simp only [FallbackOuterRecordV1.header, hroute, hdirection, hsequence, hseen, hciphertext,
        hlength, toBe_ofBe hrouteLen, toBe_ofBe hseqLen, toBe_ofBe hseenLen,
        toBe_ofBe hlenLen, append_assoc]
      rw [← hversion, ← drop_split bytes 26 2, ← drop_split bytes 18 8, ← drop_split bytes 10 8,
        ← drop_split_byte 9 (by omega), ← drop_split bytes 1 8, head_split (by omega)]

end FallbackOuterRecordV1

namespace CumulativeAckV1

theorem exactCodec :
    ExactCodecOn (fun ack => ack.largestContiguous < wordSize 64) (fun ack => .ok ack.encode)
      decode where
  decode_encode := by
    intro ⟨largest⟩ bytes hfits h
    cases h
    have hread : Bytes.ofBe (Bytes.toBe 8 largest) = largest := ofBe_toBe hfits
    simp [decode, encode, hread]
  encode_decode := by
    intro bytes ack h
    unfold decode at h
    split_ifs at h with hgood
    cases h
    simp only [not_or, not_not] at hgood
    obtain ⟨hlen, hversion⟩ := hgood
    have hfield : (bytes.slice 1 8).length = 8 := slice_length (by omega)
    refine ⟨ofBe_lt hfield, ?_⟩
    simp only [encode, toBe_ofBe hfield]
    rw [slice_last (show bytes.length = 1 + 8 from hlen), ← hversion, ← singleton_append,
      head_split (by omega)]

end CumulativeAckV1

/-! ## The final proof binding -/

def finalProofDomain : Bytes := Bytes.ascii "flycockpit-remote-endpoint-final-proof-noise-v1" ++ [0]

def finalProofBindingBytes (role : UInt8) (childAttemptId : Block 16) (transportEpoch : UInt32)
    (initiatorEphemeral responderEphemeral prologueDigest handshakeHash connectionNonce
      grantDigest policyDigest : Block 32) (peerCertificateGeneration : UInt64) : Bytes :=
  finalProofDomain ++ ([role] ++ (childAttemptId.val ++ (Bytes.be32 transportEpoch ++
    (initiatorEphemeral.val ++ (responderEphemeral.val ++ (prologueDigest.val ++
    (handshakeHash.val ++ (connectionNonce.val ++ (grantDigest.val ++ (policyDigest.val ++
    Bytes.be64 peerCertificateGeneration))))))))))

/-- The eleven fields a final proof binds. -/
structure FinalProofBinding where
  role : UInt8
  childAttemptId : Block 16
  transportEpoch : UInt32
  initiatorEphemeral : Block 32
  responderEphemeral : Block 32
  prologueDigest : Block 32
  handshakeHash : Block 32
  connectionNonce : Block 32
  grantDigest : Block 32
  policyDigest : Block 32
  peerCertificateGeneration : UInt64

def FinalProofBinding.bytes (b : FinalProofBinding) : Bytes :=
  finalProofBindingBytes b.role b.childAttemptId b.transportEpoch b.initiatorEphemeral
    b.responderEphemeral b.prologueDigest b.handshakeHash b.connectionNonce b.grantDigest
    b.policyDigest b.peerCertificateGeneration

theorem FinalProofBinding.bytes_injective : Function.Injective FinalProofBinding.bytes := by
  rintro ⟨r, c, t, i, p, d, h, n, g, y, e⟩ ⟨r', c', t', i', p', d', h', n', g', y', e'⟩ heq
  simp only [bytes, finalProofBindingBytes] at heq
  replace heq := append_cancel_left heq
  -- every field has its own width, so the fields are equal from the front on
  obtain ⟨hrole, heq⟩ := append_inj heq rfl
  obtain ⟨hchild, heq⟩ := Block.val_append_inj heq
  obtain ⟨hepoch, heq⟩ := append_inj heq (by rw [Bytes.be32_length, Bytes.be32_length])
  obtain ⟨hinitiator, heq⟩ := Block.val_append_inj heq
  obtain ⟨hresponder, heq⟩ := Block.val_append_inj heq
  obtain ⟨hprologue, heq⟩ := Block.val_append_inj heq
  obtain ⟨hhash, heq⟩ := Block.val_append_inj heq
  obtain ⟨hnonce, heq⟩ := Block.val_append_inj heq
  obtain ⟨hgrant, heq⟩ := Block.val_append_inj heq
  obtain ⟨hpolicy, heq⟩ := Block.val_append_inj heq
  rw [singleton_inj.1 hrole, hchild, Bytes.be32_inj hepoch, hinitiator, hresponder, hprologue,
    hhash, hnonce, hgrant, hpolicy, Bytes.be64_inj heq]

/-- Every wire format of the crate is exact on the values its fields can hold, a rekey prepare
with an unknown direction byte is refused, and the bytes a final proof signs determine all that it
binds. -/
theorem noise_formats_unambiguous : (∀ routingSequence, ExactCodecOn
      (fun record => record.sequence = routingSequence ∧ record.sequence < wordSize 64)
      RemoteNoiseRecordV1.encodePlaintext
      (RemoteNoiseRecordV1.decodePlaintext · routingSequence)) ∧
    ExactCodecOn RekeyPrepareV1.Valid (fun p => .ok p.encode) RekeyPrepareV1.decode ∧
    (∀ p : RekeyPrepareV1, ¬(p.direction = 1 ∨ p.direction = 2) →
      RekeyPrepareV1.decode p.encode = .error .invalidRekey) ∧
    (∀ expectedIndex, ExactCodecOn (fun frame => frame.messageIndex = expectedIndex)
      (fun frame => HandshakeFrame.encode frame.messageIndex frame.message)
      (HandshakeFrame.decode · expectedIndex)) ∧
    ExactCodecOn RemoteNoisePrologueV1.WellFormed (fun p => .ok p.encode)
      RemoteNoisePrologueV1.decode ∧
    ExactCodecOn
      (fun record => record.routeGeneration < wordSize 64 ∧ record.peerSeenThrough < wordSize 64)
      FallbackOuterRecordV1.encode FallbackOuterRecordV1.decode ∧
    ExactCodecOn (fun ack => ack.largestContiguous < wordSize 64) (fun ack => .ok ack.encode)
      CumulativeAckV1.decode ∧
    Function.Injective FinalProofBinding.bytes :=
  ⟨RemoteNoiseRecordV1.exactCodec, RekeyPrepareV1.exactCodec,
    fun _ => RekeyPrepareV1.decode_encode_refused, HandshakeFrame.exactCodec,
    RemoteNoisePrologueV1.exactCodec, FallbackOuterRecordV1.exactCodec,
    CumulativeAckV1.exactCodec, FinalProofBinding.bytes_injective⟩

end FlyCockpit.Noise
