import LicoArc.EntryMaps
import LicoArc.Handshake

/-!
# The wire form of a first packet

The reader accepts exactly what the writer prints, and the writer prints every
packet of the right shape. The limit on the length is met without slack.
-/

namespace LicoArc

open Encoding

variable {bundle : PrekeyBundle} {packet : FirstPacket}

def bundleEntries (bundle : PrekeyBundle) : List (Nat × CborValue) :=
  bundleUnsignedEntries bundle ++
    [(10, .bytes bundle.ed25519Signature.toList), (11, .bytes bundle.mlDsa65Signature)]

def firstPacketEntries (packet : FirstPacket) : List (Nat × CborValue) :=
  [(0, .bytes packet.protocolLineId.toList), (1, .bytes packet.protectionProfileId.toList),
    (2, .bytes packet.initiatorIdentityStateDigest.toList),
    (3, .bytes packet.initiatorUserAuthorityStateDigest.toList),
    (4, .bytes packet.responderIdentityStateDigest.toList),
    (5, .bytes packet.responderUserAuthorityStateDigest.toList),
    (6, .map (bundleEntries packet.prekey)), (7, .bytes packet.initiatorX25519Public.toList),
    (8, .bytes packet.mlKem768Ciphertext), (9, .bytes packet.initiatorEd25519KeyId.toList),
    (10, .bytes packet.initiatorMlDsa65KeyId.toList),
    (11, .bytes packet.initiatorEd25519Signature.toList),
    (12, .bytes packet.initiatorMlDsa65Signature),
    (13, .bytes packet.clientConfirmCiphertext.toList),
    (14, .bytes packet.clientConfirmTag.toList)]

theorem firstPacketValue_eq (packet : FirstPacket) :
    firstPacketValue packet = .map (firstPacketEntries packet) := rfl

theorem bundleEntries_ascending (bundle : PrekeyBundle) : Ascending (bundleEntries bundle) := by
  simp [Ascending, bundleEntries, bundleUnsignedEntries]

theorem firstPacketEntries_ascending (packet : FirstPacket) :
    Ascending (firstPacketEntries packet) := by
  simp [Ascending, firstPacketEntries]

theorem firstPacketValue_wellFormed (packet : FirstPacket) :
    WellFormed (firstPacketValue packet) := by
  have hbundle : WellFormed (.map (bundleEntries packet.prekey)) := by
    refine wellFormed_map.mpr ⟨bundleEntries_ascending _, ?_⟩
    simp [bundleEntries, bundleUnsignedEntries, WellFormed]
  rw [firstPacketValue_eq]
  refine wellFormed_map.mpr ⟨firstPacketEntries_ascending packet, ?_⟩
  simp only [firstPacketEntries, List.forall_mem_cons]
  exact ⟨trivial, trivial, trivial, trivial, trivial, trivial, hbundle, trivial, trivial, trivial,
    trivial, trivial, trivial, trivial, trivial, (by rintro _ ⟨⟩)⟩

theorem validatePrekeyShape_eq_ok :
    validatePrekeyShape bundle = .ok () ↔ (0 < bundle.pairSequence ∧
      bundle.pairSequence ≤ maxSafeInteger ∧ bundle.validUntil ≤ maxSafeInteger ∧
      bundle.validFrom < bundle.validUntil ∧ bundle.validUntil - bundle.validFrom ≤ 604800) ∧
      bundle.mlKem768Public.length = 1184 ∧ bundle.mlDsa65Signature.length = 3309 := by
  simp only [validatePrekeyShape, reject_eq_ok, not_or, not_lt, not_le, not_not, ge_iff_le,
    mlKem768PublicKeyBytes, mlDsa65SignatureBytes, Nat.pos_iff_ne_zero, ne_eq, and_assoc]

theorem shape_sizes (h : validateFirstPacketShape packet = .ok ()) :
    packet.prekey.mlKem768Public.length = 1184 ∧ packet.prekey.mlDsa65Signature.length = 3309 ∧
      packet.mlKem768Ciphertext.length = 1088 ∧ packet.initiatorMlDsa65Signature.length = 3309 := by
  simp only [validateFirstPacketShape, Except.bind_eq_ok, reject_eq_ok, not_or, not_not] at h
  obtain ⟨⟨⟩, hprekey, _, _, hciphertext, hsignature⟩ := h
  obtain ⟨_, hkem, hml⟩ := validatePrekeyShape_eq_ok.mp hprekey
  exact ⟨hkem, hml, hciphertext, hsignature⟩

/-! ## Reading -/

section Reading

variable {entries : List (Nat × CborValue)} {label : Nat}

theorem wireBytes_eq_ok {length : Nat} {value : Bytes} :
    wireBytes entries label length = .ok value ↔
      lookupEntry label entries = some (.bytes value) ∧ value.length = length := by
  rw [wireBytes]
  cases lookupEntry label entries with
  | none => simp
  | some found =>
    cases found with
    | bytes found =>
      simp only [Except.bind_eq_ok, reject_eq_ok, not_not, exists_const, Except.pure_eq,
        Except.ok.injEq, Option.some.injEq, CborValue.bytes.injEq]
      constructor
      · intro h
        obtain ⟨hlength, rfl⟩ := h
        exact ⟨rfl, hlength⟩
      · intro h
        obtain ⟨rfl, hlength⟩ := h
        exact ⟨hlength, rfl⟩
    | null | unsigned | text | bool | array | map => simp

theorem wireFixed_eq_ok {n : Nat} {value : FixedBytes n} :
    wireFixed n entries label = .ok value ↔
      lookupEntry label entries = some (.bytes value.toList) := by
  simp only [wireFixed, Except.bind_eq_ok, wireBytes_eq_ok, okOr_eq_ok, FixedBytes.ofBytes?_eq_some]
  constructor
  · intro h
    obtain ⟨_, ⟨hlookup, _⟩, rfl⟩ := h
    exact hlookup
  · intro h
    exact ⟨_, ⟨h, value.toList_length⟩, rfl⟩

theorem wireUint_eq_ok {value : Nat} :
    wireUint entries label = .ok value ↔ lookupEntry label entries = some (.unsigned value) := by
  rw [wireUint]
  cases lookupEntry label entries with
  | none => simp
  | some found => cases found <;> simp

theorem decodePrekey_eq_ok :
    decodePrekey entries = .ok bundle ↔
      (∀ entry ∈ bundleEntries bundle, lookupEntry entry.1 entries = some entry.2) ∧
      bundle.mlKem768Public.length = 1184 ∧ bundle.mlDsa65Signature.length = 3309 := by
  simp only [decodePrekey, Except.bind_eq_ok, wireFixed_eq_ok, wireBytes_eq_ok, wireUint_eq_ok,
    Except.pure_eq, Except.ok.injEq, bundleEntries, bundleUnsignedEntries, List.cons_append,
    List.nil_append, List.forall_mem_cons, List.not_mem_nil, false_implies, implies_true, and_true]
  constructor
  · intro h
    obtain ⟨_, h0, _, h1, _, h2, _, h3, _, h4, _, h5, _, h6, _, ⟨h7, hkem⟩, _, h8, _, h9, _, h10,
      _, ⟨h11, hml⟩, rfl⟩ := h
    exact ⟨⟨h0, h1, h2, h3, h4, h5, h6, h7, h8, h9, h10, h11⟩, hkem, hml⟩
  · intro h
    obtain ⟨⟨h0, h1, h2, h3, h4, h5, h6, h7, h8, h9, h10, h11⟩, hkem, hml⟩ := h
    exact ⟨_, h0, _, h1, _, h2, _, h3, _, h4, _, h5, _, h6, _, ⟨h7, hkem⟩, _, h8, _, h9, _, h10,
      _, ⟨h11, hml⟩, rfl⟩

theorem entries_of_reads {inner : List (Nat × CborValue)} (hwell : WellFormed (.map entries))
    (hcount : entries.length = 15) (hinner : lookupEntry 6 entries = some (.map inner))
    (hinnerCount : inner.length = 12)
    (hbundle : ∀ entry ∈ bundleEntries packet.prekey, lookupEntry entry.1 inner = some entry.2)
    (h : ∀ entry ∈ firstPacketEntries packet, entry.1 ≠ 6 →
      lookupEntry entry.1 entries = some entry.2) :
    .map entries = firstPacketValue packet := by
  obtain ⟨hascending, hvalues⟩ := wellFormed_map.mp hwell
  have hinnerWell := hvalues _ (mem_of_lookupEntry hinner)
  have hsame : inner = bundleEntries packet.prekey :=
    eq_of_lookupEntry (wellFormed_map.mp hinnerWell).1 (bundleEntries_ascending _)
      (by rw [hinnerCount]; rfl) hbundle
  rw [firstPacketValue_eq]
  refine congrArg CborValue.map (eq_of_lookupEntry hascending (firstPacketEntries_ascending _)
    (by rw [hcount]; rfl) fun entry hentry => ?_)
  by_cases hsix : entry.1 = 6
  · have hprekey : (6, CborValue.map (bundleEntries packet.prekey)) ∈ firstPacketEntries
      packet := by
      simp [firstPacketEntries]
    have hvalue := lookupEntry_of_mem (firstPacketEntries_ascending packet) hentry
    rw [hsix, lookupEntry_of_mem (firstPacketEntries_ascending packet) hprekey] at hvalue
    rw [hsix, hinner, hsame, hvalue]
  · exact h entry hentry hsix

theorem decodeFirstPacket_eq_ok {bytes : Bytes} :
    decodeFirstPacket bytes = .ok packet ↔
      bytes.length ≤ maxFirstPacketBytes ∧ decode bytes = .ok (firstPacketValue packet) ∧
      validateFirstPacketShape packet = .ok () := by
  constructor
  · intro h
    obtain ⟨_, hlength, h⟩ := Except.bind_eq_ok.mp h
    obtain ⟨value, hvalue, h⟩ := Except.bind_eq_ok.mp h
    split at h
    · rename_i entries
      obtain ⟨_, hcount, h⟩ := Except.bind_eq_ok.mp h
      split at h
      · rename_i inner hinner
        simp only [Except.bind_eq_ok, wireFixed_eq_ok, wireBytes_eq_ok, reject_eq_ok, not_not,
          Except.pure_eq, Except.ok.injEq, decodePrekey_eq_ok] at h hcount hlength
        obtain ⟨_, hinnerCount, _, h0, _, h1, _, h2, _, h3, _, h4, _, h5, prekey,
          ⟨hbundle, _, _⟩, _, h7, _, ⟨h8, _⟩, _, h9, _, h10, _, h11, _, ⟨h12, _⟩, _, h13, _, h14,
          _, hshape, rfl⟩ := h
        have hwell := decode_wellFormed hvalue
        rw [← entries_of_reads hwell hcount hinner hinnerCount hbundle]
        · exact ⟨not_lt.mp hlength, hvalue, hshape⟩
        · simp [firstPacketEntries, h0, h1, h2, h3, h4, h5, h7, h8, h9, h10, h11, h12, h13, h14]
      · cases h
    · cases h
  · intro h
    obtain ⟨hlength, hdecode, hshape⟩ := h
    have hsizes := shape_sizes hshape
    have hsix : lookupEntry 6 (firstPacketEntries packet) =
        some (.map (bundleEntries packet.prekey)) := rfl
    have hreads : ∀ entry ∈ firstPacketEntries packet,
        lookupEntry entry.1 (firstPacketEntries packet) = some entry.2 :=
      fun entry hentry => lookupEntry_of_mem (firstPacketEntries_ascending packet) hentry
    have hbundle : ∀ entry ∈ bundleEntries packet.prekey,
        lookupEntry entry.1 (bundleEntries packet.prekey) = some entry.2 :=
      fun entry hentry => lookupEntry_of_mem (bundleEntries_ascending _) hentry
    rw [decodeFirstPacket, reject_of_not _ (not_lt.mpr hlength), Except.ok_bind, hdecode,
      Except.ok_bind, firstPacketValue_eq]
    simp only [hsix, Except.bind_eq_ok, wireFixed_eq_ok, wireBytes_eq_ok, reject_eq_ok, not_not,
      Except.pure_eq, Except.ok.injEq, decodePrekey_eq_ok]
    exact ⟨(), rfl, (), rfl, _, rfl, _, rfl, _, rfl, _, rfl, _, rfl, _, rfl, packet.prekey,
      ⟨hbundle, hsizes.1, hsizes.2.1⟩, _, rfl, _, ⟨rfl, hsizes.2.2.1⟩, _, rfl, _, rfl, _, rfl, _,
      ⟨rfl, hsizes.2.2.2⟩, _, rfl, _, rfl, (), hshape, rfl⟩

end Reading

/-! ## Writing -/

section Writing

theorem headLength_le (value : Nat) : headLength value ≤ 9 := by
  simp only [headLength]
  split_ifs <;> omega

/-- The lengths of the counters of a bundle, of at most nine bytes each. -/
def counterLengths (bundle : PrekeyBundle) : Nat :=
  headLength bundle.pairSequence + headLength bundle.validFrom + headLength bundle.validUntil

theorem counterLengths_le (bundle : PrekeyBundle) : counterLengths bundle ≤ 27 := by
  have hsequence := headLength_le bundle.pairSequence
  have hfrom := headLength_le bundle.validFrom
  have huntil := headLength_le bundle.validUntil
  rw [counterLengths]
  omega

theorem bundle_length (h : validatePrekeyShape bundle = .ok ()) :
    encodedLength 1 (.map (bundleEntries bundle)) = .ok (4782 + counterLengths bundle) := by
  obtain ⟨⟨_, hsequence, huntil, hfrom, _⟩, hkem, hml⟩ := validatePrekeyShape_eq_ok.mp h
  have hfromBound : bundle.validFrom ≤ maxInteger := hfrom.le.trans huntil
  have hcounters := counterLengths_le bundle
  have hfixed : ∀ {n : Nat} (value : FixedBytes n), n ≤ maxRawBytes →
      encodedLength 2 (.bytes value.toList) = .ok (headLength n + n) :=
    fun value hn => encodedLength_fixed (by decide) hn value
  have hunsigned : ∀ {value : Nat}, value ≤ maxInteger →
      encodedLength 2 (.unsigned value) = .ok (headLength value) :=
    fun hvalue => encodedLength_unsigned (by decide) hvalue
  have hsizes : List.Forall₂ (fun entry size => encodedLength 2 entry.2 = .ok size)
      (bundleEntries bundle) [34, 34, 34, 34, 34, headLength bundle.pairSequence, 34, 1187,
        headLength bundle.validFrom, headLength bundle.validUntil, 66, 3312] :=
    .cons (hfixed _ (by decide)) <| .cons (hfixed _ (by decide)) <| .cons (hfixed _ (by decide)) <|
    .cons (hfixed _ (by decide)) <| .cons (hfixed _ (by decide)) <| .cons (hunsigned hsequence) <|
    .cons (hfixed _ (by decide)) <|
    .cons (encodedLength_sized hkem (by decide) (by decide)) <|
    .cons (hunsigned hfromBound) <| .cons (hunsigned huntil) <| .cons (hfixed _ (by decide)) <|
    .cons (encodedLength_sized hml (by decide) (by decide)) .nil
  have hsum : 1 + 12 + [34, 34, 34, 34, 34, headLength bundle.pairSequence, 34, 1187,
      headLength bundle.validFrom, headLength bundle.validUntil, 66, 3312].sum =
        4782 + counterLengths bundle := by
    simp only [counterLengths, List.sum_cons, List.sum_nil]
    omega
  rw [← hsum]
  refine encodedLength_map_of_forall₂ (by decide) (by simp [bundleEntries, bundleUnsignedEntries,
    maxCollectionItems]) (by simp [bundleEntries, bundleUnsignedEntries]) hsizes ?_
  change 1 + 12 + _ ≤ _
  rw [hsum]
  simp only [maxEncodedBytes]
  omega

theorem packet_length (h : validateFirstPacketShape packet = .ok ()) :
    encodedLength 0 (firstPacketValue packet) = .ok (9628 + counterLengths packet.prekey) := by
  obtain ⟨_, _, hciphertext, hsignature⟩ := shape_sizes h
  obtain ⟨⟨⟩, hprekey, _⟩ := Except.bind_eq_ok.mp h
  have hcounters := counterLengths_le packet.prekey
  have hfixed : ∀ {n : Nat} (value : FixedBytes n), n ≤ maxRawBytes →
      encodedLength 1 (.bytes value.toList) = .ok (headLength n + n) :=
    fun value hn => encodedLength_fixed (by decide) hn value
  have hsizes : List.Forall₂ (fun entry size => encodedLength 1 entry.2 = .ok size)
      (firstPacketEntries packet) [34, 34, 34, 34, 34, 34, 4782 + counterLengths packet.prekey, 34,
        1091, 34, 34, 66, 3312, 38, 17] :=
    .cons (hfixed _ (by decide)) <| .cons (hfixed _ (by decide)) <| .cons (hfixed _ (by decide)) <|
    .cons (hfixed _ (by decide)) <| .cons (hfixed _ (by decide)) <| .cons (hfixed _ (by decide)) <|
    .cons (bundle_length hprekey) <| .cons (hfixed _ (by decide)) <|
    .cons (encodedLength_sized hciphertext (by decide) (by decide)) <|
    .cons (hfixed _ (by decide)) <| .cons (hfixed _ (by decide)) <| .cons (hfixed _ (by decide)) <|
    .cons (encodedLength_sized hsignature (by decide) (by decide)) <|
    .cons (hfixed _ (by decide)) <| .cons (hfixed _ (by decide)) .nil
  have hsum : 1 + 15 + [34, 34, 34, 34, 34, 34, 4782 + counterLengths packet.prekey, 34, 1091, 34,
      34, 66, 3312, 38, 17].sum = 9628 + counterLengths packet.prekey := by
    simp only [List.sum_cons, List.sum_nil]
    omega
  rw [firstPacketValue_eq, ← hsum]
  refine encodedLength_map_of_forall₂ (by decide) (by simp [firstPacketEntries, maxCollectionItems])
    (by simp [firstPacketEntries]) hsizes ?_
  change 1 + 15 + _ ≤ _
  rw [hsum]
  simp only [maxEncodedBytes]
  omega

theorem encodeFirstPacket_eq_ok {bytes : Bytes} :
    encodeFirstPacket packet = .ok bytes ↔ validateFirstPacketShape packet = .ok () ∧
      encode (firstPacketValue packet) = .ok bytes ∧ bytes.length ≤ maxFirstPacketBytes := by
  simp only [encodeFirstPacket, Except.bind_eq_ok, reject_eq_ok, not_lt, Except.pure_eq,
    Except.ok.injEq]
  constructor
  · intro h
    obtain ⟨⟨⟩, hshape, encoded, hencoded, _, hlength, rfl⟩ := h
    exact ⟨hshape, hencoded, hlength⟩
  · intro h
    exact ⟨(), h.1, bytes, h.2.1, (), h.2.2, rfl⟩

end Writing

/-- The wire form of a first packet is a bijection with the packets of the right shape. -/
theorem first_packet_bijection :
    (∀ bytes packet, decodeFirstPacket bytes = .ok packet ↔ encodeFirstPacket packet = .ok bytes) ∧
    ∀ packet, validateFirstPacketShape packet = .ok () →
      ∃ bytes, encodeFirstPacket packet = .ok bytes := by
  constructor
  · intro bytes packet
    rw [decodeFirstPacket_eq_ok, encodeFirstPacket_eq_ok]
    constructor
    · intro h
      exact ⟨h.2.2, encode_decode h.2.1, h.1⟩
    · intro h
      exact ⟨h.2.2, decode_encode (firstPacketValue_wellFormed packet) h.2.1, h.1⟩
  · intro packet hshape
    have hlength := packet_length hshape
    have hcounters := counterLengths_le packet.prekey
    refine ⟨encodeInto (firstPacketValue packet), encodeFirstPacket_eq_ok.mpr
      ⟨hshape, encode_eq_ok.mpr ⟨⟨_, hlength⟩, rfl⟩, ?_⟩⟩
    rw [(encodeInto_length _ hlength).1]
    simp only [maxFirstPacketBytes]
    omega

end LicoArc
