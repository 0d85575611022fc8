import LicoArc.EncodingSize
import LicoArc.MessageWire
import LicoArc.Verdicts

/-!
# The framing and the limits of a record

The length of the header is found by decoding prefixes of the packet. One prefix
decodes at most, and the limits of the plaintext, of the packet and of the
pending work leave room for the widest header.
-/

namespace LicoArc

/-! ## Framing -/

theorem RatchetHeader.take_unique {packet : Bytes} {i j : Nat} {first second : RatchetHeader}
    (hi : RatchetHeader.decode (packet.take i) = .ok first)
    (hj : RatchetHeader.decode (packet.take j) = .ok second) : packet.take i = packet.take j := by
  simp only [RatchetHeader.decode, Except.bind_eq_ok] at hi hj
  obtain ⟨left, hleft, _⟩ := hi
  obtain ⟨right, hright, _⟩ := hj
  have hjoined : packet.take i ++ packet.drop i = packet.take j ++ packet.drop j := by
    rw [List.take_append_drop, List.take_append_drop]
  exact (Encoding.encode_prefix_free (Encoding.decode_wellFormed hleft)
    (Encoding.decode_wellFormed hright) (Encoding.encode_decode hleft)
    (Encoding.encode_decode hright) hjoined).2.1

theorem RatchetHeader.length_unique {packet : Bytes} {i j : Nat} {first second : RatchetHeader}
    (hi : i ≤ packet.length) (hj : j ≤ packet.length)
    (hfirst : RatchetHeader.decode (packet.take i) = .ok first)
    (hsecond : RatchetHeader.decode (packet.take j) = .ok second) : i = j := by
  have hlength := congrArg List.length (RatchetHeader.take_unique hfirst hsecond)
  rwa [List.length_take_of_le hi, List.length_take_of_le hj] at hlength

/-- The search for the header finds the prefix that decodes. -/
theorem ratchetHeaderLength_of_decode {packet : Bytes} {i : Nat} {header : RatchetHeader}
    (hlow : 38 ≤ i) (hhigh : i ≤ 48) (hi : i ≤ packet.length)
    (hdecode : RatchetHeader.decode (packet.take i) = .ok header) :
    ratchetHeaderLength packet = .ok i := by
  rw [ratchetHeaderLength, okOr_eq_ok, List.find?_range'_eq_some]
  refine ⟨by simp [hdecode, Except.isOk, Except.toBool], ?_, ?_⟩
  · rw [List.mem_range'_1]
    omega
  · intro j _ hlt
    cases hprefix : RatchetHeader.decode (packet.take j) with
    | error e => rfl
    | ok other =>
      have hsame := RatchetHeader.length_unique (hlt.le.trans hi) hi hprefix hdecode
      omega

/-- A record is split where its header ends, and no other prefix of a packet is a header. -/
theorem record_framing_unambiguous :
    (∀ header : RatchetHeader, header.pn < 2 ^ 32 → header.n < 2 ^ 32 → ∀ body : Bytes,
      ∃ bytes, header.encode = .ok bytes ∧
        ratchetHeaderLength (bytes ++ body) = .ok bytes.length ∧
        RatchetHeader.decode ((bytes ++ body).take bytes.length) = .ok header) ∧
    ∀ (packet : Bytes) (i j : Nat) (first second : RatchetHeader),
      38 ≤ i → i ≤ 48 → i ≤ packet.length → 38 ≤ j → j ≤ 48 → j ≤ packet.length →
      RatchetHeader.decode (packet.take i) = .ok first →
      RatchetHeader.decode (packet.take j) = .ok second →
      i = j ∧ first = second ∧ ratchetHeaderLength packet = .ok i := by
  constructor
  · intro header hpn hn body
    obtain ⟨bytes, hbytes, _, _⟩ := RatchetHeader.encode_ok hpn hn
    obtain ⟨hlength, htake, _, hdecode⟩ := record_split body hpn hn hbytes
    exact ⟨bytes, hbytes, hlength, by rwa [htake]⟩
  · intro packet i j first second hilow hihigh hi _ _ hj hfirst hsecond
    have hij := RatchetHeader.length_unique hi hj hfirst hsecond
    subst hij
    have hsame : first = second := Except.ok.inj (hfirst.symm.trans hsecond)
    exact ⟨rfl, hsame, ratchetHeaderLength_of_decode hilow hihigh hi hfirst⟩

/-- The header of the widest counters, and the header of the smallest ones. -/
theorem record_framing_of_widest :
    (∃ bytes, (⟨.replicate 32 0, 2 ^ 32 - 1, 2 ^ 32 - 1⟩ : RatchetHeader).encode = .ok bytes ∧
      ratchetHeaderLength (bytes ++ [7]) = .ok bytes.length ∧
      RatchetHeader.decode ((bytes ++ [7]).take bytes.length) =
        .ok ⟨.replicate 32 0, 2 ^ 32 - 1, 2 ^ 32 - 1⟩) ∧
    ∃ bytes, (⟨.replicate 32 0, 0, 0⟩ : RatchetHeader).encode = .ok bytes ∧
      ratchetHeaderLength bytes = .ok bytes.length := by
  constructor
  · exact record_framing_unambiguous.1 ⟨.replicate 32 0, 2 ^ 32 - 1, 2 ^ 32 - 1⟩ (by decide)
      (by decide) [7]
  · obtain ⟨bytes, hbytes, hlow, hhigh⟩ :=
      @RatchetHeader.encode_ok ⟨.replicate 32 0, 0, 0⟩ (by decide) (by decide)
    have hdecode := RatchetHeader.decode_encode (by decide) (by decide) hbytes
    have htake : bytes.take bytes.length = bytes := List.take_length
    rw [← htake] at hdecode
    exact ⟨bytes, hbytes, (record_framing_unambiguous.2 bytes bytes.length bytes.length _ _
      (by omega) hhigh le_rfl (by omega) hhigh le_rfl hdecode hdecode).2.2⟩

/-! ## Limits of a record -/

/-- The output of the cipher is longer than its input by its tag, of sixteen bytes. -/
structure Provider.Tagged (provider : Provider) : Prop where
  sealed {key : FixedBytes 32} {nonce : FixedBytes 12} {aad plaintext body : Bytes}
    (h : provider.aeadSeal key nonce aad plaintext = .ok body) :
    body.length = plaintext.length + 16
  opened {key : FixedBytes 32} {nonce : FixedBytes 12} {aad body plaintext : Bytes}
    (h : provider.aeadOpen key nonce aad body = .ok plaintext) :
    body.length = plaintext.length + 16

/-- A key derivation fails, if it does, with the error of the provider. -/
structure Provider.Derives (provider : Provider) : Prop where
  hkdf {salt ikm info : Bytes} {length : Nat} {e : Error}
    (h : provider.hkdfSha256 salt ikm info length = .error e) :
    e = .terminal .providerFailure .provider
  expand {key : FixedBytes 32} {info : Bytes} {length : Nat} {e : Error}
    (h : provider.hkdfExpandSha256 key info length = .error e) :
    e = .terminal .providerFailure .provider

section

variable {provider : Provider} {e : Error} (he : e.code = .boundExceeded)

include he

theorem recordError_ne {code : ErrorCode} (hcode : code ≠ .boundExceeded) :
    e ≠ recordError code := by
  rintro rfl
  exact hcode he

theorem okOr_recordError_ne {α : Type} {code : ErrorCode} (hcode : code ≠ .boundExceeded)
    (x : Option α) : okOr (recordError code) x ≠ .error e := by
  cases x with
  | none => exact fun h => recordError_ne he hcode (Except.error.inj h).symm
  | some => exact nofun

theorem nextCounter_ne (value : Nat) : nextCounter value ≠ .error e :=
  Except.bind_ne_error_of (reject_ne (recordError_ne he (by decide))) fun _ _ => nofun

theorem expandSha256_ne (hkdf : provider.Derives) (key : FixedBytes 32) (info : Bytes)
    (length : Nat) : provider.hkdfExpandSha256 key info length ≠ .error e := by
  intro h
  rw [hkdf.expand h] at he
  cases he

theorem hkdfSha256_ne (hkdf : provider.Derives) (salt ikm info : Bytes) (length : Nat) :
    provider.hkdfSha256 salt ikm info length ≠ .error e := by
  intro h
  rw [hkdf.hkdf h] at he
  cases he

theorem messageStep_ne (hkdf : provider.Derives) (chain : Secret) (number : Nat) :
    messageStep provider chain number ≠ .error e := by
  refine Except.bind_ne_error_of (expandSha256_ne he hkdf _ _ _) fun _ _ => ?_
  refine Except.bind_ne_error_of (expandSha256_ne he hkdf _ _ _) fun _ _ => ?_
  exact Except.bind_ne_error_of (expandSha256_ne he hkdf _ _ _) fun _ _ => nofun

theorem dhKeys_ne (hkdf : provider.Derives) (root shared context : FixedBytes 32)
    (direction : Direction) : dhKeys provider root shared direction context ≠ .error e := by
  refine Except.bind_ne_error_of (hkdfSha256_ne he hkdf _ _ _ _) fun _ _ => ?_
  exact Except.bind_ne_error_of (hkdfSha256_ne he hkdf _ _ _ _) fun _ _ => nofun

theorem retainSkipped_ne (hkdf : provider.Derives) (dh : FixedBytes 32) (count : Nat) :
    ∀ (number : Nat) (chain : Secret) (skipped : SkippedKeys),
      retainSkipped provider dh count number chain skipped ≠ .error e := by
  induction count with
  | zero => exact fun _ _ _ => nofun
  | succ count ih =>
    intro number chain skipped
    exact Except.bind_ne_error_of (messageStep_ne he hkdf _ _) fun step _ => ih _ _ _

namespace RatchetState

variable {state : RatchetState}

theorem openRecord_ne (key : Secret) (nonce : FixedBytes 12) (headerBytes body : Bytes) :
    state.openRecord provider key nonce headerBytes body ≠ .error e :=
  mapError_ne (recordError_ne he (by decide))

theorem retainPrevious_ne (hkdf : provider.Derives) (distance : Nat) :
    state.retainPrevious provider distance ≠ .error e := by
  rw [retainPrevious]
  split
  · refine Except.bind_ne_error_of (okOr_recordError_ne he (by decide) _) fun _ _ => ?_
    exact Except.bind_ne_error_of (retainSkipped_ne he hkdf _ _ _ _ _) fun _ _ => nofun
  · exact nofun

theorem receiveInChain_ne (hkdf : provider.Derives) (header : RatchetHeader)
    (headerBytes body : Bytes) :
    state.receiveInChain provider header headerBytes body ≠ .error e := by
  rw [receiveInChain]
  split
  · refine Except.bind_ne_error_of (okOr_recordError_ne he (by decide) _) fun _ _ => ?_
    exact Except.bind_ne_error_of (openRecord_ne he _ _ _ _) fun _ _ => (by rintro ⟨⟩)
  · refine Except.bind_ne_error_of (reject_ne (recordError_ne he (by decide))) fun _ _ => ?_
    refine Except.bind_ne_error_of (okOr_recordError_ne he (by decide) _) fun _ _ => ?_
    refine Except.bind_ne_error_of (retainSkipped_ne he hkdf _ _ _ _ _) fun _ _ => ?_
    refine Except.bind_ne_error_of (messageStep_ne he hkdf _ _) fun _ _ => ?_
    refine Except.bind_ne_error_of (nextCounter_ne he _) fun _ _ => ?_
    exact Except.bind_ne_error_of (openRecord_ne he _ _ _ _) fun _ _ => (by rintro ⟨⟩)

variable {m : Type → Type} [Monad m] (o : Outcomes m) {custody : KeyCustody m}

theorem dhStep_not_mayFail (hkdf : provider.Derives) (root publicKey context : FixedBytes 32)
    (privateKey : CustodyRef .x25519Private) (direction : Direction) :
    ¬o.mayFail (dhStep provider custody root privateKey publicKey direction context) e := by
  refine o.not_mayFail_bind (o.not_mayFail_attempt (recordError_ne he (by decide))) fun _ _ => ?_
  exact o.not_mayFail_lift (dhKeys_ne he hkdf _ _ _ _)

theorem receiveDhTransition_not_mayFail (hkdf : provider.Derives) (header : RatchetHeader)
    (fresh : Option (StagedSecretHandle .x25519Private)) :
    ¬o.mayFail (state.receiveDhTransition provider custody header fresh) e := by
  refine o.not_mayFail_bind (o.not_mayFail_lift (reject_ne (recordError_ne he (by decide))))
    fun _ _ => ?_
  refine o.not_mayFail_bind (o.not_mayFail_lift (reject_ne (recordError_ne he (by decide))))
    fun _ _ => ?_
  refine o.not_mayFail_bind (o.not_mayFail_lift (okOr_recordError_ne he (by decide) _))
    fun _ _ => ?_
  refine o.not_mayFail_bind (o.not_mayFail_attempt (recordError_ne he (by decide))) fun _ _ => ?_
  refine o.not_mayFail_bind (o.not_mayFail_lift (retainPrevious_ne he hkdf _)) fun _ _ => ?_
  refine o.not_mayFail_bind (dhStep_not_mayFail he o hkdf _ _ _ _ _) fun _ _ => ?_
  exact o.not_mayFail_bind (dhStep_not_mayFail he o hkdf _ _ _ _ _) fun _ _ => o.mayFail_pure _ _

/-- The size of a record is the only bound that receiving it checks. -/
theorem receive_not_mayFail (hkdf : provider.Derives) {packet : Bytes}
    (hsize : packet.length ≤ maxProtectedPacketBytes)
    (fresh : Option (StagedSecretHandle .x25519Private)) :
    ¬o.mayFail (state.receive provider custody packet fresh) e := by
  refine o.not_mayFail_bind (o.not_mayFail_lift ?_) fun _ _ => ?_
  · rw [reject_of_not _ (by omega)]
    exact nofun
  refine o.not_mayFail_bind (o.not_mayFail_lift ?_) fun length hlength => ?_
  · exact okOr_recordError_ne he (by decide) _
  refine o.not_mayFail_bind (o.not_mayFail_lift ?_) fun header _ => ?_
  · -- The search for the length has decoded this prefix.
    have hfound := List.find?_some (okOr_eq_ok.mp ((o.mayOk_lift _ _).mp hlength))
    intro hdecode
    simp [hdecode, Except.isOk, Except.toBool] at hfound
  split
  · exact o.not_mayFail_bind (o.not_mayFail_lift (openRecord_ne he _ _ _ _)) fun _ _ =>
      o.mayFail_pure _ _
  · by_cases hdh : header.dh ≠ state.peerPublic
    · rw [if_pos hdh]
      exact o.not_mayFail_bind (receiveDhTransition_not_mayFail he o hkdf _ _) fun _ _ =>
        o.not_mayFail_lift (receiveInChain_ne he hkdf _ _ _)
    · rw [if_neg hdh]
      exact o.not_mayFail_bind (o.mayFail_pure _ _) fun _ _ =>
        o.not_mayFail_lift (receiveInChain_ne he hkdf _ _ _)

end RatchetState

end

namespace RatchetState

variable {provider : Provider} {state next : RatchetState} {plaintext packet : Bytes}

theorem send_parts (htag : provider.Tagged) (hpn : state.pn < 2 ^ 32)
    (h : state.send provider plaintext = .ok (next, packet)) :
    ∃ header body, RatchetHeader.encode ⟨state.localPublic, state.pn, state.ns⟩ = .ok header ∧
      packet = header ++ body ∧ header.length ≤ 48 ∧ body.length = plaintext.length + 16 ∧
      state.ns < 2 ^ 32 := by
  obtain ⟨_, chain, step, header, body, _, hns, _, hheader, hbody, _, _, rfl⟩ := send_eq_ok.mp h
  have hn : state.ns < 2 ^ 32 := Nat.lt_of_succ_lt hns
  obtain ⟨_, hbytes, _, hlength⟩ :=
    @RatchetHeader.encode_ok ⟨state.localPublic, state.pn, state.ns⟩ hpn hn
  cases hbytes.symm.trans hheader
  exact ⟨header, body, hheader, rfl, hlength, htag.sealed hbody, hn⟩

theorem send_ne (htag : provider.Tagged) (hkdf : provider.Derives) (hpn : state.pn < 2 ^ 32)
    (hns : state.ns < 2 ^ 32) (hplain : plaintext.length ≤ maxPlaintextBytes) {e : Error}
    (he : e.code = .boundExceeded) : state.send provider plaintext ≠ .error e := by
  obtain ⟨bytes, hbytes, _, hhigh⟩ :=
    @RatchetHeader.encode_ok ⟨state.localPublic, state.pn, state.ns⟩ hpn hns
  refine Except.bind_ne_error_of ?_ fun _ _ => ?_
  · rw [reject_of_not _ (by omega)]
    exact nofun
  refine Except.bind_ne_error_of (okOr_recordError_ne he (by decide) _) fun _ _ => ?_
  refine Except.bind_ne_error_of (nextCounter_ne he _) fun _ _ => ?_
  refine Except.bind_ne_error_of (messageStep_ne he hkdf _ _) fun _ _ => ?_
  refine Except.bind_ne_error_of (fun h => by cases hbytes.symm.trans h) fun header hheader => ?_
  refine Except.bind_ne_error_of (mapError_ne (recordError_ne he (by decide))) fun body hbody => ?_
  refine Except.bind_ne_error_of ?_ fun _ _ => nofun
  cases hbytes.symm.trans hheader
  have htagged := htag.sealed (Except.mapError_eq_ok.mp hbody)
  rw [reject_of_not]
  · exact nofun
  · rw [List.length_append]
    simp only [maxPlaintextBytes] at hplain
    simp only [maxProtectedPacketBytes]
    omega

end RatchetState

theorem PendingItem.bounded_packet {id : PendingId} {packet : Bytes}
    (h : packet.length ≤ maxPendingPayloadBytes) :
    PendingItem.packet id packet = .ok ⟨id, .packet packet⟩ := by
  simp only [PendingItem.packet, bounded]
  rw [reject_of_not _ (by omega)]
  rfl

theorem PendingItem.bounded_plaintext {id : PendingId} {plaintext : Bytes}
    (h : plaintext.length ≤ maxPendingPlaintextBytes) :
    PendingItem.plaintext id plaintext = .ok ⟨id, .plaintext plaintext⟩ := by
  simp only [PendingItem.plaintext, bounded]
  rw [reject_of_not _ (by omega)]
  rfl

/-! ## The size of a message -/

namespace Message

open Encoding Messaging

variable {message : Message}

theorem entrySize_le {key size : Nat} {value : Option CborValue}
    (h : ∀ found ∈ value, valueSize found ≤ size) : entriesSize (entry key value) ≤ 9 + size := by
  cases value with
  | none => exact Nat.zero_le _
  | some value =>
    have hvalue := h value rfl
    simp only [entry, Option.map_some, Option.toList_some, entriesSize]
    omega

theorem presentSize_le {absent : Prop} [Decidable absent] {key size : Nat} {value : CborValue}
    (h : valueSize value ≤ size) : entriesSize (present absent key value) ≤ 9 + size := by
  rw [present]
  split
  · exact Nat.zero_le _
  · simp only [entriesSize]
    omega

theorem extensionsValue_size {extensions : Std.ExtTreeMap Nat Bytes} (hcount : extensions.size ≤ 16)
    (hlength : ∀ extension ∈ extensions.toList, extension.2.length ≤ 4096) :
    valueSize (extensionsValue extensions) ≤ 9 + 16 * 4114 := by
  have hentries := @entriesSize_le (extensions.toList.map fun entry => (entry.1, .bytes entry.2))
    4105 (by
      rw [List.forall_mem_map]
      intro extension hextension
      have hbytes := hlength extension hextension
      simp only [valueSize]
      omega)
  rw [List.length_map, Std.ExtTreeMap.length_toList] at hentries
  rw [extensionsValue, valueSize]
  omega

theorem attachmentsValue_size {items : List Attachment} (hcount : items.length ≤ maxAttachments) :
    valueSize (attachmentsValue items) ≤ 9 + 8 * 129 := by
  have hitems := @itemsSize_le (items.map attachmentValue) 129 (by
    rw [List.forall_mem_map]
    intro item _
    simp only [attachmentValue, valueSize, entriesSize, List.Vector.toList_length]
    omega)
  rw [List.length_map] at hitems
  simp only [maxAttachments] at hcount
  rw [attachmentsValue, valueSize]
  omega

theorem sizes_of_validate (h : message.validate = .ok ()) :
    message.payload.length ≤ maxPayloadBytes ∧ message.attachments.length ≤ maxAttachments ∧
      message.extensions.size ≤ 16 ∧
      ∀ extension ∈ message.extensions.toList, extension.2.length ≤ 4096 := by
  simp only [validate, Except.bind_eq_ok, reject_eq_ok, exists_const, not_or, not_lt, not_not,
    List.any_eq_true, decide_eq_true_eq, not_exists, not_and, gt_iff_lt] at h
  obtain ⟨⟨hpayload, hattachments⟩, ⟨hextensions, hlengths, _⟩, _⟩ := h
  exact ⟨hpayload, hattachments, hextensions,
    fun extension hextension => (hlengths extension hextension).2.2⟩

theorem encode_length_le {bytes : Bytes} (h : message.encode = .ok bytes) :
    bytes.length ≤ maxPlaintextBytes := by
  obtain ⟨hvalid, hencode⟩ := encode_eq_ok.mp h
  obtain ⟨hpayload, hattachments, hcount, hlengths⟩ := sizes_of_validate hvalid
  obtain ⟨_, _, hcritical⟩ := limits_of_validate hvalid
  obtain ⟨_, rfl⟩ := Encoding.encode_eq_ok.mp hencode
  refine (encodeInto_length_le _).trans ?_
  have hrelatesTo : entriesSize (entry 2 (message.relatesTo.map fun value =>
      .bytes value.toList)) ≤ 9 + 25 := entrySize_le fun found hfound => by
    obtain ⟨value, _, rfl⟩ := Option.map_eq_some_iff.mp hfound
    rw [valueSize, List.Vector.toList_length]
  have hchunkIndex : entriesSize (entry 7 (message.chunkIndex.map .unsigned)) ≤ 9 + 9 :=
    entrySize_le fun found hfound => by
      obtain ⟨value, _, rfl⟩ := Option.map_eq_some_iff.mp hfound
      exact le_rfl
  have hchunkFinal : entriesSize (entry 8 (message.chunkFinal.map .bool)) ≤ 9 + 9 :=
    entrySize_le fun found hfound => by
      obtain ⟨value, _, rfl⟩ := Option.map_eq_some_iff.mp hfound
      exact le_rfl
  have hattachmentId : entriesSize (entry 9 (message.attachmentId.map fun value =>
      .bytes value.toList)) ≤ 9 + 25 := entrySize_le fun found hfound => by
    obtain ⟨value, _, rfl⟩ := Option.map_eq_some_iff.mp hfound
    rw [valueSize, List.Vector.toList_length]
  have hextensionsSize : entriesSize (present (message.extensions.isEmpty = true) 5
      (extensionsValue message.extensions)) ≤ _ :=
    presentSize_le (extensionsValue_size hcount hlengths)
  have hattachmentsSize : entriesSize (present (message.attachments = []) 10
      (attachmentsValue message.attachments)) ≤ _ :=
    presentSize_le (attachmentsValue_size hattachments)
  have hcriticalSize : entriesSize (present (message.critical = []) 6
      (.array (message.critical.map .unsigned))) = 0 := by
    rw [present, if_pos hcritical, entriesSize]
  rw [asCbor_eq, valueSize, asCborEntries]
  simp only [entriesSize_append, hcriticalSize, entriesSize, valueSize, List.Vector.toList_length]
  simp only [maxPayloadBytes] at hpayload
  simp only [maxPlaintextBytes]
  omega

end Message

/-! ## From the sender to the pending work of the peer -/

namespace RatchetState

variable {m : Type → Type} [Monad m] (o : Outcomes m) {provider : Provider}
  {custody : KeyCustody m} {state next : RatchetState}

theorem MayReceive.opened {header : RatchetHeader} {headerBytes body plaintext : Bytes}
    {fresh : Option (StagedSecretHandle .x25519Private)}
    (h : MayReceive o provider custody state header headerBytes body fresh next plaintext) :
    ∃ key nonce aad, provider.aeadOpen key nonce aad body = .ok plaintext := by
  rcases h with ⟨retained, _, hopen, _⟩ | ⟨_, tentative, _, hchain⟩
  · exact ⟨_, _, _, openRecord_eq_ok.mp hopen⟩
  · rcases Nat.lt_or_ge header.n tentative.nr with hn | hn
    · obtain ⟨_, _, hopen, _⟩ := (receiveInChain_of_lt hn).mp hchain
      exact ⟨_, _, _, openRecord_eq_ok.mp hopen⟩
    · obtain ⟨_, _, _, _, hopen, _⟩ := receiveInChain_next hn hchain
      exact ⟨_, _, _, openRecord_eq_ok.mp hopen⟩

theorem recovered_length (htag : provider.Tagged) (hpn : state.pn < 2 ^ 32)
    {plaintext packet recovered : Bytes}
    (hsend : state.send provider plaintext = .ok (next, packet)) {peer peer' : RatchetState}
      {fresh : Option (StagedSecretHandle .x25519Private)}
    (hreceive : o.mayOk (peer.receive provider custody packet fresh) (peer', recovered)) :
    recovered.length = plaintext.length := by
  obtain ⟨header, body, hheader, rfl, _, hbody, hns⟩ := send_parts htag hpn hsend
  obtain ⟨hsize, _⟩ := (mayOk_receive o).mp hreceive
  obtain ⟨key, nonce, aad, hopen⟩ := MayReceive.opened o
    ((mayOk_receive_framed o hpn hns hheader hsize).mp hreceive)
  have hopened := htag.opened hopen
  omega

end RatchetState

/-- The limits of the plaintext, of the packet, of the pending work and of a message fit. -/
theorem record_limits_fit {provider : Provider} (htag : provider.Tagged) (hkdf : provider.Derives)
    {state : RatchetState} (hpn : state.pn < 2 ^ 32) (hns : state.ns < 2 ^ 32) :
    (∀ plaintext : Bytes, plaintext.length ≤ maxPlaintextBytes →
      (∀ e, state.send provider plaintext = .error e → e.code ≠ .boundExceeded) ∧
      ∀ next packet, state.send provider plaintext = .ok (next, packet) →
        packet.length ≤ maxProtectedPacketBytes ∧
        (∀ id, PendingItem.packet id packet = .ok ⟨id, .packet packet⟩) ∧
        ∀ {m : Type → Type} [Monad m] (o : Outcomes m) (custody : KeyCustody m)
          (peer : RatchetState) (fresh : Option (StagedSecretHandle .x25519Private)),
          (∀ e, o.mayFail (peer.receive provider custody packet fresh) e →
            e.code ≠ .boundExceeded) ∧
          ∀ peer' recovered,
            o.mayOk (peer.receive provider custody packet fresh) (peer', recovered) →
            ∀ id, PendingItem.plaintext id recovered = .ok ⟨id, .plaintext recovered⟩) ∧
    ∀ (message : Message) (bytes : Bytes), message.encode = .ok bytes →
      bytes.length ≤ maxPlaintextBytes ∧
      ∀ e, state.send provider bytes = .error e → e.code ≠ .boundExceeded := by
  constructor
  · intro plaintext hplain
    refine ⟨fun e h he => RatchetState.send_ne htag hkdf hpn hns hplain he h, ?_⟩
    intro next packet hsend
    have hsize := RatchetState.send_length hsend
    refine ⟨hsize, fun id => PendingItem.bounded_packet hsize, fun {m} _ o custody peer fresh => ?_⟩
    constructor
    · intro e hfail he
      exact RatchetState.receive_not_mayFail he o hkdf hsize fresh hfail
    · intro peer' recovered hreceive id
      have hlength := RatchetState.recovered_length o htag hpn hsend hreceive
      exact PendingItem.bounded_plaintext (hlength ▸ hplain)
  · intro message bytes hencode
    have hlength := Message.encode_length_le hencode
    exact ⟨hlength, fun e h he => RatchetState.send_ne htag hkdf hpn hns hlength he h⟩

namespace Widest

def tag : Bytes := List.replicate 16 0

def provider : Provider :=
  { tableProvider [] [] with
    hkdfExpandSha256 := fun _ _ length => .ok (.replicate length 0)
    aeadSeal := fun _ _ _ plaintext => .ok (plaintext ++ tag)
    aeadOpen := fun _ _ _ body =>
      if body.drop (body.length - 16) = tag then .ok (body.take (body.length - 16))
      else .error (.terminal .authenticationFailed .provider) }

def sender : RatchetState :=
  { sessionContext := .replicate 32 1, root := .replicate 32 2, localPrivate := ⟨3⟩,
    localPublic := .replicate 32 4, peerPublic := .replicate 32 5, sending :=
    some (.replicate 32 6), receiving := none, sendDirection := .initiatorToResponder, pn :=
      2 ^ 32 - 1, ns := 2 ^ 32 - 2,
    nr := 0, skipped := ∅ }

theorem provider_tagged : provider.Tagged where
  sealed h := by
    cases h
    rw [List.length_append]
    rfl
  opened {_ _ _ body _} h := by
    simp only [provider] at h
    split at h
    · next htag =>
      cases h
      have hlength := congrArg List.length htag
      simp only [List.length_drop, tag, List.length_replicate] at hlength
      rw [List.length_take]
      omega
    · cases h

theorem provider_derives : provider.Derives where
  hkdf h := by
    cases h
    rfl
  expand h := by cases h

theorem sender_send : ∃ next packet,
    sender.send provider (List.replicate maxPlaintextBytes 0) = .ok (next, packet) := by
  obtain ⟨header, hheader, _, hhigh⟩ :=
    @RatchetHeader.encode_ok ⟨sender.localPublic, sender.pn, sender.ns⟩ (by decide) (by decide)
  refine ⟨_, _, RatchetState.send_eq_ok.mpr ⟨?_, _, _, header, _, rfl, by decide, rfl, hheader, rfl,
    ?_, rfl, rfl⟩⟩
  · rw [List.length_replicate]
  · rw [List.length_append, List.length_append, List.length_replicate]
    simp only [maxPlaintextBytes, maxProtectedPacketBytes, tag, List.length_replicate]
    omega

end Widest

/-- The longest plaintext, under the widest header. -/
theorem record_limits_fit_widest : ∃ next packet,
    Widest.sender.send Widest.provider (List.replicate maxPlaintextBytes 0) = .ok (next, packet) ∧
      packet.length ≤ maxProtectedPacketBytes ∧
      ∀ id, PendingItem.packet id packet = .ok ⟨id, .packet packet⟩ := by
  obtain ⟨next, packet, hsend⟩ := Widest.sender_send
  have hlimits := ((@record_limits_fit Widest.provider Widest.provider_tagged
    Widest.provider_derives Widest.sender (by decide) (by decide)).1
    (List.replicate maxPlaintextBytes 0) (by rw [List.length_replicate])).2 next packet hsend
  exact ⟨next, packet, hsend, hlimits.1, hlimits.2.1⟩

end LicoArc
