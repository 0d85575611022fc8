import LicoArc.EncodingLaws
import LicoArc.Protection

/-!
# What one ratchet operation does

The record header is self-delimiting, and each of `send`, `bootstrapResponder`
and `receive` has one lemma that states everything a successful call does.
-/

namespace LicoArc

/-! ## Header framing -/

namespace RatchetHeader

theorem toCbor_wellFormed (header : RatchetHeader) : Encoding.WellFormed header.toCbor := by
  refine ⟨?_, ?_⟩
  · simp [List.pairwise_cons]
  · simp [Encoding.WellFormedEntries, Encoding.WellFormed]

theorem headLength_le {value : Nat} (h : value < 2 ^ 32) :
    1 ≤ Encoding.headLength value ∧ Encoding.headLength value ≤ 5 := by
  simp only [Encoding.headLength]
  split_ifs <;> omega

theorem encode_ok {header : RatchetHeader} (hpn : header.pn < 2 ^ 32) (hn : header.n < 2 ^ 32) :
    ∃ bytes, header.encode = .ok bytes ∧ 40 ≤ bytes.length ∧ bytes.length ≤ 48 := by
  have hp := headLength_le hpn
  have hq := headLength_le hn
  have hlength : Encoding.encodedLength 0 header.toCbor =
      .ok (1 + 1 + 34 + 1 + Encoding.headLength header.pn + 1 + Encoding.headLength header.n) := by
    refine Encoding.encodedLength_map (by decide)
      (by simp [Encoding.maxCollectionItems]) ?_ ?_
    · refine Encoding.entriesEncodedLength_cons (by decide) (Encoding.encodedLength_bytes
        (by decide) (by rw [List.Vector.toList_length]; decide)) ?_
      refine Encoding.entriesEncodedLength_cons (by decide) (Encoding.encodedLength_unsigned
        (by decide) (by simp only [Encoding.maxInteger]; omega)) ?_
      refine Encoding.entriesEncodedLength_cons (by decide) (Encoding.encodedLength_unsigned
        (by decide) (by simp only [Encoding.maxInteger]; omega)) ?_
      rw [List.Vector.toList_length]
      rfl
    · simp only [Encoding.maxEncodedBytes]
      omega
  refine ⟨Encoding.encodeInto header.toCbor, Encoding.encode_eq_ok.mpr ⟨⟨_, hlength⟩, rfl⟩, ?_⟩
  have hl := (Encoding.encodeInto_length _ hlength).1
  omega

theorem decode_encode {header : RatchetHeader} {bytes : Bytes} (hpn : header.pn < 2 ^ 32)
    (hn : header.n < 2 ^ 32) (h : header.encode = .ok bytes) : decode bytes = .ok header := by
  have hvalue := Encoding.decode_encode header.toCbor_wellFormed h
  have hexactPn : exactU32 (some (.unsigned header.pn)) = .ok header.pn := by
    rw [exactU32, reject_of_not _ (by omega)]
    rfl
  have hexactN : exactU32 (some (.unsigned header.n)) = .ok header.n := by
    rw [exactU32, reject_of_not _ (by omega)]
    rfl
  simp only [decode, hvalue, Except.ok_bind, toCbor]
  simp [Encoding.lookupEntry, exact32, okOr, FixedBytes.ofBytes?_toList, hexactPn, hexactN, reject]

/-- A prefix of a framed record that decodes as a header is the record's header. -/
theorem prefix_unique {header other : RatchetHeader} {bytes front body rest : Bytes}
    (h : header.encode = .ok bytes) (hfront : decode front = .ok other)
    (heq : front ++ rest = bytes ++ body) : front = bytes := by
  simp only [decode, Except.bind_eq_ok] at hfront
  obtain ⟨value, hvalue, _⟩ := hfront
  exact (Encoding.encode_prefix_free (Encoding.decode_wellFormed hvalue) header.toCbor_wellFormed
    (Encoding.encode_decode hvalue) h heq).2.1

theorem encode_injective {a b : RatchetHeader} {bytes : Bytes} (ha : a.encode = .ok bytes)
    (hb : b.encode = .ok bytes) : a = b := by
  have h := Encoding.encode_injective a.toCbor_wellFormed b.toCbor_wellFormed ha hb
  simp only [toCbor, CborValue.map.injEq, List.cons.injEq, Prod.mk.injEq, CborValue.bytes.injEq,
    CborValue.unsigned.injEq, true_and, and_true] at h
  cases a
  cases b
  simp only [RatchetHeader.mk.injEq]
  exact ⟨FixedBytes.toList_injective h.1, h.2.1, h.2.2⟩

end RatchetHeader

theorem ratchetHeaderLength_encode {header : RatchetHeader} {bytes : Bytes}
    (hpn : header.pn < 2 ^ 32) (hn : header.n < 2 ^ 32) (h : header.encode = .ok bytes)
    (body : Bytes) : ratchetHeaderLength (bytes ++ body) = .ok bytes.length := by
  obtain ⟨_, hbytes, hlow, hhigh⟩ := RatchetHeader.encode_ok hpn hn
  cases hbytes.symm.trans h
  have hdecode := RatchetHeader.decode_encode hpn hn h
  rw [ratchetHeaderLength, okOr_eq_ok, List.find?_range'_eq_some]
  refine ⟨by simp [hdecode, Except.isOk, Except.toBool], ?_, ?_⟩
  · rw [List.mem_range'_1, List.length_append]
    omega
  · intro length hlength hlt
    cases hprefix : RatchetHeader.decode ((bytes ++ body).take length) with
    | error e => rfl
    | ok other =>
      have hfront := RatchetHeader.prefix_unique h hprefix
        (List.take_append_drop length (bytes ++ body))
      have hcount := congrArg List.length hfront
      simp only [List.length_take, List.length_append] at hcount
      omega

theorem record_split {header : RatchetHeader} {bytes : Bytes} (body : Bytes)
    (hpn : header.pn < 2 ^ 32) (hn : header.n < 2 ^ 32) (h : header.encode = .ok bytes) :
    ratchetHeaderLength (bytes ++ body) = .ok bytes.length ∧
      (bytes ++ body).take bytes.length = bytes ∧ (bytes ++ body).drop bytes.length = body ∧
      RatchetHeader.decode bytes = .ok header :=
  ⟨ratchetHeaderLength_encode hpn hn h body, List.take_left, List.drop_left,
    RatchetHeader.decode_encode hpn hn h⟩

def recordHeader (packet : Bytes) : Except Error RatchetHeader := do
  let length ← ratchetHeaderLength packet
  RatchetHeader.decode (packet.take length)

theorem recordHeader_framed {header : RatchetHeader} {bytes : Bytes} (body : Bytes)
    (hpn : header.pn < 2 ^ 32) (hn : header.n < 2 ^ 32) (h : header.encode = .ok bytes) :
    recordHeader (bytes ++ body) = .ok header := by
  obtain ⟨hlength, htake, _, hdecode⟩ := record_split body hpn hn h
  rw [recordHeader, hlength, Except.ok_bind, htake, hdecode]

/-! ## Key derivation -/

/-- The chain key after `number` message steps. -/
def chainAt (provider : Provider) (start : Secret) : Nat → Except Error Secret
  | 0 => .ok start
  | number + 1 => do
    let chain ← chainAt provider start number
    let step ← messageStep provider chain number
    return step.next

/-- The keys of message `number` of the chain that starts at `start`. -/
def stepAt (provider : Provider) (start : Secret) (number : Nat) : Except Error MessageStep := do
  let chain ← chainAt provider start number
  messageStep provider chain number

theorem stepAt_of_chainAt {provider : Provider} {start chain : Secret} {number : Nat}
    (h : chainAt provider start number = .ok chain) :
    stepAt provider start number = messageStep provider chain number := by
  rw [stepAt, h, Except.ok_bind]

theorem chainAt_succ {provider : Provider} {start : Secret} {step : MessageStep} {number : Nat}
    (h : stepAt provider start number = .ok step) :
    chainAt provider start (number + 1) = .ok step.next := by
  obtain ⟨chain, hchain, hstep⟩ := Except.bind_eq_ok.mp h
  rw [chainAt, hchain, Except.ok_bind, hstep]
  rfl

theorem stepAt_of_lt {provider : Provider} {start chain : Secret} {k number : Nat}
    (h : chainAt provider start number = .ok chain) (hk : k < number) :
    ∃ step, stepAt provider start k = .ok step := by
  induction number generalizing chain with
  | zero => omega
  | succ number ih =>
    obtain ⟨previous, hprevious, hstep⟩ := Except.bind_eq_ok.mp h
    rcases Nat.lt_succ_iff_lt_or_eq.mp hk with hlt | rfl
    · exact ih hprevious hlt
    · obtain ⟨step, hstep, _⟩ := Except.bind_eq_ok.mp hstep
      exact ⟨step, by rw [stepAt_of_chainAt hprevious, hstep]⟩

theorem retainSkipped_ok {provider : Provider} {dh : FixedBytes 32} {start : Secret} :
    ∀ {count number : Nat} {chain last : Secret} {skipped retained : SkippedKeys},
      chainAt provider start number = .ok chain →
      retainSkipped provider dh count number chain skipped = .ok (last, retained) →
      chainAt provider start (number + count) = .ok last ∧
      (∀ coordinate, (∀ k, number ≤ k → k < number + count → coordinate ≠ (dh, k)) →
        retained[coordinate]? = skipped[coordinate]?) ∧
      (∀ k, number ≤ k → k < number + count → ∃ step, stepAt provider start k = .ok step ∧
        retained[(dh, k)]? = some (step.key, step.nonce)) ∧
      retained.size ≤ skipped.size + count := by
  intro count
  induction count with
  | zero =>
    intro number chain last skipped retained hchain h
    cases h
    exact ⟨hchain, fun _ _ => rfl, fun k hk hlt => by omega, le_rfl⟩
  | succ count ih =>
    intro number chain last skipped retained hchain h
    simp only [retainSkipped, Except.bind_eq_ok] at h
    obtain ⟨step, hstep, h⟩ := h
    have hat : stepAt provider start number = .ok step := by
      rw [stepAt_of_chainAt hchain, hstep]
    obtain ⟨hlast, hother, hkept, hsize⟩ := ih (chainAt_succ hat) h
    refine ⟨by rw [← hlast]; congr 1; omega, ?_, ?_, ?_⟩
    · intro coordinate hne
      rw [hother coordinate fun k hk hlt => hne k (by omega) (by omega),
        Std.ExtTreeMap.getElem?_insert, if_neg]
      intro heq
      exact hne number le_rfl (by omega) (Std.LawfulEqCmp.eq_of_compare heq).symm
    · intro k hk hlt
      rcases Nat.eq_or_lt_of_le hk with rfl | hk
      · refine ⟨step, hat, ?_⟩
        rw [hother _ fun k' hk' _ heq => by
          have := congrArg Prod.snd heq
          simp only at this
          omega]
        simp
      · exact hkept k (by omega) (by omega)
    · have hinsert : (skipped.insert (dh, number) (step.key, step.nonce)).size ≤
          skipped.size + 1 := Std.ExtTreeMap.size_insert_le
      omega

/-- The skip loop succeeds on a chain that its sender has already run. -/
theorem retainSkipped_total {provider : Provider} (dh : FixedBytes 32) {start : Secret} :
    ∀ {count number : Nat} {chain last : Secret} (skipped : SkippedKeys),
      chainAt provider start number = .ok chain →
      chainAt provider start (number + count) = .ok last →
      ∃ retained, retainSkipped provider dh count number chain skipped = .ok (last, retained) := by
  intro count
  induction count with
  | zero =>
    intro number chain last skipped hchain hlast
    cases hchain.symm.trans hlast
    exact ⟨skipped, rfl⟩
  | succ count ih =>
    intro number chain last skipped hchain hlast
    obtain ⟨step, hstep⟩ := stepAt_of_lt hlast (show number < number + (count + 1) by omega)
    obtain ⟨retained, hretained⟩ := ih (skipped.insert (dh, number) (step.key, step.nonce))
      (chainAt_succ hstep) (by rw [← hlast]; congr 1; omega)
    refine ⟨retained, ?_⟩
    rw [stepAt_of_chainAt hchain] at hstep
    rw [retainSkipped, hstep]
    exact hretained

/-! ## The operations -/

namespace RatchetState

variable {m : Type → Type} [Monad m] (o : Outcomes m) {provider : Provider}
  {custody : KeyCustody m} {state next : RatchetState}

theorem send_eq_ok {plaintext packet : Bytes} :
    state.send provider plaintext = .ok (next, packet) ↔
      plaintext.length ≤ maxPlaintextBytes ∧ ∃ chain step header body,
        state.sending = some chain ∧ state.ns + 1 < 2 ^ 32 ∧
        messageStep provider chain state.ns = .ok step ∧
        RatchetHeader.encode ⟨state.localPublic, state.pn, state.ns⟩ = .ok header ∧
        provider.aeadSeal step.key step.nonce (recordAad state.sessionContext header) plaintext =
          .ok body ∧
        (header ++ body).length ≤ maxProtectedPacketBytes ∧
        next = { state with sending := some step.next, ns := state.ns + 1 } ∧
        packet = header ++ body := by
  simp only [send, nextCounter, Except.bind_eq_ok, reject_eq_ok, okOr_eq_ok, Except.pure_eq,
    Except.mapError_eq_ok, Except.ok.injEq, Prod.mk.injEq, exists_const, not_lt, not_le, gt_iff_lt,
    ge_iff_le]
  constructor
  · rintro ⟨hplain, chain, hchain, _, ⟨hn, rfl⟩, step, hstep, header, hheader, body, hbody, hsize,
      rfl, rfl⟩
    exact ⟨hplain, chain, step, header, body, hchain, hn, hstep, hheader, hbody, hsize, rfl, rfl⟩
  · rintro ⟨hplain, chain, step, header, body, hchain, hn, hstep, hheader, hbody, hsize, rfl, rfl⟩
    exact ⟨hplain, chain, hchain, _, ⟨hn, rfl⟩, step, hstep, header, hheader, body, hbody, hsize,
      rfl, rfl⟩

theorem send_length {plaintext packet : Bytes}
    (h : state.send provider plaintext = .ok (next, packet)) :
    packet.length ≤ maxProtectedPacketBytes := by
  obtain ⟨_, _, _, _, _, _, _, _, _, _, hsize, _, rfl⟩ := send_eq_ok.mp h
  exact hsize

theorem send_next {plaintext packet : Bytes}
    (h : state.send provider plaintext = .ok (next, packet)) :
    ∃ chain, next = { state with sending := some chain, ns := state.ns + 1 } := by
  obtain ⟨_, _, step, _, _, _, _, _, _, _, _, hnext, _⟩ := send_eq_ok.mp h
  exact ⟨step.next, hnext⟩

theorem mayOk_bootstrapResponder {fresh : StagedSecretHandle .x25519Private} :
    o.mayOk (state.bootstrapResponder provider custody fresh) next ↔
      state.sending = none ∧ state.sendDirection = .responderToInitiator ∧
      ∃ freshPublic shared root chain,
        o.may (custody.x25519Public (.staged fresh)) (.ok freshPublic) ∧
        o.may (custody.x25519 (.staged fresh) state.peerPublic) (.ok shared) ∧
        dhKeys provider state.root shared state.sendDirection state.sessionContext =
          .ok (root, chain) ∧
        next = { state with root, localPrivate := fresh.adoptedHandle, localPublic := freshPublic,
                            sending := some chain } := by
  simp only [bootstrapResponder, dhStep, Outcomes.mayOk_bind, Outcomes.mayOk_lift,
    Outcomes.mayOk_attempt, Outcomes.mayOk_pure, reject_eq_ok, exists_const, Prod.exists, not_or,
    not_not, Bool.not_eq_true, Option.isSome_eq_false_iff, Option.isNone_iff_eq_none]
  constructor
  · rintro ⟨⟨hsending, hdirection⟩, freshPublic, hpublic, root, chain,
      ⟨shared, hshared, hkeys⟩, rfl⟩
    exact ⟨hsending, hdirection, freshPublic, shared, root, chain, hpublic, hshared, hkeys, rfl⟩
  · rintro ⟨hsending, hdirection, freshPublic, shared, root, chain, hpublic, hshared, hkeys, rfl⟩
    exact ⟨⟨hsending, hdirection⟩, freshPublic, hpublic, root, chain, ⟨shared, hshared, hkeys⟩, rfl⟩

theorem bootstrapResponder_next {fresh : StagedSecretHandle .x25519Private}
    (h : o.mayOk (state.bootstrapResponder provider custody fresh) next) :
    ∃ root freshPublic chain, next =
      { state with root, localPrivate := fresh.adoptedHandle, localPublic := freshPublic,
                   sending := some chain } := by
  obtain ⟨_, _, freshPublic, _, root, chain, _, _, _, hnext⟩ := (mayOk_bootstrapResponder o).mp h
  exact ⟨root, freshPublic, chain, hnext⟩

theorem mayOk_receiveDhTransition {header : RatchetHeader}
    {fresh : Option (StagedSecretHandle .x25519Private)} :
    o.mayOk (state.receiveDhTransition provider custody header fresh) next ↔
      state.nr ≤ header.pn ∧ header.pn - state.nr ≤ maxSkipPerRecord ∧
      state.skipped.size + (header.pn - state.nr) ≤ maxSkippedKeys ∧
      ∃ staged freshPublic skipped peerShared rootAfterReceive receiving freshShared rootAfterSend
        sending,
        fresh = some staged ∧ o.may (custody.x25519Public (.staged staged)) (.ok freshPublic) ∧
        state.retainPrevious provider (header.pn - state.nr) = .ok skipped ∧
        o.may (custody.x25519 (.adopted state.localPrivate) header.dh) (.ok peerShared) ∧
        dhKeys provider state.root peerShared state.sendDirection.opposite state.sessionContext =
          .ok (rootAfterReceive, receiving) ∧
        o.may (custody.x25519 (.staged staged) header.dh) (.ok freshShared) ∧
        dhKeys provider rootAfterReceive freshShared state.sendDirection state.sessionContext =
          .ok (rootAfterSend, sending) ∧
        next = { state with
          root := rootAfterSend, peerPublic := header.dh, localPrivate := staged.adoptedHandle,
          localPublic := freshPublic, receiving := some receiving, sending := some sending,
          pn := state.ns, ns := 0, nr := 0, skipped } := by
  simp only [receiveDhTransition, dhStep, Outcomes.mayOk_bind, Outcomes.mayOk_lift,
    Outcomes.mayOk_attempt, Outcomes.mayOk_pure, reject_eq_ok, okOr_eq_ok, exists_const,
    Prod.exists, not_or, not_lt, gt_iff_lt]
  constructor
  · rintro ⟨⟨hpn, hdistance⟩, hroom, staged, hstaged, freshPublic, hpublic, skipped, hskipped,
      rootAfterReceive, receiving, ⟨peerShared, hpeer, hreceive⟩, rootAfterSend, sending,
      ⟨freshShared, hfresh, hsend⟩, rfl⟩
    exact ⟨hpn, hdistance, hroom, staged, freshPublic, skipped, peerShared, rootAfterReceive,
      receiving, freshShared, rootAfterSend, sending, hstaged, hpublic, hskipped, hpeer, hreceive,
      hfresh, hsend, rfl⟩
  · rintro ⟨hpn, hdistance, hroom, staged, freshPublic, skipped, peerShared, rootAfterReceive,
      receiving, freshShared, rootAfterSend, sending, hstaged, hpublic, hskipped, hpeer, hreceive,
      hfresh, hsend, rfl⟩
    exact ⟨⟨hpn, hdistance⟩, hroom, staged, hstaged, freshPublic, hpublic, skipped, hskipped,
      rootAfterReceive, receiving, ⟨peerShared, hpeer, hreceive⟩, rootAfterSend, sending,
      ⟨freshShared, hfresh, hsend⟩, rfl⟩

/-- A transition retains what is left of the old chain and starts both chains under the new keys. -/
theorem receiveDhTransition_next {header : RatchetHeader}
    {fresh : Option (StagedSecretHandle .x25519Private)}
    (h : o.mayOk (state.receiveDhTransition provider custody header fresh) next) :
    ∃ staged freshPublic skipped root receiving sending, fresh = some staged ∧
      o.may (custody.x25519Public (.staged staged)) (.ok freshPublic) ∧
      state.skipped.size + (header.pn - state.nr) ≤ maxSkippedKeys ∧
      state.retainPrevious provider (header.pn - state.nr) = .ok skipped ∧
      next = { state with
        root, peerPublic := header.dh, localPrivate := staged.adoptedHandle,
        localPublic := freshPublic, receiving := some receiving, sending := some sending,
        pn := state.ns, ns := 0, nr := 0, skipped } := by
  obtain ⟨_, _, hroom, staged, freshPublic, skipped, _, _, receiving, _, root, sending, hstaged,
    hpublic, hskipped, _, _, _, _, hnext⟩ := (mayOk_receiveDhTransition o).mp h
  exact ⟨staged, freshPublic, skipped, root, receiving, sending, hstaged, hpublic, hroom, hskipped,
    hnext⟩

@[simp] theorem openRecord_eq_ok {key : Secret} {nonce : FixedBytes 12}
    {headerBytes body plaintext : Bytes} :
    state.openRecord provider key nonce headerBytes body = .ok plaintext ↔
      provider.aeadOpen key nonce (recordAad state.sessionContext headerBytes) body =
        .ok plaintext := by
  simp only [openRecord, Except.mapError_eq_ok]

/-- A record below the receiving counter is opened by its retained key. -/
theorem receiveInChain_of_lt {header : RatchetHeader} {headerBytes body plaintext : Bytes}
    (hn : header.n < state.nr) :
    state.receiveInChain provider header headerBytes body = .ok (next, plaintext) ↔
      ∃ retained, state.skipped[(header.dh, header.n)]? = some retained ∧
        state.openRecord provider retained.1 retained.2 headerBytes body = .ok plaintext ∧
        next = { state with skipped := state.skipped.erase (header.dh, header.n) } := by
  simp only [receiveInChain, if_pos hn, Except.bind_eq_ok, okOr_eq_ok, Except.pure_eq,
    Except.ok.injEq, Prod.mk.injEq, Prod.exists]
  constructor
  · rintro ⟨key, nonce, hkept, _, hopen, rfl, rfl⟩
    exact ⟨key, nonce, hkept, hopen, rfl⟩
  · rintro ⟨key, nonce, hkept, hopen, rfl⟩
    exact ⟨key, nonce, hkept, _, hopen, rfl, rfl⟩

/-- A record at or beyond the receiving counter is opened by the receiving chain. -/
theorem receiveInChain_of_le {header : RatchetHeader} {headerBytes body plaintext : Bytes}
    (hn : state.nr ≤ header.n) :
    state.receiveInChain provider header headerBytes body = .ok (next, plaintext) ↔
      header.n - state.nr ≤ maxSkipPerRecord ∧
      state.skipped.size + (header.n - state.nr) ≤ maxSkippedKeys ∧
      header.n + 1 < 2 ^ 32 ∧ ∃ first last skipped step, state.receiving = some first ∧
        retainSkipped provider header.dh (header.n - state.nr) state.nr first state.skipped =
          .ok (last, skipped) ∧
        messageStep provider last header.n = .ok step ∧
        state.openRecord provider step.key step.nonce headerBytes body = .ok plaintext ∧
        next = { state with skipped, receiving := some step.next, nr := header.n + 1 } := by
  simp only [receiveInChain, if_neg (Nat.not_lt.mpr hn), nextCounter, openRecord,
    Except.bind_eq_ok, reject_eq_ok, okOr_eq_ok, Except.pure_eq, Except.ok.injEq, Prod.mk.injEq,
    Prod.exists, exists_const, not_or, not_lt, not_le, gt_iff_lt, ge_iff_le]
  constructor
  · rintro ⟨⟨hdistance, hroom⟩, first, hfirst, last, skipped, hretain, step, hstep, _,
      ⟨hn', rfl⟩, _, hopen, rfl, rfl⟩
    exact ⟨hdistance, hroom, hn', first, last, skipped, step, hfirst, hretain, hstep, hopen, rfl⟩
  · rintro ⟨hdistance, hroom, hn', first, last, skipped, step, hfirst, hretain, hstep, hopen, rfl⟩
    exact ⟨⟨hdistance, hroom⟩, first, hfirst, last, skipped, hretain, step, hstep, _, ⟨hn', rfl⟩, _,
      hopen, rfl, rfl⟩

theorem receiveInChain_next {header : RatchetHeader} {headerBytes body plaintext : Bytes}
    (hn : state.nr ≤ header.n)
    (h : state.receiveInChain provider header headerBytes body = .ok (next, plaintext)) :
    ∃ key nonce chain skipped,
      state.openRecord provider key nonce headerBytes body = .ok plaintext ∧
      next = { state with skipped, receiving := some chain, nr := header.n + 1 } := by
  obtain ⟨_, _, _, _, _, skipped, step, _, _, _, hopen, hnext⟩ := (receiveInChain_of_le hn).mp h
  exact ⟨step.key, step.nonce, step.next, skipped, hopen, hnext⟩

/-- What `receive` does once the header is split off the record. -/
def MayReceive (provider : Provider) (custody : KeyCustody m) (state : RatchetState)
    (header : RatchetHeader) (headerBytes body : Bytes)
    (fresh : Option (StagedSecretHandle .x25519Private)) (next : RatchetState) (plaintext : Bytes) :
    Prop :=
  (∃ retained, state.skipped[(header.dh, header.n)]? = some retained ∧
    state.openRecord provider retained.1 retained.2 headerBytes body = .ok plaintext ∧
    next = { state with skipped := state.skipped.erase (header.dh, header.n) }) ∨
  (state.skipped[(header.dh, header.n)]? = none ∧ ∃ tentative,
    (header.dh = state.peerPublic ∧ tentative = state ∨
      header.dh ≠ state.peerPublic ∧
        o.mayOk (state.receiveDhTransition provider custody header fresh) tentative) ∧
    tentative.receiveInChain provider header headerBytes body = .ok (next, plaintext))

theorem mayOk_receive {packet plaintext : Bytes}
    {fresh : Option (StagedSecretHandle .x25519Private)} :
    o.mayOk (state.receive provider custody packet fresh) (next, plaintext) ↔
      packet.length ≤ maxProtectedPacketBytes ∧ ∃ length header,
        ratchetHeaderLength packet = .ok length ∧
        RatchetHeader.decode (packet.take length) = .ok header ∧
        MayReceive o provider custody state header (packet.take length) (packet.drop length) fresh
          next plaintext := by
  simp only [receive, Outcomes.mayOk_bind, Outcomes.mayOk_lift, reject_eq_ok, exists_const,
    not_lt, gt_iff_lt]
  refine and_congr_right fun _ => exists_congr fun length => ?_
  rw [← exists_and_left]
  refine exists_congr fun header => and_congr_right fun _ => and_congr_right fun _ => ?_
  rw [MayReceive]
  cases hkept : state.skipped[(header.dh, header.n)]? with
  | some retained =>
    simp only [Outcomes.mayOk_bind, Outcomes.mayOk_lift, Outcomes.mayOk_pure, Prod.mk.injEq,
      Option.some.injEq, exists_eq_left', reduceCtorEq, false_and, or_false]
    constructor
    · rintro ⟨_, hopen, rfl, rfl⟩
      exact ⟨hopen, rfl⟩
    · rintro ⟨hopen, rfl⟩
      exact ⟨_, hopen, rfl, rfl⟩
  | none =>
    by_cases hdh : header.dh = state.peerPublic
    · simp [hdh]
    · simp [hdh]

theorem mayOk_receive_framed {header : RatchetHeader} {headerBytes body plaintext : Bytes}
    {fresh : Option (StagedSecretHandle .x25519Private)} (hpn : header.pn < 2 ^ 32)
    (hn : header.n < 2 ^ 32) (hheader : header.encode = .ok headerBytes)
    (hsize : (headerBytes ++ body).length ≤ maxProtectedPacketBytes) :
    o.mayOk (state.receive provider custody (headerBytes ++ body) fresh) (next, plaintext) ↔
      MayReceive o provider custody state header headerBytes body fresh next plaintext := by
  obtain ⟨hlength, htake, hdrop, hdecode⟩ := record_split body hpn hn hheader
  rw [mayOk_receive]
  constructor
  · rintro ⟨_, _, _, hlength', hdecode', h⟩
    cases hlength.symm.trans hlength'
    rw [htake] at hdecode' h
    cases hdecode.symm.trans hdecode'
    rwa [hdrop] at h
  · intro h
    exact ⟨hsize, _, header, hlength, by rw [htake]; exact hdecode, by rwa [htake, hdrop]⟩

theorem initiator_eq_ok {hybrid : HybridSecrets} {context : FixedBytes 32}
    {localPrivate : SecretHandle .x25519Private} {localPublic peerPublic : FixedBytes 32} :
    RatchetState.initiator provider hybrid context localPrivate localPublic peerPublic = .ok next ↔
      ∃ root chain, initialKeys provider hybrid context = .ok (root, chain) ∧
        next = { sessionContext := context, root, localPrivate, localPublic, peerPublic
                 sending := some chain, receiving := none
                 sendDirection := .initiatorToResponder, pn := 0, ns := 0, nr := 0
                 skipped := ∅ } := by
  simp only [RatchetState.initiator, Except.bind_eq_ok, Except.pure_eq, Except.ok.injEq,
    Prod.exists, eq_comm (b := next)]

theorem responder_eq_ok {hybrid : HybridSecrets} {context : FixedBytes 32}
    {localPrivate : SecretHandle .x25519Private} {localPublic peerPublic : FixedBytes 32} :
    RatchetState.responder provider hybrid context localPrivate localPublic peerPublic = .ok next ↔
      ∃ root chain, initialKeys provider hybrid context = .ok (root, chain) ∧
        next = { sessionContext := context, root, localPrivate, localPublic, peerPublic
                 sending := none, receiving := some chain
                 sendDirection := .responderToInitiator, pn := 0, ns := 0, nr := 0
                 skipped := ∅ } := by
  simp only [RatchetState.responder, Except.bind_eq_ok, Except.pure_eq, Except.ok.injEq,
    Prod.exists, eq_comm (b := next)]

end RatchetState

end LicoArc
