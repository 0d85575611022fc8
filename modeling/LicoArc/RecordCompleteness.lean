import LicoArc.RecordSafety

/-!
# Completeness of the record exchange

A record that was sent and not accepted yet is accepted when it arrives,
within the skip limits and given a staged key where one is needed.
-/

namespace LicoArc

/-- No retained key opens the record and it names another public key than the peer's current one. -/
def NeedsTransition (state : RatchetState) (header : RatchetHeader) : Prop :=
  state.skipped[(header.dh, header.n)]? = none ∧ header.dh ≠ state.peerPublic

/-- The limits on skipped records, which concern a record that no retained key opens. -/
def WithinSkipLimits (state : RatchetState) (header : RatchetHeader) : Prop :=
  state.skipped[(header.dh, header.n)]? = none →
    if header.dh = state.peerPublic then
      header.n - state.nr ≤ maxSkipPerRecord ∧
      state.skipped.size + (header.n - state.nr) ≤ maxSkippedKeys
    else
      header.pn - state.nr ≤ maxSkipPerRecord ∧
      state.skipped.size + (header.pn - state.nr) ≤ maxSkippedKeys ∧
      header.n ≤ maxSkipPerRecord ∧
      state.skipped.size + (header.pn - state.nr) + header.n ≤ maxSkippedKeys

/-- A fresh staged key with which the receiver can answer the header's public key, custody
succeeding. The last derivation starts at the root that the sender of the record holds. -/
def Exchange.UsableKey (provider : Provider) (privateKey : Nat → FixedBytes 32) (w : Exchange)
    (receiver : Party) (custody : KeyCustody Id) (header : RatchetHeader)
    (staged : Option (StagedSecretHandle .x25519Private)) : Prop :=
  ∃ handle freshPublic peerShared freshShared keys, staged = some handle ∧
    w.Fresh provider privateKey handle ∧
    (custody.x25519Public (.staged handle)).run = .ok freshPublic ∧
    (custody.x25519 (.adopted (w.state receiver).localPrivate) header.dh).run = .ok peerShared ∧
    (custody.x25519 (.staged handle) header.dh).run = .ok freshShared ∧
    dhKeys provider (w.state receiver.other).root freshShared (w.state receiver).sendDirection
      (w.state receiver).sessionContext = .ok keys

instance (state : RatchetState) (header : RatchetHeader) :
    Decidable (NeedsTransition state header) :=
  inferInstanceAs (Decidable (_ ∧ _))

instance (state : RatchetState) (header : RatchetHeader) :
    Decidable (WithinSkipLimits state header) :=
  inferInstanceAs (Decidable (_ → ite _ _ _))

variable {provider : Provider} {privateKey : Nat → FixedBytes 32} {hybrid : HybridSecrets}
  {context : FixedBytes 32} {ledger : Ledger} {party : Party} {state next : RatchetState}
  {horizon e n r : Nat} {custody : KeyCustody Id}

theorem Side.retained (side : Side provider privateKey context ledger party state horizon)
    {step : MessageStep} (howner : owner e ≠ party) (hn : n < ledger.limit horizon state.nr e)
    (hnew : (e, n) ∉ ledger.taken) (hstep : stepAt provider (ledger.chain e).start n = .ok step) :
    state.skipped[((ledger.chain e).dh, n)]? = some (step.key, step.nonce) :=
  (side.retains _ _).mpr ⟨e, n, step, howner, hn, hnew, rfl, hstep, rfl⟩

theorem Side.not_retained (linked : ledger.Linked provider hybrid context)
    (side : Side provider privateKey context ledger party state horizon) (he : e ≤ ledger.last)
    (hn : ledger.limit horizon state.nr e ≤ n) :
    state.skipped[((ledger.chain e).dh, n)]? = none := by
  cases hkept : state.skipped[((ledger.chain e).dh, n)]? with
  | none => rfl
  | some keys =>
    obtain ⟨e', n', _, _, hlimit, _, hcoordinate, _⟩ := (side.retains _ _).mp hkept
    obtain ⟨hdh, rfl⟩ := Prod.mk.inj hcoordinate
    obtain rfl := linked.limit_distinct side.view he e' (Nat.zero_lt_of_lt hlimit) hdh.symm
    omega

theorem Ledger.Linked.chainAt_records (linked : ledger.Linked provider hybrid context)
    (he : e ≤ ledger.last) (hn : n ≤ (ledger.chain e).records.length) :
    ∃ key, chainAt provider (ledger.chain e).start n = .ok key := by
  cases n with
  | zero => exact ⟨_, rfl⟩
  | succ n =>
    obtain ⟨step, _, _, hstep, _⟩ := linked.framed he (List.getElem?_eq_getElem hn)
    exact ⟨_, chainAt_succ hstep⟩

theorem Side.receiveInChain_total (correct : AeadCorrect provider)
    (linked : ledger.Linked provider hybrid context)
    (side : Side provider privateKey context ledger party state horizon) (hr : horizon = r + 1)
    (he : r ≤ ledger.last) (hn : state.nr ≤ n) (hlt : n < (ledger.chain r).records.length)
    (pn : Nat) {step : MessageStep} {header body plaintext : Bytes}
    (hstep : stepAt provider (ledger.chain r).start n = .ok step)
    (hbody : provider.aeadSeal step.key step.nonce (recordAad context header) plaintext = .ok body)
    (hdistance : n - state.nr ≤ maxSkipPerRecord)
    (hroom : state.skipped.size + (n - state.nr) ≤ maxSkippedKeys) :
    ∃ next, state.receiveInChain provider ⟨(ledger.chain r).dh, pn, n⟩ header body =
      .ok (next, plaintext) := by
  have hreceiving : Receiving provider ledger state r := by
    rcases side.view.receiving with ⟨hzero, _⟩ | ⟨r', hr', _, hreceiving⟩
    · omega
    · obtain rfl : r = r' := by omega
      exact hreceiving
  obtain ⟨first, hfirst, hchain⟩ := hreceiving.chain
  obtain ⟨last, hlast⟩ := linked.chainAt_records he (Nat.le_of_lt hlt)
  rw [← Nat.add_sub_cancel' hn] at hlast
  obtain ⟨retained, hretain⟩ :=
    retainSkipped_total (ledger.chain r).dh state.skipped hchain hlast
  rw [Nat.add_sub_cancel' hn] at hlast
  have hshort := linked.short he
  refine ⟨_, (RatchetState.receiveInChain_of_le hn).mpr
    ⟨hdistance, hroom, by simp only; omega, first, last, retained, step, hfirst, hretain, ?_,
    ?_, rfl⟩⟩
  · rw [← stepAt_of_chainAt hlast]
    exact hstep
  · rw [RatchetState.openRecord_eq_ok, side.context]
    exact correct hbody

/-- A record beyond the horizon is of the newest chain, which the peer created in answer. -/
theorem View.beyond (view : View provider privateKey ledger party state horizon)
    (he : e ≤ ledger.last) (howner : owner e ≠ party) (hbeyond : horizon ≤ e) :
    e = ledger.last ∧ ledger.last = horizon + 1 ∧ owner horizon = party ∧
      Active provider privateKey ledger state horizon := by
  cases view with
  | ahead owns _ =>
    obtain rfl : e = ledger.last := by omega
    exact absurd owns howner
  | behind owns last active =>
    have hne : e ≠ horizon := by
      rintro rfl
      exact howner owns
    exact ⟨by omega, last, owns, active⟩
  | waiting first => omega

theorem Side.retainPrevious_total (linked : ledger.Linked provider hybrid context)
    (side : Side provider privateKey context ledger party state e) (hlast : ledger.last = e + 1) :
    state.nr ≤ (ledger.chain ledger.last).pn ∧ ∃ retained,
      state.retainPrevious provider ((ledger.chain ledger.last).pn - state.nr) = .ok retained ∧
      retained.size ≤ state.skipped.size + ((ledger.chain ledger.last).pn - state.nr) := by
  rcases side.view.receiving with ⟨rfl, _, _, hnr, _⟩ | ⟨r, rfl, _, receiving⟩
  · rw [hlast, linked.secondPn (by omega), hnr]
    exact ⟨le_rfl, _, RatchetState.retainPrevious_zero, le_rfl⟩
  · obtain ⟨key, hkey, hchain⟩ := receiving.chain
    have hpn : (ledger.chain ledger.last).pn = (ledger.chain r).records.length := by
      rw [hlast]
      exact linked.pn (by omega)
    rw [hpn]
    obtain ⟨last, hend⟩ := linked.chainAt_records (e := r) (by omega) le_rfl
    rw [← Nat.add_sub_cancel' receiving.nr_le] at hend
    obtain ⟨retained, hretain⟩ := retainSkipped_total state.peerPublic state.skipped hchain hend
    exact ⟨receiving.nr_le, retained,
      (RatchetState.retainPrevious_eq_ok hkey).mpr ⟨last, hretain⟩,
      (retainSkipped_ok hchain hretain).2.2.2⟩

theorem Side.peer_ahead {peer : RatchetState} {horizon' : Nat}
    (side : Side provider privateKey context ledger party.other peer horizon')
    (howner : owner ledger.last ≠ party) (hlast : ledger.last = e + 1) :
    Active provider privateKey ledger peer ledger.last := by
  cases hview : side.view with
  | ahead _ active => exact active
  | behind owns last =>
    have howner' := owner_succ_ne horizon'
    rw [← last, owns] at howner'
    exact absurd (Party.eq_other_of_ne howner) howner'
  | waiting first => omega

theorem Side.receive_total (correct : AeadCorrect provider) (commutes : X25519Commutes provider)
    (kdf : KdfSeparation provider)
    (derived : ∃ salt ikm label, provider.hkdfSha256 salt ikm label 32 = .ok hybrid.hybridRoot)
    {w : Exchange} (inv : w.Invariant provider privateKey hybrid context ledger)
    (faithful : custody.Faithful provider privateKey) (he : e ≤ ledger.last)
    (howner : owner e ≠ party) (hnew : (e, n) ∉ ledger.taken) {packet plaintext : Bytes}
    (hrecord : (ledger.chain e).records[n]? = some (packet, plaintext))
    {staged : Option (StagedSecretHandle .x25519Private)}
    (hlimits : WithinSkipLimits (w.state party) ⟨(ledger.chain e).dh, (ledger.chain e).pn, n⟩)
    (husable : NeedsTransition (w.state party) ⟨(ledger.chain e).dh, (ledger.chain e).pn, n⟩ →
      w.UsableKey provider privateKey party custody
        ⟨(ledger.chain e).dh, (ledger.chain e).pn, n⟩ staged) :
    ∃ next, ((w.state party).receive provider custody packet staged).run.run =
      .ok (next, plaintext) := by
  have linked := inv.linked
  obtain ⟨horizon, side⟩ := inv.side party
  obtain ⟨step, header, body, hstep, hheader, hbody, rfl, hsize, hpn, hlt, hn⟩ :=
    linked.record he hrecord
  have hreceive : ∀ {next},
      RatchetState.MayReceive Outcomes.value provider custody (w.state party)
        ⟨(ledger.chain e).dh, (ledger.chain e).pn, n⟩ header body staged next plaintext →
      ∃ next, ((w.state party).receive provider custody (header ++ body) staged).run.run =
        .ok (next, plaintext) := fun h =>
    ⟨_, Outcomes.mayOk_value.mp ((RatchetState.mayOk_receive_framed Outcomes.value hpn
      (Nat.lt_of_succ_lt hn) hheader hsize).mpr h)⟩
  rcases Nat.lt_or_ge n (ledger.limit horizon (w.state party).nr e) with hlimit | hlimit
  · -- the receiver passed the record and retained its key
    refine hreceive (.inl ⟨_, side.retained howner hlimit hnew hstep, ?_, rfl⟩)
    rw [RatchetState.openRecord_eq_ok, side.context]
    exact correct hbody
  have hnone := side.not_retained linked he hlimit
  have hwithin := hlimits hnone
  rcases Nat.lt_or_ge e horizon with hbelow | hbeyond
  · -- the record is of the receiving chain
    have hr : horizon = e + 1 := by
      by_contra hne
      rw [Ledger.limit, if_pos (by omega)] at hlimit
      omega
    have hpeer : (w.state party).peerPublic = (ledger.chain e).dh := by
      rcases side.view.receiving with ⟨hzero, _⟩ | ⟨r, hr', _, receiving⟩
      · omega
      · obtain rfl : e = r := by omega
        exact receiving.peerPublic
    rw [hr, Ledger.limit_self] at hlimit
    rw [if_pos hpeer.symm] at hwithin
    obtain ⟨next, hnext⟩ := side.receiveInChain_total correct linked hr he hlimit hlt _ hstep
      hbody hwithin.1 hwithin.2
    exact hreceive (.inr ⟨hnone, _, .inl ⟨hpeer.symm, rfl⟩, hnext⟩)
  · -- the record is of the peer's new chain
    obtain ⟨rfl, hlast, owns, active⟩ := side.view.beyond he howner hbeyond
    have hdh : (ledger.chain ledger.last).dh ≠ (w.state party).peerPublic := by
      rcases side.view.receiving with ⟨_, hinitiator, _, _, hpeer⟩ | ⟨r, hr, _, receiving⟩
      · refine (hpeer _ le_rfl ?_).symm
        rw [hinitiator] at howner
        exact Party.eq_other_of_ne howner
      · rw [receiving.peerPublic]
        intro heq
        have := linked.distinct le_rfl (side.view.le_last (by omega)) heq
        omega
    rw [if_neg hdh] at hwithin
    obtain ⟨handle, freshPublic, peerShared, freshShared, ⟨rootAfterSend, sending⟩, hstaged, hfresh,
      hpublic, hpeerShared, hfreshShared, hkeys⟩ := husable ⟨hnone, hdh⟩
    obtain ⟨horizon', peer⟩ := inv.side party.other
    have hpeerActive := peer.peer_ahead howner hlast
    obtain ⟨hpnle, retained, hretain, hretained⟩ := side.retainPrevious_total linked hlast
    -- both parties derive the new chain
    obtain ⟨agreed, hagreed, hderived⟩ := linked.agreed (show horizon < ledger.last by omega)
    have hshared : peerShared = agreed := by
      have h := faithful.x25519 hpeerShared
      simp only [CustodyRef.custodyToken] at h
      rw [active.localPrivate, linked.dh le_rfl, commutes, ← linked.dh (by omega), hlast,
        hagreed] at h
      exact (Except.ok.inj h).symm
    rw [← hlast, show owner ledger.last = party.other from Party.eq_other_of_ne howner,
      ← hshared] at hderived
    have htransition : ((w.state party).receiveDhTransition provider custody
        ⟨(ledger.chain ledger.last).dh, (ledger.chain ledger.last).pn, n⟩ staged).run.run =
          .ok { w.state party with
            root := rootAfterSend, peerPublic := (ledger.chain ledger.last).dh,
            localPrivate := handle.adoptedHandle, localPublic := freshPublic,
            receiving := some (ledger.chain ledger.last).start, sending := some sending,
            pn := (w.state party).ns, ns := 0, nr := 0, skipped := retained } := by
      refine Outcomes.mayOk_value.mp
        ((RatchetState.mayOk_receiveDhTransition Outcomes.value).mpr ⟨hpnle, hwithin.1, hwithin.2.1,
          handle, freshPublic, retained, peerShared, (ledger.chain ledger.last).root,
          (ledger.chain ledger.last).start, freshShared, rootAfterSend, sending, hstaged,
          hpublic.symm, hretain, hpeerShared.symm, ?_, hfreshShared.symm, ?_, rfl⟩)
      · rw [active.root, side.direction, Party.direction_opposite, side.context]
        exact hderived
      · rw [← hpeerActive.root]
        exact hkeys
    obtain ⟨_, _, _, c, hextends, _, _, hside⟩ := side.transition kdf derived linked faithful le_rfl
      (fun handle' hhandle' => by
        cases hstaged.symm.trans hhandle'
        exact Exchange.fresh_ne inv hfresh) htransition rfl
    have hlinked := linked.extend hextends
    rw [← ledger.extend_chain_of_le c le_rfl] at hstep hlt
    obtain ⟨next, hnext⟩ := hside.receiveInChain_total correct hlinked rfl (Nat.le_succ _)
      (Nat.zero_le _) hlt (ledger.chain ledger.last).pn hstep hbody
      (by simpa using hwithin.2.2.1)
      (by have := hwithin.2.2.2; simp only at this ⊢; omega)
    rw [ledger.extend_chain_of_le c le_rfl] at hnext
    exact hreceive (.inr ⟨hnone, _, .inr ⟨hdh, Outcomes.mayOk_value.mpr htransition⟩, hnext⟩)

namespace Exchange

/-- A record that the peer sent and the receiver did not accept yet is accepted with its plaintext.
The key of a record whose chain is neither party's current one was retained. -/
theorem record_completeness {x25519Shared mlKemShared transcript core : FixedBytes 32}
    (kdf : KdfSeparation provider) (aead : AeadBinding provider) (correct : AeadCorrect provider)
    (commutes : X25519Commutes provider)
    (derived : HybridSecrets.derive provider x25519Shared mlKemShared transcript core = .ok hybrid)
    {w : Exchange} (h : Reachable provider privateKey hybrid context w) {receiver : Party}
    {packet plaintext : Bytes} (hsent : ⟨receiver.other, packet, plaintext⟩ ∈ w.sent)
    (hnew : ∀ record ∈ w.accepted, record.receiver = receiver → record.packet ≠ packet) :
    ∃ header, recordHeader packet = .ok header ∧
      (∀ {custody : KeyCustody Id} (staged : Option (StagedSecretHandle .x25519Private)),
        custody.Faithful provider privateKey → WithinSkipLimits (w.state receiver) header →
        (NeedsTransition (w.state receiver) header →
          w.UsableKey provider privateKey receiver custody header staged) →
        ∃ next, ((w.state receiver).receive provider custody packet staged).run.run =
          .ok (next, plaintext)) ∧
      (header.dh ≠ (w.state receiver).peerPublic →
        header.dh ≠ (w.state receiver.other).localPublic →
        ∃ keys, (w.state receiver).skipped[(header.dh, header.n)]? = some keys ∧
          ∀ (custody : KeyCustody Id) (staged : Option (StagedSecretHandle .x25519Private)),
            ∃ next, ((w.state receiver).receive provider custody packet staged).run.run =
              .ok (next, plaintext)) := by
  have hroot := HybridSecrets.derive_hybridRoot derived
  obtain ⟨ledger, inv⟩ := reachable_invariant kdf aead hroot h
  obtain ⟨e, n, he, hrecord, hsender⟩ := inv.sent hsent
  simp only at hrecord hsender
  have howner : owner e ≠ receiver := hsender ▸ Party.other_ne receiver
  have htaken : (e, n) ∉ ledger.taken := by
    intro htaken
    obtain ⟨_, record, hmem, hrecord', howner'⟩ := inv.taken htaken
    have hreceiver : record.receiver = receiver := by
      rw [hsender] at howner'
      revert howner'
      cases receiver <;> cases record.receiver <;> decide
    rw [hrecord] at hrecord'
    exact hnew record hmem hreceiver (Prod.mk.inj (Option.some.inj hrecord')).1.symm
  obtain ⟨step, headerBytes, body, hstep, hheader, hbody, hpacket, hsize, hpn, hlt, hn⟩ :=
    inv.linked.record he hrecord
  refine ⟨⟨(ledger.chain e).dh, (ledger.chain e).pn, n⟩, ?_, ?_, ?_⟩
  · rw [hpacket]
    exact recordHeader_framed body hpn (Nat.lt_of_succ_lt hn) hheader
  · intro custody staged faithful hlimits husable
    exact Side.receive_total correct commutes kdf hroot inv faithful he howner htaken hrecord
      hlimits husable
  · intro hpeer hlocal
    obtain ⟨horizon, side⟩ := inv.side receiver
    have hpassed : e + 1 < horizon := by
      by_contra hge
      rcases Nat.lt_or_ge e horizon with hbelow | hbeyond
      · rcases side.view.receiving with ⟨hzero, _⟩ | ⟨r, hr, _, receiving⟩
        · omega
        · obtain rfl : e = r := by omega
          exact hpeer receiving.peerPublic.symm
      · obtain ⟨rfl, hlast, _⟩ := side.view.beyond he howner hbeyond
        obtain ⟨_, peer⟩ := inv.side receiver.other
        exact hlocal (peer.peer_ahead howner hlast).localPublic.symm
    have hkept := side.retained howner (by rwa [Ledger.limit, if_pos hpassed]) htaken hstep
    refine ⟨_, hkept, fun custody staged => ?_⟩
    rw [hpacket]
    refine ⟨_, Outcomes.mayOk_value.mp ((RatchetState.mayOk_receive_framed Outcomes.value hpn
      (Nat.lt_of_succ_lt hn) hheader hsize).mpr (.inl ⟨_, hkept, ?_, rfl⟩))⟩
    rw [RatchetState.openRecord_eq_ok, side.context]
    exact correct hbody

theorem record_completeness_first_record : ∃ w packet next,
    Reachable OneRecord.provider OneRecord.privateKey OneRecord.hybrid (FixedBytes.zero 32) w ∧
    w.sent = [⟨.initiator, packet, [1, 2, 3]⟩] ∧
    ((w.state .responder).receive OneRecord.provider
      (KeyCustody.ofKeys OneRecord.provider OneRecord.privateKey) packet none).run.run =
        .ok (next, [1, 2, 3]) := by
  have hcheck : Except.check OneRecord.sent (fun r =>
      recordHeader r.2 = .ok ⟨OneRecord.privateKey 1, 0, 0⟩ ∧
      WithinSkipLimits (r.1.state .responder) ⟨OneRecord.privateKey 1, 0, 0⟩ ∧
      ¬NeedsTransition (r.1.state .responder) ⟨OneRecord.privateKey 1, 0, 0⟩ ∧
      r.1.sent = [⟨.initiator, r.2, [1, 2, 3]⟩] ∧ r.1.accepted = []) = true := by
    decide +kernel
  obtain ⟨⟨w, packet⟩, hrun, hheader, hlimits, hneeds, hsent, haccepted⟩ :=
    Except.exists_of_check hcheck
  have hreach := OneRecord.sent_reachable hrun
  have hmember : ⟨Party.responder.other, packet, [1, 2, 3]⟩ ∈ w.sent := by
    rw [hsent]
    exact List.mem_cons_self
  obtain ⟨header, hheader', hreceive, _⟩ := record_completeness OneRecord.kdf
    TableProvider.aeadBinding TableProvider.aeadCorrect TableProvider.x25519Commutes
    OneRecord.derived hreach hmember (by simp only at haccepted; simp [haccepted])
  cases hheader.symm.trans hheader'
  obtain ⟨next, hnext⟩ := hreceive none (KeyCustody.ofKeys_faithful _ _) hlimits
    fun h => absurd h hneeds
  exact ⟨w, packet, next, hreach, hsent, hnext⟩

end Exchange

end LicoArc
