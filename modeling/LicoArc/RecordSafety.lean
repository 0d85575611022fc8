import LicoArc.RecordSides

/-!
# Safety of the record exchange

The invariant holds of every reachable exchange. Under it a record is accepted
once, with the plaintext that was sent.
-/

namespace LicoArc

section

variable {provider : Provider} {privateKey : Nat → FixedBytes 32} {hybrid : HybridSecrets}
  {context : FixedBytes 32} {ledger : Ledger} {party : Party} {state next : RatchetState}
  {horizon e n r : Nat} {custody : KeyCustody Id}

/-! ## Accepting a record of the ledger -/

theorem Ledger.Linked.record (linked : ledger.Linked provider hybrid context)
    (he : e ≤ ledger.last) {packet plaintext : Bytes}
    (hrecord : (ledger.chain e).records[n]? = some (packet, plaintext)) :
    ∃ step header body, stepAt provider (ledger.chain e).start n = .ok step ∧
      RatchetHeader.encode ⟨(ledger.chain e).dh, (ledger.chain e).pn, n⟩ = .ok header ∧
      provider.aeadSeal step.key step.nonce (recordAad context header) plaintext = .ok body ∧
      packet = header ++ body ∧ (header ++ body).length ≤ maxProtectedPacketBytes ∧
      (ledger.chain e).pn < 2 ^ 32 ∧ n < (ledger.chain e).records.length ∧ n + 1 < 2 ^ 32 := by
  obtain ⟨step, header, body, hstep, hheader, hbody, hpacket, hsize⟩ := linked.framed he hrecord
  obtain ⟨hn, _⟩ := List.getElem?_eq_some_iff.mp hrecord
  have hshort := linked.short he
  exact ⟨step, header, body, hstep, hheader, hbody, hpacket, hsize, linked.pn_lt he, hn, by omega⟩

theorem Side.receiveInChain (aead : AeadBinding provider)
    (linked : ledger.Linked provider hybrid context)
    (side : Side provider privateKey context ledger party state horizon) (hr : horizon = r + 1)
    (howner : owner r ≠ party) (hn : state.nr ≤ n) (hlt : n < (ledger.chain r).records.length)
    {pn : Nat} {step : MessageStep} {header body original plaintext : Bytes}
    (hstep : stepAt provider (ledger.chain r).start n = .ok step)
    (hbody : provider.aeadSeal step.key step.nonce (recordAad context header) original = .ok body)
    (h : state.receiveInChain provider ⟨(ledger.chain r).dh, pn, n⟩ header body =
      .ok (next, plaintext)) :
    plaintext = original ∧ (r, n) ∉ ledger.taken ∧ next.peerPublic = state.peerPublic ∧
      next.localPublic = state.localPublic ∧
      Side provider privateKey context (ledger.take (r, n)) party next horizon := by
  obtain ⟨_, _, _, first, last, retained, step', hfirst, hretain, hstep', hopen, rfl⟩ :=
    (RatchetState.receiveInChain_of_le hn).mp h
  have hreceiving : Receiving provider ledger state r := by
    rcases side.view.receiving with ⟨hzero, _⟩ | ⟨r', hr', _, hreceiving⟩
    · omega
    · obtain rfl : r = r' := by omega
      exact hreceiving
  obtain ⟨key, hkey, hchain⟩ := hreceiving.chain
  cases hfirst.symm.trans hkey
  have hlast := (retainSkipped_ok hchain hretain).1
  rw [Nat.add_sub_cancel' hn] at hlast
  have hsame := (stepAt_of_chainAt hlast).trans hstep'
  cases hstep.symm.trans hsame
  rw [RatchetState.openRecord_eq_ok] at hopen
  refine ⟨(aead hbody hopen).2.2.2.symm, ?_, rfl, rfl,
    side.acceptNext linked hr howner hn hlt hchain hretain hstep'⟩
  intro htaken
  have := side.taken htaken howner
  rw [hr, Ledger.limit_self] at this
  omega

/-- What it takes for a receive of a record to succeed, and what it does. -/
theorem Side.receive (kdf : KdfSeparation provider) (aead : AeadBinding provider)
    (derived : ∃ salt ikm label, provider.hkdfSha256 salt ikm label 32 = .ok hybrid.hybridRoot)
    (linked : ledger.Linked provider hybrid context)
    (side : Side provider privateKey context ledger party state horizon)
    (faithful : custody.Faithful provider privateKey) (he : e ≤ ledger.last)
    {packet original plaintext : Bytes} {staged : Option (StagedSecretHandle .x25519Private)}
    (hrecord : (ledger.chain e).records[n]? = some (packet, original))
    (hfresh : ∀ handle, staged = some handle → ∀ k ≤ ledger.last,
      (ledger.chain k).dh ≠ Exchange.publicOf provider privateKey handle.custodyToken)
    (h : (state.receive provider custody packet staged).run.run = .ok (next, plaintext)) :
    plaintext = original ∧ owner e ≠ party ∧ (e, n) ∉ ledger.taken ∧
      (next.peerPublic = state.peerPublic ∧
          Side provider privateKey context (ledger.take (e, n)) party next horizon ∨
        e = ledger.last ∧ owner (ledger.last + 1) = party ∧
          next.peerPublic = (ledger.chain e).dh ∧
          ∃ c, ledger.Extends provider context c ∧ c.dh = next.localPublic ∧
            (∃ handle, staged = some handle ∧
              c.dh = Exchange.publicOf provider privateKey handle.custodyToken) ∧
            Side provider privateKey context ((ledger.extend c).take (e, n)) party next
              (ledger.last + 1)) := by
  obtain ⟨step, header, body, hstep, hheader, hbody, rfl, hsize, hpn, hlt, hn⟩ :=
    linked.record he hrecord
  have hreceive := (RatchetState.mayOk_receive_framed Outcomes.value hpn (Nat.lt_of_succ_lt hn)
    hheader hsize).mp (Outcomes.mayOk_value.mpr h)
  rcases hreceive with ⟨keys, hkept, hopen, rfl⟩ | ⟨hnone, tentative, htentative, hchain⟩
  · -- the key was retained
    obtain ⟨e', n', step', howner, hlimit, htaken, hcoordinate, hstep', rfl⟩ :=
      (side.retains _ _).mp hkept
    obtain ⟨hdh, rfl⟩ := Prod.mk.inj hcoordinate
    obtain rfl := linked.distinct he
      (side.view.le_last (Ledger.lt_horizon_of_limit hlimit)) hdh
    cases hstep.symm.trans hstep'
    rw [RatchetState.openRecord_eq_ok, side.context] at hopen
    exact ⟨(aead hbody hopen).2.2.2.symm, howner, htaken,
      .inl ⟨rfl, side.acceptRetained linked hlimit⟩⟩
  · rcases htentative with ⟨hdh, rfl⟩ | ⟨_, htransition⟩
    · -- the record is of the receiving chain
      rcases side.view.receiving with ⟨_, rfl, hreceiving, hnr, hpeer⟩ | ⟨r, hr, howner, receiving⟩
      · obtain ⟨_, _, _, first, _, _, _, hfirst, _⟩ :=
          (RatchetState.receiveInChain_of_le (by omega)).mp hchain
        rw [hreceiving] at hfirst
        cases hfirst
      · simp only at hdh
        rw [receiving.peerPublic] at hdh
        obtain rfl := linked.distinct he (side.view.le_last (by omega)) hdh
        rcases Nat.lt_or_ge n tentative.nr with hnr | hnr
        · obtain ⟨keys, hkept, _⟩ := (RatchetState.receiveInChain_of_lt hnr).mp hchain
          rw [hnone] at hkept
          cases hkept
        · obtain ⟨hplain, htaken, hpeer, _, hside⟩ :=
            side.receiveInChain aead linked hr howner hnr hlt hstep hbody hchain
          exact ⟨hplain, howner, htaken, .inl ⟨hpeer, hside⟩⟩
    · -- the record names another public key
      have htransition := Outcomes.mayOk_value.mp htransition
      have hstart : tentative.nr = 0 ∧ tentative.sessionContext = context ∧
          tentative.peerPublic = (ledger.chain e).dh ∧
          ∃ start, tentative.receiving = some start := by
        obtain ⟨_, _, _, _, start, _, _, _, _, _, rfl⟩ :=
          RatchetState.receiveDhTransition_next Outcomes.value
            (Outcomes.mayOk_value.mpr htransition)
        exact ⟨rfl, side.context, rfl, start, rfl⟩
      obtain ⟨hnr, hcontext, hpeer, start, hstart⟩ := hstart
      have hopened := hchain
      obtain ⟨_, _, _, first, last, retained, step', hfirst, hretain, hstep', hopen, _⟩ :=
        (RatchetState.receiveInChain_of_le (by rw [hnr]; exact Nat.zero_le _)).mp hopened
      cases hfirst.symm.trans hstart
      rw [hnr] at hretain
      have hfirst' : chainAt provider start 0 = .ok start := rfl
      have hlast := (retainSkipped_ok hfirst' hretain).1
      simp only [Nat.sub_zero, Nat.zero_add] at hlast
      rw [← stepAt_of_chainAt hlast] at hstep'
      rw [RatchetState.openRecord_eq_ok] at hopen
      obtain ⟨rfl, _⟩ := kdf.stepAt_key (Nat.lt_of_succ_lt hn) (Nat.lt_of_succ_lt hn) hstep hstep'
        (aead hbody hopen).1
      obtain ⟨rfl, hnext, _, c, hextends, hc, hstaged, hside⟩ :=
        side.transition kdf derived linked faithful he hfresh htransition hfirst
      have hlinked := linked.extend hextends
      have howner : owner ledger.last ≠ party := hnext ▸ (owner_succ_ne _).symm
      rw [← ledger.extend_chain_of_le c he] at hstep hchain hlt
      obtain ⟨hplain, htaken, hpeer', hlocal, haccepted⟩ :=
        hside.receiveInChain aead hlinked rfl howner (by omega) hlt hstep hbody hchain
      exact ⟨hplain, howner, htaken, .inr ⟨rfl, hnext, hpeer'.trans hpeer, c, hextends,
        hc.trans hlocal.symm, hstaged, haccepted⟩⟩

/-! ## The invariant of a run -/

namespace Exchange

structure Invariant (provider : Provider) (privateKey : Nat → FixedBytes 32)
    (hybrid : HybridSecrets) (context : FixedBytes 32) (w : Exchange) (ledger : Ledger) : Prop where
  linked : ledger.Linked provider hybrid context
  side (party : Party) :
    ∃ horizon, Side provider privateKey context ledger party (w.state party) horizon
  sent {record : SentRecord} : record ∈ w.sent → ∃ e n : Nat, e ≤ ledger.last ∧
    (ledger.chain e).records[n]? = some (record.packet, record.plaintext) ∧
    owner e = record.sender
  accepted {record : AcceptedRecord} : record ∈ w.accepted → ∃ e n : Nat, (e, n) ∈ ledger.taken ∧
    e ≤ ledger.last ∧
    (ledger.chain e).records[n]? = some (record.packet, record.plaintext) ∧
    owner e = record.receiver.other ∧ ∃ sent ∈ w.sent, sent.packet = record.packet
  taken {e n : Nat} : (e, n) ∈ ledger.taken → e ≤ ledger.last ∧ ∃ record ∈ w.accepted,
    (ledger.chain e).records[n]? = some (record.packet, record.plaintext) ∧
    owner e = record.receiver.other
  once : (w.accepted.map AcceptedRecord.packet).Nodup
  publics {e : Nat} : e ≤ ledger.last → (ledger.chain e).dh ∈ w.publics
  peers (party : Party) : (w.state party).peerPublic ∈ w.publics

theorem start_invariant {w : Exchange}
    {initiatorPrivate responderPrivate : SecretHandle .x25519Private}
    (h : start provider privateKey hybrid context initiatorPrivate responderPrivate = .ok w) :
    ∃ ledger, Invariant provider privateKey hybrid context w ledger := by
  simp only [start, RatchetState.initiator, RatchetState.responder, Except.bind_eq_ok,
    Except.pure_eq, Except.ok.injEq, Prod.exists] at h
  obtain ⟨initiator, ⟨root, chain, hkeys, rfl⟩, responder, ⟨root', chain', hkeys', rfl⟩, rfl⟩ := h
  cases hkeys.symm.trans hkeys'
  let ledger : Ledger := {
    chain := fun _ => { privateKey := privateKey initiatorPrivate.custodyToken
                        dh := publicOf provider privateKey initiatorPrivate.custodyToken
                        root, start := chain, pn := 0, records := [] }
    last := 0, taken := [] }
  have hlimit : ∀ horizon e, ledger.limit horizon 0 e = 0 := by
    intro horizon e
    simp [Ledger.limit, ledger]
  have hretains : ∀ party horizon,
      Retains provider ledger party ∅ (ledger.limit horizon 0) := by
    intro party horizon coordinate keys
    simp [hlimit]
  have hempty : ∀ {e n : Nat}, (e, n) ∉ ledger.taken := List.not_mem_nil
  refine ⟨ledger, {
    linked := {
      first := hkeys
      firstPn := rfl
      secondPn := fun _ => rfl
      agreed := fun h => absurd h (Nat.not_lt_zero _)
      dh := fun _ => rfl
      distinct := fun he he' _ => (Nat.le_zero.mp he).trans (Nat.le_zero.mp he').symm
      pn := fun _ => rfl
      short := fun _ => Nat.two_pow_pos 32
      framed := fun _ h => absurd (List.mem_of_getElem? h) List.not_mem_nil }
    side := ?_
    sent := fun h => absurd h List.not_mem_nil
    accepted := fun h => absurd h List.not_mem_nil
    taken := fun h => absurd h List.not_mem_nil
    once := List.nodup_nil
    publics := fun _ => List.mem_cons_self
    peers := fun party => by
      cases party
      · exact List.mem_cons_of_mem _ List.mem_cons_self
      · exact List.mem_cons_self }⟩
  intro party
  cases party with
  | initiator =>
    refine ⟨0, rfl, rfl, .ahead rfl ⟨rfl, ⟨chain, rfl, rfl⟩, rfl, rfl, rfl, rfl,
      fun hr => absurd hr (by simp), fun _ => ⟨rfl, rfl, fun k hk howner => ?_⟩⟩, hretains _ _,
      fun h => absurd h hempty⟩
    obtain rfl := Nat.le_zero.mp hk
    cases howner
  | responder =>
    exact ⟨1, rfl, rfl, .waiting rfl rfl ⟨rfl, rfl, rfl, rfl, ⟨chain, rfl, rfl⟩, rfl, le_rfl⟩,
      hretains _ _, fun h => absurd h hempty⟩

theorem sides_update {w : Exchange} {ledger' : Ledger}
    (howner : ∃ horizon, Side provider privateKey context ledger' party next horizon)
    (hother : ∃ horizon, Side provider privateKey context ledger' party.other
      (w.state party.other) horizon) (p : Party) :
    ∃ horizon, Side provider privateKey context ledger' p
      (Function.update w.state party next p) horizon := by
  by_cases hp : p = party
  · subst hp
    rwa [Function.update_self]
  · rw [Function.update_of_ne hp, Party.eq_other_of_ne hp]
    exact hother

theorem peers_update {w : Exchange} {publics : List (FixedBytes 32)}
    (hnext : next.peerPublic ∈ publics) (hpeers : ∀ p, (w.state p).peerPublic ∈ publics)
    (p : Party) : (Function.update w.state party next p).peerPublic ∈ publics := by
  by_cases hp : p = party
  · subst hp
    rwa [Function.update_self]
  · rw [Function.update_of_ne hp]
    exact hpeers p

theorem fresh_ne {w : Exchange} {staged : StagedSecretHandle .x25519Private}
    (inv : Invariant provider privateKey hybrid context w ledger)
    (hfresh : w.Fresh provider privateKey staged) (k : Nat) (hk : k ≤ ledger.last) :
    (ledger.chain k).dh ≠ publicOf provider privateKey staged.custodyToken :=
  fun heq => hfresh (heq ▸ inv.publics hk)

theorem step_invariant_send {w : Exchange} {plaintext packet : Bytes}
    (inv : Invariant provider privateKey hybrid context w ledger)
    (h : (w.state party).send provider plaintext = .ok (next, packet)) :
    ∃ ledger', Invariant provider privateKey hybrid context
      (w.afterSend party next packet plaintext) ledger' := by
  obtain ⟨horizon, side⟩ := inv.side party
  obtain ⟨e, owns, he, hlast, hshort, hframe, hside⟩ := side.send h
  have hpeer : next.peerPublic = (w.state party).peerPublic := by
    obtain ⟨_, rfl⟩ := RatchetState.send_next h
    rfl
  have hkept : ∀ {e' n : Nat} {record : Bytes × Bytes},
      (ledger.chain e').records[n]? = some record →
      ((ledger.append e (packet, plaintext)).chain e').records[n]? = some record := by
    intro e' n record hrecord
    obtain ⟨rest, hrest⟩ := ledger.append_records_prefix e (packet, plaintext) e'
    obtain ⟨hn, _⟩ := List.getElem?_eq_some_iff.mp hrecord
    rw [← hrest, List.getElem?_append_left hn]
    exact hrecord
  obtain ⟨horizon', other⟩ := inv.side party.other
  refine ⟨ledger.append e (packet, plaintext), {
    linked := inv.linked.append he hlast hshort hframe
    side := sides_update ⟨_, hside⟩
      ⟨_, other.append (by rw [owns]; exact (Party.other_ne _).symm) hlast⟩
    sent := fun hrecord => ?_
    accepted := fun hrecord => ?_
    taken := fun htaken => ?_
    once := inv.once
    publics := fun hk => by
      rw [Ledger.append_dh]
      exact inv.publics hk
    peers := peers_update (hpeer ▸ inv.peers party) inv.peers }⟩
  · rcases List.mem_cons.mp hrecord with rfl | hrecord
    · refine ⟨e, (ledger.chain e).records.length, he, ?_, owns⟩
      rw [Ledger.append_records_self]
      exact List.getElem?_concat_length
    · obtain ⟨e', n, he', hrecord, howner⟩ := inv.sent hrecord
      exact ⟨e', n, he', hkept hrecord, howner⟩
  · obtain ⟨e', n, htaken, he', hrecord, howner, sent, hsent, hpacket⟩ := inv.accepted hrecord
    exact ⟨e', n, htaken, he', hkept hrecord, howner, sent, List.mem_cons_of_mem _ hsent, hpacket⟩
  · obtain ⟨he', record, hmem, hrecord, howner⟩ := inv.taken htaken
    exact ⟨he', record, hmem, hkept hrecord, howner⟩

theorem extend_other {w : Exchange} {c : Chain}
    (inv : Invariant provider privateKey hybrid context w ledger)
    (hnext : owner (ledger.last + 1) = party)
    {staged : StagedSecretHandle .x25519Private} (hfresh : w.Fresh provider privateKey staged)
    (hpublic : c.dh = publicOf provider privateKey staged.custodyToken) :
    ∃ horizon, Side provider privateKey context (ledger.extend c) party.other
      (w.state party.other) horizon := by
  obtain ⟨horizon, other⟩ := inv.side party.other
  refine ⟨horizon, other.extend (by rw [hnext]; exact (Party.other_ne _).symm) fun heq => ?_⟩
  rw [hpublic] at heq
  exact hfresh (heq ▸ inv.peers party.other)

theorem step_invariant_bootstrap {w : Exchange} {staged : StagedSecretHandle .x25519Private}
    (inv : Invariant provider privateKey hybrid context w ledger)
    (faithful : custody.Faithful provider privateKey) (hfresh : w.Fresh provider privateKey staged)
    (h : ((w.state party).bootstrapResponder provider custody staged).run.run = .ok next) :
    ∃ ledger', Invariant provider privateKey hybrid context (w.afterBootstrap party next)
      ledger' := by
  obtain ⟨horizon, side⟩ := inv.side party
  obtain ⟨hnext, c, hextends, hlocal, hpublic, hside⟩ :=
    side.bootstrap faithful (fresh_ne inv hfresh) h
  have hpeer : next.peerPublic = (w.state party).peerPublic := by
    obtain ⟨_, _, _, rfl⟩ :=
      RatchetState.bootstrapResponder_next Outcomes.value (Outcomes.mayOk_value.mpr h)
    rfl
  refine ⟨ledger.extend c, {
    linked := inv.linked.extend hextends
    side := sides_update ⟨_, hside⟩ (extend_other inv hnext hfresh hpublic)
    sent := fun hrecord => ?_
    accepted := fun hrecord => ?_
    taken := fun htaken => ?_
    once := inv.once
    publics := fun {k} hk => ?_
    peers := peers_update (hpeer ▸ List.mem_cons_of_mem _ (inv.peers party))
      fun p => List.mem_cons_of_mem _ (inv.peers p) }⟩
  · obtain ⟨e, n, he, hrecord, howner⟩ := inv.sent hrecord
    exact ⟨e, n, Nat.le_succ_of_le he, by rwa [ledger.extend_chain_of_le c he], howner⟩
  · obtain ⟨e, n, htaken, he, hrecord, hrest⟩ := inv.accepted hrecord
    exact ⟨e, n, htaken, Nat.le_succ_of_le he, by rwa [ledger.extend_chain_of_le c he], hrest⟩
  · obtain ⟨he, record, hmem, hrecord, howner⟩ := inv.taken htaken
    exact ⟨Nat.le_succ_of_le he, record, hmem, by rwa [ledger.extend_chain_of_le c he], howner⟩
  · rcases Nat.le_succ_iff.mp hk with hle | rfl
    · rw [ledger.extend_chain_of_le c hle]
      exact List.mem_cons_of_mem _ (inv.publics hle)
    · rw [ledger.extend_chain_last, hlocal]
      exact List.mem_cons_self

/-- A record that was just accepted joins the accepted ones. -/
theorem accept_invariant {w : Exchange} {ledger' : Ledger} {packet plaintext : Bytes}
    {publics : List (FixedBytes 32)}
    (inv : Invariant provider privateKey hybrid context w ledger)
    (linked : ledger'.Linked provider hybrid context)
    (hsides : ∀ p, ∃ horizon, Side provider privateKey context (ledger'.take (e, n)) p
      (Function.update w.state party next p) horizon)
    (hgrows : ledger.last ≤ ledger'.last)
    (hchain : ∀ k ≤ ledger.last, ledger'.chain k = ledger.chain k)
    (htaken : ledger'.taken = ledger.taken) (he : e ≤ ledger.last) (howner : owner e ≠ party)
    (hnew : (e, n) ∉ ledger.taken)
    (hrecord : (ledger.chain e).records[n]? = some (packet, plaintext))
    (hdelivered : ∃ record ∈ w.sent, record.packet = packet)
    (hpublics : ∀ k ≤ ledger'.last, (ledger'.chain k).dh ∈ publics)
    (hpeers : ∀ p, (Function.update w.state party next p).peerPublic ∈ publics) :
    Invariant provider privateKey hybrid context
      { w with state := Function.update w.state party next
               accepted := ⟨party, packet, plaintext⟩ :: w.accepted, publics }
      (ledger'.take (e, n)) where
  linked := linked.take _
  side := hsides
  sent h := by
    obtain ⟨e', n', he', hrecord', howner'⟩ := inv.sent h
    exact ⟨e', n', le_trans he' hgrows, by rwa [Ledger.take, hchain e' he'], howner'⟩
  accepted h := by
    rcases List.mem_cons.mp h with rfl | h
    · exact ⟨e, n, List.mem_cons_self, le_trans he hgrows, by rwa [Ledger.take, hchain e he],
        Party.eq_other_of_ne howner, hdelivered⟩
    · obtain ⟨e', n', htaken', he', hrecord', hrest⟩ := inv.accepted h
      exact ⟨e', n', List.mem_cons_of_mem _ (htaken ▸ htaken'), le_trans he' hgrows,
        by rwa [Ledger.take, hchain e' he'], hrest⟩
  taken h := by
    rcases List.mem_cons.mp h with heq | h
    · obtain ⟨rfl, rfl⟩ := Prod.mk.inj heq
      exact ⟨le_trans he hgrows, _, List.mem_cons_self, by rwa [Ledger.take, hchain _ he],
        Party.eq_other_of_ne howner⟩
    · obtain ⟨he', record, hmem, hrecord', howner'⟩ := inv.taken (htaken ▸ h)
      exact ⟨le_trans he' hgrows, record, List.mem_cons_of_mem _ hmem,
        by rwa [Ledger.take, hchain _ he'], howner'⟩
  once := by
    refine List.nodup_cons.mpr ⟨fun hmem => ?_, inv.once⟩
    obtain ⟨record, hmem, hpacket⟩ := List.mem_map.mp hmem
    obtain ⟨e', n', htaken', he', hrecord', _⟩ := inv.accepted hmem
    rw [hpacket] at hrecord'
    obtain ⟨rfl, rfl⟩ := inv.linked.packet_unique he he' hrecord hrecord'
    exact hnew htaken'
  publics h := hpublics _ h
  peers := hpeers

theorem step_invariant_receive (kdf : KdfSeparation provider) (aead : AeadBinding provider)
    (derived : ∃ salt ikm label, provider.hkdfSha256 salt ikm label 32 = .ok hybrid.hybridRoot)
    {w : Exchange} {packet plaintext : Bytes} {staged : Option (StagedSecretHandle .x25519Private)}
    (inv : Invariant provider privateKey hybrid context w ledger)
    (faithful : custody.Faithful provider privateKey)
    (hfresh : ∀ handle, staged = some handle → w.Fresh provider privateKey handle)
    (hdelivered : ∃ record ∈ w.sent, record.packet = packet)
    (h : ((w.state party).receive provider custody packet staged).run.run =
      .ok (next, plaintext)) :
    ∃ ledger', Invariant provider privateKey hybrid context
      (w.afterReceive party next packet plaintext) ledger' := by
  obtain ⟨record, hsent, rfl⟩ := hdelivered
  obtain ⟨e, n, he, hrecord, _⟩ := inv.sent hsent
  obtain ⟨horizon, side⟩ := inv.side party
  obtain ⟨rfl, howner, hnew, hcase⟩ := side.receive kdf aead derived inv.linked faithful he hrecord
    (fun handle hhandle => fresh_ne inv (hfresh handle hhandle)) h
  have hgrown : ∀ {q : FixedBytes 32}, q ∈ w.publics → q ∈ next.localPublic :: w.publics :=
    List.mem_cons_of_mem _
  obtain ⟨horizon', other⟩ := inv.side party.other
  have hother := (Party.eq_other_of_ne howner)
  rcases hcase with ⟨hpeer, hside⟩ | ⟨rfl, hnext, hpeer, c, hextends, hlocal, ⟨handle, hhandle,
    hpublic⟩, hside⟩
  · exact ⟨ledger.take (e, n), accept_invariant inv inv.linked
      (sides_update ⟨_, hside⟩ ⟨_, other.take hother⟩) le_rfl (fun _ _ => rfl) rfl he howner hnew
      hrecord ⟨record, hsent, rfl⟩ (fun k hk => hgrown (inv.publics hk))
      (peers_update (hpeer ▸ hgrown (inv.peers party)) fun p => hgrown (inv.peers p))⟩
  · obtain ⟨_, other⟩ := extend_other inv hnext (hfresh handle hhandle) hpublic
    refine ⟨(ledger.extend c).take (ledger.last, n), accept_invariant inv
      (inv.linked.extend hextends) (sides_update ⟨_, hside⟩ ⟨_, other.take hother⟩)
      (Nat.le_succ _) (fun k hk => ledger.extend_chain_of_le c hk) rfl he howner hnew hrecord
      ⟨record, hsent, rfl⟩ (fun k hk => ?_)
      (peers_update (hpeer ▸ hgrown (inv.publics le_rfl)) fun p => hgrown (inv.peers p))⟩
    rcases Nat.le_succ_iff.mp hk with hle | rfl
    · rw [ledger.extend_chain_of_le c hle]
      exact hgrown (inv.publics hle)
    · rw [ledger.extend_chain_last, hlocal]
      exact List.mem_cons_self

theorem step_invariant (kdf : KdfSeparation provider) (aead : AeadBinding provider)
    (derived : ∃ salt ikm label, provider.hkdfSha256 salt ikm label 32 = .ok hybrid.hybridRoot)
    {w w' : Exchange} (inv : Invariant provider privateKey hybrid context w ledger)
    (h : Step provider privateKey w w') :
    ∃ ledger', Invariant provider privateKey hybrid context w' ledger' := by
  cases h with
  | send party h => exact step_invariant_send inv h
  | bootstrap party faithful fresh h => exact step_invariant_bootstrap inv faithful fresh h
  | receive party faithful fresh delivered h =>
    exact step_invariant_receive kdf aead derived inv faithful fresh delivered h

theorem reachable_invariant (kdf : KdfSeparation provider) (aead : AeadBinding provider)
    (derived : ∃ salt ikm label, provider.hkdfSha256 salt ikm label 32 = .ok hybrid.hybridRoot)
    {w : Exchange} (h : Reachable provider privateKey hybrid context w) :
    ∃ ledger, Invariant provider privateKey hybrid context w ledger := by
  obtain ⟨_, _, _, hstart, hrun⟩ := h
  induction hrun with
  | refl => exact start_invariant hstart
  | tail _ hstep ih =>
    obtain ⟨ledger, inv⟩ := ih
    exact step_invariant kdf aead derived inv hstep

/-- Every accepted record carries the plaintext that the other party sent in it, and no packet is
accepted twice. -/
theorem record_safety {x25519Shared mlKemShared transcript core : FixedBytes 32}
    (kdf : KdfSeparation provider) (aead : AeadBinding provider)
    (derived : HybridSecrets.derive provider x25519Shared mlKemShared transcript core = .ok hybrid)
    {w : Exchange} (h : Reachable provider privateKey hybrid context w) :
    (∀ record ∈ w.accepted, (∃ sent ∈ w.sent, sent.packet = record.packet) ∧
      ∀ sent ∈ w.sent, sent.packet = record.packet →
        sent.sender = record.receiver.other ∧ sent.plaintext = record.plaintext) ∧
    (w.accepted.map AcceptedRecord.packet).Nodup := by
  obtain ⟨ledger, inv⟩ := reachable_invariant kdf aead
    (HybridSecrets.derive_hybridRoot derived) h
  refine ⟨fun record hrecord => ?_, inv.once⟩
  obtain ⟨e, n, _, he, haccepted, howner, hsent⟩ := inv.accepted hrecord
  refine ⟨hsent, fun sent hmem hpacket => ?_⟩
  obtain ⟨e', n', he', hsent', howner'⟩ := inv.sent hmem
  rw [hpacket] at hsent'
  obtain ⟨rfl, rfl⟩ := inv.linked.packet_unique he he' haccepted hsent'
  rw [haccepted] at hsent'
  exact ⟨howner'.symm.trans howner, (Prod.mk.inj (Option.some.inj hsent')).2.symm⟩

end Exchange

end

namespace Exchange

/-! A session in which the initiator sends one record and the responder receives it. -/

namespace OneRecord

def privateKey (token : Nat) : FixedBytes 32 := List.Vector.replicate 32 (UInt8.ofNat token)

def derivations : List Derivation :=
  let zero := (FixedBytes.zero 32).toList
  [.hkdf zero (zero ++ zero) (dHybridRoot ++ zero), .hkdf zero (zero ++ zero) (dClientKey ++ zero),
   .hkdf zero (zero ++ zero) (dClientNonce ++ zero), .hkdf zero (zero ++ zero) (dAcceptKey ++ zero),
   .expand (privateKey 0) (dInitialRoot ++ zero), .expand (privateKey 0) (dChainI2R ++ zero),
   .expand (privateKey 5) (dMessageKey ++ bigEndian 4 0),
   .expand (privateKey 5) (dNonce ++ bigEndian 4 0),
   .expand (privateKey 5) (dNextChain ++ bigEndian 4 0)]

def provider : Provider := tableProvider [] derivations

def hybrid : HybridSecrets where
  hybridRoot := privateKey 0
  clientConfirmKey := privateKey 1
  clientConfirmNonce := List.Vector.replicate 12 2
  sessionAcceptKey := privateKey 3

theorem kdf : KdfSeparation provider := TableProvider.kdfSeparation (by decide)

theorem derived : HybridSecrets.derive provider (FixedBytes.zero 32) (FixedBytes.zero 32)
    (FixedBytes.zero 32) (FixedBytes.zero 32) = .ok hybrid := by
  decide +kernel

def sent : Except Error (Exchange × Bytes) := do
  let w ← start provider privateKey hybrid (FixedBytes.zero 32) ⟨1⟩ ⟨2⟩
  let (next, packet) ← (w.state .initiator).send provider [1, 2, 3]
  return (w.afterSend .initiator next packet [1, 2, 3], packet)

def received : Except Error Exchange := do
  let (w, packet) ← sent
  let (next, plaintext) ← ((w.state .responder).receive provider
    (KeyCustody.ofKeys provider privateKey) packet none).run.run
  return w.afterReceive .responder next packet plaintext

theorem sent_reachable {w : Exchange} {packet : Bytes} (h : sent = .ok (w, packet)) :
    Reachable provider privateKey hybrid (FixedBytes.zero 32) w := by
  obtain ⟨w₀, hstart, h⟩ := Except.bind_eq_ok.mp h
  obtain ⟨⟨next, packet⟩, hsend, h⟩ := Except.bind_eq_ok.mp h
  cases h
  exact ⟨_, _, w₀, hstart, .single (.send _ hsend)⟩

theorem received_reachable {w : Exchange} (h : received = .ok w) :
    Reachable provider privateKey hybrid (FixedBytes.zero 32) w := by
  obtain ⟨⟨w₁, packet⟩, hsent, h⟩ := Except.bind_eq_ok.mp h
  obtain ⟨⟨next, plaintext⟩, hreceive, h⟩ := Except.bind_eq_ok.mp h
  cases h
  obtain ⟨_, _, w₀, hstart, hrun⟩ := sent_reachable hsent
  refine ⟨_, _, w₀, hstart, hrun.tail (.receive _ (KeyCustody.ofKeys_faithful _ _)
    (fun _ h => by cases h) ?_ hreceive)⟩
  obtain ⟨_, _, h⟩ := Except.bind_eq_ok.mp hsent
  obtain ⟨_, _, h⟩ := Except.bind_eq_ok.mp h
  cases h
  exact ⟨_, List.mem_cons_self, rfl⟩

end OneRecord

theorem record_safety_one_record : ∃ w,
    Reachable OneRecord.provider OneRecord.privateKey OneRecord.hybrid (FixedBytes.zero 32) w ∧
    w.accepted.map AcceptedRecord.plaintext = [[1, 2, 3]] ∧
    (∀ record ∈ w.accepted, (∃ sent ∈ w.sent, sent.packet = record.packet) ∧
      ∀ sent ∈ w.sent, sent.packet = record.packet →
        sent.sender = record.receiver.other ∧ sent.plaintext = record.plaintext) ∧
    (w.accepted.map AcceptedRecord.packet).Nodup := by
  have hcheck : Except.check OneRecord.received
      (fun w => w.accepted.map AcceptedRecord.plaintext = [[1, 2, 3]]) = true := by
    decide +kernel
  obtain ⟨w, hrun, haccepted⟩ := Except.exists_of_check hcheck
  have hreach := OneRecord.received_reachable hrun
  exact ⟨w, hreach, haccepted,
    record_safety OneRecord.kdf TableProvider.aeadBinding OneRecord.derived hreach⟩

end Exchange

end LicoArc
