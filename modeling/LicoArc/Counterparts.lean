import LicoArc.Prekeys
import LicoArc.Reopen
import LicoArc.StagedReads

/-!
# The two ends of a handshake

What an initiator stores with its first packet and what a responder stores with
its answer. Both are made from the packet, one key of each side and the
encapsulated secret, so that the two ends of one packet are counterparts.
-/

namespace LicoArc

open Backend

/-- A ciphertext is decapsulated to the secret that was encapsulated. -/
def MlKemCorrect (provider : Provider) : Prop :=
  ∀ {seed : FixedBytes 64} {entropy secret secret' : FixedBytes 32} {ciphertext : Bytes},
    provider.mlKem768Encapsulate (provider.mlKem768Public seed) entropy = .ok (ciphertext, secret) →
    provider.mlKem768Decapsulate seed ciphertext = .ok secret' → secret' = secret

/-- The secrets of the initiator of a first packet, from its own key. -/
structure Offered (provider : Provider) (packet : FirstPacket) (key : FixedBytes 32)
    (hybrid : HybridSecrets) : Prop where
  publicKey : packet.initiatorX25519Public = provider.x25519Public key
  secrets : ∃ core prekeyDigest x kem entropy, handshakeCore provider packet = .ok core ∧
    prekeyTranscriptDigest provider packet = .ok prekeyDigest ∧
    provider.x25519 key packet.prekey.x25519Public = .ok x ∧
    provider.mlKem768Encapsulate packet.prekey.mlKem768Public entropy =
      .ok (packet.mlKem768Ciphertext, kem) ∧
    HybridSecrets.derive provider x kem prekeyDigest core = .ok hybrid

theorem Offered.derived {provider : Provider} {packet : FirstPacket} {key : FixedBytes 32}
    {hybrid : HybridSecrets} (h : Offered provider packet key hybrid) :
    ∃ x kem prekeyDigest core,
      HybridSecrets.derive provider x kem prekeyDigest core = .ok hybrid := by
  obtain ⟨core, prekeyDigest, x, kem, _, _, _, _, _, hderive⟩ := h.secrets
  exact ⟨x, kem, prekeyDigest, core, hderive⟩

/-- The secrets of the responder to a first packet, from the keys of its prekey. -/
structure Answered (provider : Provider) (packet : FirstPacket) (key : FixedBytes 32)
    (hybrid : HybridSecrets) : Prop where
  publicKey : packet.prekey.x25519Public = provider.x25519Public key
  secrets : ∃ core prekeyDigest x kem seed, handshakeCore provider packet = .ok core ∧
    prekeyTranscriptDigest provider packet = .ok prekeyDigest ∧
    packet.prekey.mlKem768Public = provider.mlKem768Public seed ∧
    provider.x25519 key packet.initiatorX25519Public = .ok x ∧
    provider.mlKem768Decapsulate seed packet.mlKem768Ciphertext = .ok kem ∧
    HybridSecrets.derive provider x kem prekeyDigest core = .ok hybrid

theorem Offered.agrees {provider : Provider} (commutes : X25519Commutes provider)
    (correct : MlKemCorrect provider) {packet : FirstPacket} {key key' : FixedBytes 32}
    {hybrid hybrid' : HybridSecrets} (h : Offered provider packet key hybrid)
    (h' : Answered provider packet key' hybrid') : hybrid = hybrid' := by
  obtain ⟨core, prekeyDigest, x, kem, entropy, hcore, hprekey, hx, hkem, hderive⟩ := h.secrets
  obtain ⟨_, _, x', kem', seed, hcore', hprekey', hseed, hx', hkem', hderive'⟩ := h'.secrets
  cases hcore.symm.trans hcore'
  cases hprekey.symm.trans hprekey'
  rw [h'.publicKey, commutes] at hx
  rw [h.publicKey] at hx'
  cases hx.symm.trans hx'
  rw [hseed] at hkem
  cases correct hkem hkem'
  exact Except.ok.inj (hderive.symm.trans hderive')

/-! ## What is stored -/

/-- What an initiator stores while it waits for the answer to its first packet. -/
structure Created (provider : Provider) (w : World) (packet : FirstPacket)
    (transcript context : FixedBytes 32) (hybrid : HybridSecrets) (ratchet : RatchetState) :
    Prop where
  digest : firstPacketDigest provider packet = .ok transcript
  session : ∃ line : RuntimeLine, line.protocolLineId = packet.protocolLineId ∧
    line.protectionProfileId = packet.protectionProfileId ∧
    sessionContext provider line transcript packet = .ok context
  offered : ∃ key, (ratchet.localPrivate.custodyToken, .x25519 key) ∈ w.issued ∧
    Offered provider packet key hybrid
  ratchet : RatchetState.initiator provider hybrid context ratchet.localPrivate
    packet.initiatorX25519Public packet.prekey.x25519Public = .ok ratchet

/-- What a responder stores with its answer to a first packet. -/
structure Accepted (provider : Provider) (w : World) (packet : FirstPacket)
    (transcript : FixedBytes 32) (accept : SessionAccept) (ratchet : RatchetState) : Prop where
  digest : firstPacketDigest provider packet = .ok transcript
  session : ∃ line : RuntimeLine, line.protocolLineId = packet.protocolLineId ∧
    line.protectionProfileId = packet.protectionProfileId ∧
    sessionContext provider line transcript packet = .ok accept.sessionContextDigest
  answer : accept = ⟨transcript, accept.sessionContextDigest,
    packet.initiatorUserAuthorityStateDigest, packet.responderIdentityStateDigest,
    packet.responderUserAuthorityStateDigest, packet.prekey.pairSequence, accept.mac⟩
  ratchet : ∃ key hybrid, (ratchet.localPrivate.custodyToken, .x25519 key) ∈ w.issued ∧
    Answered provider packet key hybrid ∧
    RatchetState.responder provider hybrid accept.sessionContextDigest ratchet.localPrivate
      packet.prekey.x25519Public packet.initiatorX25519Public = .ok ratchet

/-- Two ratchets of one session before its first record. -/
structure Counterparts (initiator responder : RatchetState) : Prop where
  sessionContext : initiator.sessionContext = responder.sessionContext
  root : initiator.root = responder.root
  chain : ∃ chain, initiator.sending = some chain ∧ responder.receiving = some chain
  quiet : initiator.receiving = none ∧ responder.sending = none
  localPublic : initiator.localPublic = responder.peerPublic
  peerPublic : initiator.peerPublic = responder.localPublic
  directions : initiator.sendDirection = .initiatorToResponder ∧
    responder.sendDirection = .responderToInitiator

section

variable {provider : Provider} {w w' : World} {packet : FirstPacket}
  {transcript transcript' context : FixedBytes 32} {hybrid : HybridSecrets}
  {accept : SessionAccept} {ratchet ratchet' : RatchetState}

theorem sessionContext_congr {line line' : RuntimeLine}
    (hline : line.protocolLineId = line'.protocolLineId)
    (hprofile : line.protectionProfileId = line'.protectionProfileId) :
    sessionContext provider line transcript packet =
      sessionContext provider line' transcript packet := by
  rw [sessionContext, sessionContext, hline, hprofile]

theorem Created.later (h : Created provider w packet transcript context hybrid ratchet)
    (hlater : w.Later w') : Created provider w' packet transcript context hybrid ratchet := by
  obtain ⟨key, hkey, hoffered⟩ := h.offered
  exact ⟨h.digest, h.session, ⟨key, hlater.issued.subset hkey, hoffered⟩, h.ratchet⟩

theorem Accepted.later (h : Accepted provider w packet transcript accept ratchet)
    (hlater : w.Later w') : Accepted provider w' packet transcript accept ratchet := by
  obtain ⟨key, hybrid, hkey, hanswered⟩ := h.ratchet
  exact ⟨h.digest, h.session, h.answer, ⟨key, hybrid, hlater.issued.subset hkey, hanswered⟩⟩

theorem Created.context_eq (h : Created provider w packet transcript context hybrid ratchet)
    (h' : Accepted provider w' packet transcript' accept ratchet') :
    transcript = transcript' ∧ context = accept.sessionContextDigest := by
  cases h.digest.symm.trans h'.digest
  obtain ⟨line, hline, hprofile, hcontext⟩ := h.session
  obtain ⟨line', hline', hprofile', hcontext'⟩ := h'.session
  rw [sessionContext_congr (hline.trans hline'.symm) (hprofile.trans hprofile'.symm)] at hcontext
  exact ⟨rfl, Except.ok.inj (hcontext.symm.trans hcontext')⟩

theorem Created.counterparts (commutes : X25519Commutes provider) (correct : MlKemCorrect provider)
    (h : Created provider w packet transcript context hybrid ratchet)
    (h' : Accepted provider w' packet transcript' accept ratchet') :
    Counterparts ratchet ratchet' := by
  obtain ⟨_, rfl⟩ := h.context_eq h'
  obtain ⟨key, _, hoffered⟩ := h.offered
  obtain ⟨key', hybrid', _, hanswered, hresponder⟩ := h'.ratchet
  cases hoffered.agrees commutes correct hanswered
  obtain ⟨root, chain, hkeys, hratchet⟩ := RatchetState.initiator_eq_ok.mp h.ratchet
  obtain ⟨root', chain', hkeys', hratchet'⟩ := RatchetState.responder_eq_ok.mp hresponder
  cases hkeys.symm.trans hkeys'
  rw [hratchet, hratchet']
  exact ⟨rfl, rfl, ⟨chain, rfl, rfl⟩, ⟨rfl, rfl⟩, rfl, rfl, ⟨rfl, rfl⟩⟩

end

/-! ## What every run stores -/

def World.KemPublicOf (provider : Provider) (w : World) (token : Nat) (publicKey : Bytes) : Prop :=
  ∃ seed, (token, .mlKem768 seed) ∈ w.issued ∧ publicKey = provider.mlKem768Public seed

/-- The bundle of a prekey names the public keys of its private keys. -/
structure ActivePrekey.Named (provider : Provider) (w : World) (prekey : ActivePrekey) : Prop where
  x25519 : w.PublicOf provider prekey.x25519Private.custodyToken prekey.bundle.x25519Public
  mlKem768 : w.KemPublicOf provider prekey.mlKemPrivate.custodyToken prekey.bundle.mlKem768Public

/-- The handshakes that the snapshots of a world store, with the packets that it accepted. -/
structure Handshaken (provider : Provider) (packets : List FirstPacket) (w : World) : Prop where
  stocked {snapshot : Snapshot} {highWater : Nat} {active : ActivePrekeys} :
    snapshot ∈ w.snapshots.entries → snapshot.state.phase = .responderReady highWater active →
    ∀ (key : Nat) (prekey : ActivePrekey), active[key]? = some prekey → prekey.Named provider w
  created {snapshot : Snapshot} {packet : FirstPacket} {transcript context : FixedBytes 32}
    {hybrid : HybridSecrets} {ratchet : RatchetState} : snapshot ∈ w.snapshots.entries →
    snapshot.state.phase = .initiatorAwaiting packet transcript context hybrid ratchet →
    Created provider w packet transcript context hybrid ratchet
  accepted {snapshot : Snapshot} {transcript : FixedBytes 32} {accept : SessionAccept} :
    snapshot ∈ w.snapshots.entries → snapshot.state.phase.accepted = some (transcript, accept) →
    ∃ packet ∈ packets, ∃ ratchet, Accepted provider w packet transcript accept ratchet ∧
      ∃ origin ∈ w.snapshots.entries, ∃ highWater, origin.state.phase =
        .established ratchet (some transcript) (some accept) highWater none

/-- What a commit does to a handshake. -/
inductive HandshakeMove (provider : Provider) (w : World) (operation : Operation) (phase : Phase) :
    Phase → Prop
  | admits {highWater pairSequence : Nat} {active : ActivePrekeys} {prekey : ActivePrekey}
      (ready : phase = .responderReady highWater active) (named : prekey.Named provider w) :
      HandshakeMove provider w operation phase
        (.responderReady pairSequence (active.insert pairSequence prekey))
  | creates {packet : FirstPacket} {transcript context : FixedBytes 32} {hybrid : HybridSecrets}
      {ratchet : RatchetState}
      (created : Created provider w packet transcript context hybrid ratchet) :
      HandshakeMove provider w operation phase
        (.initiatorAwaiting packet transcript context hybrid ratchet)
  | accepts {packet : FirstPacket} {transcript : FixedBytes 32} {accept : SessionAccept}
      {ratchet : RatchetState} {highWater : Option Nat} (takes : operation.accepted = some packet)
      (accepted : Accepted provider w packet transcript accept ratchet) :
      HandshakeMove provider w operation phase
        (.established ratchet (some transcript) (some accept) highWater none)
  | goesOn {session ratchet : RatchetState} {replay : Option (FixedBytes 32)}
      {accept : Option SessionAccept} {highWater : Option Nat}
      {capabilities capabilities' : Option CapabilityRuntime}
      (before : phase = .established session replay accept highWater capabilities) :
      HandshakeMove provider w operation phase
        (.established ratchet replay accept highWater capabilities')
  | opens {ratchet : RatchetState} : HandshakeMove provider w operation phase
      (.established ratchet none none none none)
  | ends {highWater : Option Nat} : HandshakeMove provider w operation phase (.deleted highWater)

section

variable {provider : Provider} {w w' : World} {operation : Operation}
  {packets : List FirstPacket}

theorem World.issued_unique {token : Nat} {material material' : KeyMaterial}
    (h : (token, material) ∈ w.issued) (h' : (token, material') ∈ w.issued) :
    material = material' :=
  congrArg Prod.snd (List.inj_on_of_nodup_map w.unique h h' rfl)

theorem ActivePrekey.Named.later {prekey : ActivePrekey} (h : prekey.Named provider w)
    (hlater : w.Later w') : prekey.Named provider w' := by
  obtain ⟨seed, hseed, heq⟩ := h.mlKem768
  exact ⟨h.x25519.later hlater, ⟨seed, hlater.issued.subset hseed, heq⟩⟩

theorem read_x25519 {handle : CustodyRef .x25519Private} {peer shared : FixedBytes 32}
    (h : (decides provider w).may (custody.x25519 handle peer) (.ok shared)) :
    ∃ key, (handle.custodyToken, .x25519 key) ∈ w.issued ∧ provider.x25519 key peer = .ok shared :=
  (@Program.outcomes_perform interface (Reads provider w.issued) (.x25519 handle peer) _).mp h
    shared rfl

theorem read_x25519Public {handle : CustodyRef .x25519Private} {publicKey : FixedBytes 32}
    (h : (decides provider w).may (custody.x25519Public handle) (.ok publicKey)) :
    w.PublicOf provider handle.custodyToken publicKey :=
  (@Program.outcomes_perform interface (Reads provider w.issued) (.x25519Public handle) _).mp h
    publicKey rfl

theorem read_mlKem768Public {handle : CustodyRef .mlKem768Private} {publicKey : Bytes}
    (h : (decides provider w).may (custody.mlKem768Public handle) (.ok publicKey)) :
    w.KemPublicOf provider handle.custodyToken publicKey :=
  (@Program.outcomes_perform interface (Reads provider w.issued) (.mlKem768Public handle) _).mp h
    publicKey rfl

theorem read_mlKem768Encapsulate {peer : Bytes} {handle : SecretHandle .mlKemEncapsulationEntropy}
    {value : Bytes × FixedBytes 32}
    (h : (decides provider w).may (custody.mlKem768Encapsulate peer handle) (.ok value)) :
    ∃ entropy, provider.mlKem768Encapsulate peer entropy = .ok value := by
  obtain ⟨entropy, _, hentropy⟩ := (@Program.outcomes_perform interface (Reads provider w.issued)
    (.mlKem768Encapsulate peer handle) _).mp h value rfl
  exact ⟨entropy, hentropy⟩

theorem read_mlKem768Decapsulate {handle : SecretHandle .mlKem768Private} {ciphertext : Bytes}
    {secret : FixedBytes 32}
    (h : (decides provider w).may (custody.mlKem768Decapsulate handle ciphertext) (.ok secret)) :
    ∃ seed, (handle.custodyToken, .mlKem768 seed) ∈ w.issued ∧
      provider.mlKem768Decapsulate seed ciphertext = .ok secret :=
  (@Program.outcomes_perform interface (Reads provider w.issued)
    (.mlKem768Decapsulate handle ciphertext) _).mp h secret rfl

theorem Handshaken.moves (h : Handshaken provider packets w) {line : RuntimeLine}
    (hcommitted : operation.Committed provider line w w') :
    HandshakeMove provider w operation w.durable.state.phase w'.durable.state.phase := by
  obtain ⟨plan, pending, hplans, _, _, rfl⟩ := hcommitted.planned
  obtain ⟨unused, hdecided⟩ := hplans.decided
  cases operation with
  | admitPrekey =>
    obtain ⟨admission, heq⟩ := Endpoint.mayOk_decideAdmitPrekey _ hdecided
    cases heq
    refine .admits admission.phase ⟨?_, ?_⟩ <;> rw [admission.bundle_eq]
    · exact read_x25519Public admission.x25519Read
    · exact read_mlKem768Public admission.mlKem768Read
  | acceptFirstPacket =>
    obtain ⟨_, _, _, _, _, ⟨_, heq⟩ | ⟨acceptance, heq⟩⟩ :=
      (Endpoint.mayOk_decideAcceptFirstPacket _).mp hdecided
    · cases heq
    · cases heq
      have hnamed := h.stocked (History.newest_mem _) acceptance.phase _ _ acceptance.stocked
      refine .accepts rfl ⟨acceptance.digested, ⟨_, acceptance.line.symm, acceptance.profile.symm,
        acceptance.inContext⟩, ?_, ?_⟩
      · rw [acceptance.responder, acceptance.responderAuthority]
        rfl
      · obtain ⟨key, hkey, hshared⟩ := read_x25519 acceptance.agreed
        obtain ⟨key', hkey', hpublic⟩ := hnamed.x25519
        obtain ⟨seed, hseed, hsecret⟩ := read_mlKem768Decapsulate acceptance.decapsulated
        obtain ⟨seed', hseed', hkemPublic⟩ := hnamed.mlKem768
        cases World.issued_unique hkey hkey'
        cases World.issued_unique hseed hseed'
        have hprivate := acceptance.localPrivate
        have hratchet := acceptance.answers
        rw [← acceptance.bundle] at hpublic hkemPublic hratchet
        refine ⟨key, acceptance.hybrid, hprivate ▸ hkey, ⟨hpublic, acceptance.core,
          acceptance.prekeyDigest, acceptance.x, acceptance.kem, seed, acceptance.handshake,
          acceptance.prekeyDigested, hkemPublic, hshared, hsecret, acceptance.derived⟩, ?_⟩
        rw [hprivate]
        exact hratchet
  | createFirstPacket _ _ _ _ _ _ staged _ =>
    obtain ⟨_, _, _, _, _, ⟨_, heq⟩ | ⟨_, creation, heq⟩⟩ :=
      (Endpoint.mayOk_decideCreateFirstPacket _).mp hdecided
    · cases heq
    · cases heq
      obtain ⟨key, hkey, hpublic⟩ := read_x25519Public creation.x25519Read
      obtain ⟨key', hkey', hshared⟩ := read_x25519 creation.agreed
      obtain ⟨entropy, hsecret⟩ := read_mlKem768Encapsulate creation.encapsulated
      cases World.issued_unique hkey hkey'
      have hprivate := creation.localPrivate
      have hpacket := creation.packet_eq
      refine .creates ⟨creation.digested, ⟨_, by rw [hpacket], by rw [hpacket],
        creation.inContext⟩, ⟨key, hprivate ▸ hkey, by rw [hpacket]; exact hpublic, creation.core,
        creation.prekeyDigest, creation.x, creation.kem, entropy, creation.handshake,
        creation.prekeyDigested, by rw [hpacket]; exact hshared, by rw [hpacket]; exact hsecret,
        creation.derived⟩, ?_⟩
      rw [hprivate, hpacket]
      exact creation.offers
  | verifySessionAccept =>
    obtain ⟨_, heq⟩ := (Endpoint.mayOk_decideVerifySessionAccept _).mp hdecided
    cases heq
    exact .opens
  | sendRecord =>
    obtain ⟨_, sending, heq⟩ := Endpoint.mayOk_decideSendRecord _ hdecided
    cases heq
    exact .goesOn sending.phase
  | receiveRecord =>
    obtain ⟨_, receipt, heq⟩ := Endpoint.mayOk_decideReceiveRecord _ hdecided
    cases heq
    exact .goesOn receipt.phase
  | bootstrapCapabilities =>
    obtain ⟨established, heq⟩ := Endpoint.mayOk_decideBootstrapCapabilities _ hdecided
    cases heq
    exact .goesOn established.phase
  | applyCompleteCapabilityFlow =>
    obtain ⟨_, application, heq⟩ := Endpoint.mayOk_decideApplyCompleteCapabilityFlow _ hdecided
    cases heq
    exact .goesOn application.phase
  | deleteSession =>
    obtain ⟨_, heq⟩ := Endpoint.mayOk_decideDeleteSession _ hdecided
    cases heq
    exact .ends

namespace Handshaken

theorem move (h : Handshaken provider packets w) (hsnapshots : w'.snapshots = w.snapshots)
    (hlater : w.Later w') : Handshaken provider packets w' where
  stocked hmem hphase key prekey hprekey :=
    (h.stocked (hsnapshots ▸ hmem) hphase key prekey hprekey).later hlater
  created hmem hphase := (h.created (hsnapshots ▸ hmem) hphase).later hlater
  accepted hmem hphase := by
    obtain ⟨packet, hpacket, ratchet, haccepted, origin, horigin, hstored⟩ :=
      h.accepted (hsnapshots ▸ hmem) hphase
    exact ⟨packet, hpacket, ratchet, haccepted.later hlater, origin, hsnapshots ▸ horigin, hstored⟩

theorem advance (h : Handshaken provider packets w) {state : EndpointState}
    {pending : List PendingItem} {mutations : List KeyMutation}
    (hmove : HandshakeMove provider w operation w.durable.state.phase state.phase) :
    Handshaken provider (operation.accepted.toList ++ packets)
      (w.advance state pending mutations) where
  stocked {snapshot highWater active} hmem hphase key prekey hprekey := by
    have hlater := w.later_advance state pending mutations
    rw [World.advance_entries] at hmem
    rcases List.mem_cons.mp hmem with rfl | hmem
    · simp only at hphase
      rw [hphase] at hmove
      cases hmove with
      | admits hready hnamed =>
        by_cases hkey : highWater = key
        · subst hkey
          rw [Std.ExtTreeMap.getElem?_insert_self] at hprekey
          cases hprekey
          exact hnamed.later hlater
        · rw [active_insert_of_ne hkey] at hprekey
          exact (h.stocked (History.newest_mem _) hready key prekey hprekey).later hlater
    · exact (h.stocked hmem hphase key prekey hprekey).later hlater
  created {snapshot packet transcript context hybrid ratchet} hmem hphase := by
    have hlater := w.later_advance state pending mutations
    rw [World.advance_entries] at hmem
    rcases List.mem_cons.mp hmem with rfl | hmem
    · simp only at hphase
      rw [hphase] at hmove
      cases hmove with
      | creates created => exact created.later hlater
    · exact (h.created hmem hphase).later hlater
  accepted {snapshot transcript accept} hmem hphase := by
    have hlater := w.later_advance state pending mutations
    have hold : ∀ snapshot ∈ w.snapshots.entries,
        snapshot.state.phase.accepted = some (transcript, accept) →
        ∃ packet ∈ operation.accepted.toList ++ packets, ∃ ratchet,
          Accepted provider (w.advance state pending mutations) packet transcript accept ratchet ∧
          ∃ origin ∈ (w.advance state pending mutations).snapshots.entries, ∃ highWater,
            origin.state.phase =
              .established ratchet (some transcript) (some accept) highWater none := by
      intro snapshot hmem hphase
      obtain ⟨packet, hpacket, ratchet, haccepted, origin, horigin, hstored⟩ :=
        h.accepted hmem hphase
      exact ⟨packet, List.mem_append_right _ hpacket, ratchet, haccepted.later hlater, origin,
        hlater.snapshots.mem horigin, hstored⟩
    rw [World.advance_entries] at hmem
    rcases List.mem_cons.mp hmem with rfl | hmem
    · generalize hafter : state.phase = after at hmove
      simp only [hafter] at hphase
      cases hmove with
      | @accepts packet _ _ ratchet highWater takes accepted =>
        cases hphase
        refine ⟨packet, ?_, ratchet, accepted.later hlater, _, List.mem_cons_self, highWater,
          hafter⟩
        rw [takes]
        exact List.mem_cons_self
      | @goesOn _ _ replay stored _ _ _ before =>
        refine hold w.durable (History.newest_mem _) ?_
        rw [before]
        cases replay with
        | none => cases hphase
        | some replay =>
          cases stored with
          | none => cases hphase
          | some stored => exact hphase
      | _ => cases hphase
    · exact hold snapshot hmem hphase

theorem committed (h : Handshaken provider packets w) {line : RuntimeLine}
    (hcommitted : operation.Committed provider line w w') :
    Handshaken provider (operation.accepted.toList ++ packets) w' := by
  have hmove := h.moves hcommitted
  obtain ⟨_, _, _, _, _, rfl⟩ := hcommitted.planned
  exact h.advance hmove

theorem settled (h : Handshaken provider packets w) {revision : Revision} {id : PendingId}
    (hsettled : w.Settled revision id w') : Handshaken provider packets w' := by
  have hlater := hsettled.later
  have hentries : ∀ snapshot ∈ w'.snapshots.entries, ∃ old ∈ w.snapshots.entries,
      old.state = snapshot.state := by
    intro snapshot hmem
    rw [hsettled.advanced, World.advance_entries] at hmem
    rcases List.mem_cons.mp hmem with rfl | hmem
    · exact ⟨w.durable, History.newest_mem _, rfl⟩
    · exact ⟨snapshot, hmem, rfl⟩
  refine ⟨fun hmem hphase key prekey hprekey => ?_, fun hmem hphase => ?_, fun hmem hphase => ?_⟩
  · obtain ⟨old, hold, hsame⟩ := hentries _ hmem
    rw [← hsame] at hphase
    exact (h.stocked hold hphase key prekey hprekey).later hlater
  · obtain ⟨old, hold, hsame⟩ := hentries _ hmem
    rw [← hsame] at hphase
    exact (h.created hold hphase).later hlater
  · obtain ⟨old, hold, hsame⟩ := hentries _ hmem
    rw [← hsame] at hphase
    obtain ⟨packet, hpacket, ratchet, haccepted, origin, horigin, hstored⟩ := h.accepted hold hphase
    exact ⟨packet, hpacket, ratchet, haccepted.later hlater, origin, hlater.snapshots.mem horigin,
      hstored⟩

theorem of_genesis (h : w.Genesis) : Handshaken provider [] w := by
  refine ⟨fun hmem hphase key prekey hprekey => ?_, fun hmem hphase => ?_, fun hmem hphase => ?_⟩
  all_goals
    rcases h.entries with heq | heq <;> rw [heq] at hmem <;> cases List.mem_singleton.mp hmem <;>
      cases hphase
  simp at hprekey

end Handshaken

end

/-! ## Runs -/

section

variable {ι : Type} [DecidableEq ι] {provider : Provider}
  {guard : (system provider).Config ι → (system provider).Event ι → Prop}
  {c₀ c c' : (system provider).Config ι} {log : List ((system provider).Event ι)}

def acceptedPackets (log : List ((system provider).Event ι)) : List FirstPacket :=
  (committedOperations log).filterMap Operation.accepted

theorem run_handshaken (hidle : c₀.allIdle) (hgenesis : c₀.world.Genesis)
    (h : (system provider).Run guard c₀ log c) :
    Handshaken provider (acceptedPackets log) c.world := by
  induction h with
  | start => exact .of_genesis hgenesis
  | @step log c c' event run step guarded ih =>
    have hlater := later_of_step step
    have hquiet : (∀ kind, commitsOf kind event = false) → c'.world.snapshots = c.world.snapshots →
        Handshaken provider (acceptedPackets (event :: log)) c'.world := by
      intro hnone hsame
      rw [acceptedPackets, committedOperations,
        List.filterMap_cons_none (committedOperation_quiet hnone)]
      exact ih.move hsame hlater
    cases step with
    | start call idle => exact hquiet (fun _ => rfl) rfl
    | finish busy => exact hquiet (fun _ => rfl) rfl
    | surroundings moved => exact hquiet (fun _ => rfl) (surroundings_snapshots moved)
    | exchange busy handled =>
      obtain ⟨_, _, hsame | ⟨line, operation, rfl, hcommitted⟩ | ⟨_, _, _, _, rfl, hsettled⟩⟩ :=
        exchange_store hidle run (.exchange busy handled)
      · refine hquiet (fun kind => ?_) hsame
        simp [commitsOf, World.durable_of_snapshots hsame]
      · have hnext := ih.committed hcommitted
        rw [acceptedPackets, committedOperations,
          List.filterMap_cons_some (committedOperation_committed hcommitted)]
        cases hoperation : operation.accepted with
        | none =>
          rw [List.filterMap_cons_none hoperation]
          rwa [hoperation] at hnext
        | some packet =>
          rw [List.filterMap_cons_some hoperation]
          rwa [hoperation] at hnext
      · rw [acceptedPackets, committedOperations, List.filterMap_cons_none rfl]
        exact ih.settled hsettled

/-- The first packet that a phase waits on. -/
def Phase.offer : Phase → Option FirstPacket
  | initiatorAwaiting packet _ _ _ _ => some packet
  | _ => none

def World.offers (w : World) : List FirstPacket :=
  w.snapshots.entries.filterMap fun snapshot => snapshot.state.phase.offer

/-- A phase that no first packet is created from. -/
def Phase.settled : Phase → Bool
  | established _ _ _ _ _ | deleted _ => true
  | _ => false

theorem Phase.offer_of_settled {phase : Phase} (h : phase.settled = true) : phase.offer = none := by
  cases phase <;> first | rfl | cases h

omit [DecidableEq ι] in
theorem PhaseRun.keepsOffer {start phase : Phase} {operations : List Operation}
    (h : PhaseRun provider start operations phase) (hoffer : start.offer.isSome) :
    phase = start ∨ phase.settled = true := by
  induction h with
  | start => exact .inl rfl
  | @move operations operation phase phase' run move ih =>
    right
    rcases ih with rfl | hsettled
    · cases move with
      | verifies => rfl
      | deletes => rfl
      | _ => cases hoffer
    · cases move with
      | continues => rfl
      | deletes => rfl
      | _ => cases hsettled

omit [DecidableEq ι] in
/-- All the snapshots that wait on a first packet have the same phase. -/
theorem Phased.offer_unique {start : Phase} {operations : List Operation} {w : World}
    (h : Phased provider start operations w) {first second : Snapshot}
    (hfirst : first ∈ w.snapshots.entries) (hoffer : first.state.phase.offer.isSome)
    (hsecond : second ∈ w.snapshots.entries) (hoffer' : second.state.phase.offer.isSome) :
    first.state.phase = second.state.phase := by
  have hordered : w.snapshots.entries.Pairwise fun newer older =>
      newer.state.phase.offer.isSome → older.state.phase.offer.isSome →
        newer.state.phase = older.state.phase := by
    refine h.ordered.imp fun {newer older} hbetween hnewer holder => ?_
    obtain ⟨_, hrun⟩ := hbetween
    rcases hrun.keepsOffer holder with hsame | hsettled
    · exact hsame
    · rw [Phase.offer_of_settled hsettled] at hnewer
      cases hnewer
  refine hordered.forall_of_forall_of_flip (fun _ _ _ _ => rfl) ?_ hfirst hsecond hoffer hoffer'
  exact hordered.imp fun hsame hold hnew => (hsame hnew hold).symm

omit [DecidableEq ι] in
theorem Operation.Backed.verified {line : RuntimeLine} {accept : SessionAccept} {w : World}
    (h : Operation.Backed provider line (.verifySessionAccept accept) (.ok ()) w) :
    ∃ waiting ∈ w.snapshots.entries, ∃ packet hybrid ratchet, waiting.state.phase =
        .initiatorAwaiting packet accept.transcriptDigest accept.sessionContextDigest hybrid
        ratchet ∧
      ∃ opened ∈ w.snapshots.entries,
        opened.state.phase = .established ratchet none none none none := by
  obtain ⟨current, hcurrent, ⟨unused, hanswer⟩ | ⟨plan, pending, hplans, _, hmem⟩⟩ := h
  · obtain ⟨_, heq⟩ := (Endpoint.mayOk_decideVerifySessionAccept _).mp hanswer
    cases heq
  · obtain ⟨unused, hdecided⟩ := hplans.decided
    obtain ⟨verification, heq⟩ := (Endpoint.mayOk_decideVerifySessionAccept _).mp hdecided
    cases heq
    refine ⟨current, hcurrent, verification.packet, verification.hybrid, verification.ratchet, ?_,
      _, hmem, rfl⟩
    rw [verification.phase, verification.sameTranscript, verification.sameContext]

/-- Handshake agreement. In every run of an initiator and every run of a responder, an answer that
the responder has returned and the initiator has verified is the answer to the one packet that the
initiator has waited on, and the ratchets that both have stored are counterparts. -/
theorem handshake_agreement {κ : Type} [DecidableEq κ]
    {guard' : (system provider).Config κ → (system provider).Event κ → Prop}
    {d₀ d : (system provider).Config κ} {log' : List ((system provider).Event κ)}
    (commutes : X25519Commutes provider) (correct : MlKemCorrect provider)
    (hidle : c₀.allIdle) (hgenesis : c₀.world.Genesis) (h : (system provider).Run guard c₀ log c)
    (hidle' : d₀.allIdle) (hgenesis' : d₀.world.Genesis)
    (h' : (system provider).Run guard' d₀ log' d)
    (hfree : Set.InjOn provider.sha256
      (digested (c.world.offers ++ log'.filterMap eventPacket)))
    {i : ι} {line : RuntimeLine} {accept : SessionAccept}
    {trace : List (Program.Exchange interface World)} {w : World}
    (hverified : .finish i (Call.operate line (.verifySessionAccept accept)) trace
      (Except.ok ()) w ∈ log)
    {j : κ} {line' : RuntimeLine} {initiator : TrustedIdentity} {responder : IdentityPublic}
    {authority : FixedBytes 32} {packet : FirstPacket}
    {trace' : List (Program.Exchange interface World)} {w' : World}
    (haccepted : .finish j (Call.operate line' (.acceptFirstPacket initiator responder authority
      packet)) trace' (Except.ok accept) w' ∈ log') :
    ∃ hybrid ratchet ratchet' highWater,
      (∃ waiting ∈ c.world.snapshots.entries, waiting.state.phase =
        .initiatorAwaiting packet accept.transcriptDigest accept.sessionContextDigest hybrid
        ratchet) ∧
      (∀ offered ∈ c.world.offers, offered = packet) ∧
      (∃ opened ∈ c.world.snapshots.entries,
        opened.state.phase = .established ratchet none none none none) ∧
      (∃ answered ∈ d.world.snapshots.entries, answered.state.phase =
        .established ratchet' (some accept.transcriptDigest) (some accept) highWater none) ∧
      accept = ⟨accept.transcriptDigest, accept.sessionContextDigest,
        packet.initiatorUserAuthorityStateDigest, packet.responderIdentityStateDigest,
        packet.responderUserAuthorityStateDigest, packet.prekey.pairSequence, accept.mac⟩ ∧
      Counterparts ratchet ratchet' := by
  obtain ⟨hbacked, hlater⟩ := run_backed hidle h hverified
  obtain ⟨hbacked', hlater'⟩ := run_backed hidle' h' haccepted
  obtain ⟨waiting, hwaiting, offered, hybrid, ratchet, hphase, opened, hopened, hestablished⟩ :=
    Operation.Backed.verified hbacked
  obtain ⟨stored, hstored, transcript, hanswer, hdigest⟩ := Operation.Backed.stored hbacked'
  replace hwaiting := hlater.snapshots.mem hwaiting
  have hcreated := (run_handshaken hidle hgenesis h).created hwaiting hphase
  obtain ⟨packet', hpacket', ratchet', haccept, answered, hanswered, highWater, hsession⟩ :=
    (run_handshaken hidle' hgenesis' h').accepted (hlater'.snapshots.mem hstored) hanswer
  have htranscript : accept.transcriptDigest = transcript := by rw [haccept.answer]
  subst htranscript
  -- One digest names the packet that was waited on, accepted and answered.
  have hoffer : offered ∈ c.world.offers :=
    List.mem_filterMap.mpr ⟨waiting, hwaiting, by rw [hphase]; rfl⟩
  have hhanded : packet ∈ log'.filterMap eventPacket :=
    List.mem_filterMap.mpr ⟨_, haccepted, rfl⟩
  cases packet_of_digest hfree (List.mem_append_left _ hoffer) (List.mem_append_right _ hhanded)
    hcreated.digest hdigest
  cases packet_of_digest hfree (List.mem_append_left _ hoffer)
    (List.mem_append_right _ (mem_eventPackets_of_accepted hpacket')) hdigest haccept.digest
  refine ⟨hybrid, ratchet, ratchet', highWater, ⟨waiting, hwaiting, hphase⟩, ?_,
    ⟨opened, hlater.snapshots.mem hopened, hestablished⟩, ⟨answered, hanswered, hsession⟩,
    haccept.answer, hcreated.counterparts commutes correct haccept⟩
  intro other hother
  obtain ⟨snapshot, hsnapshot, hoffer'⟩ := List.mem_filterMap.mp hother
  have hsame := (run_phased hidle hgenesis h).offer_unique hsnapshot (by rw [hoffer']; rfl) hwaiting
    (by rw [hphase]; rfl)
  rw [hsame, hphase] at hoffer'
  exact (Option.some.inj hoffer').symm

end

/-! ## A handshake over two stores -/

namespace Agreed

def provider : Provider :=
  { Waiting.provider with
    aeadOpen := fun _ _ _ _ => .ok dClientConfirm
    mlKem768Public := fun _ => List.replicate mlKem768PublicKeyBytes 0
    mlKem768Decapsulate := fun _ _ => .ok (.zero 32) }

def answer : SessionAccept := ⟨.zero 32, .zero 32, .zero 32, .zero 32, .zero 32, 1, .zero 32⟩

def call (operation : Operation) : Call := .operate ⟨.zero 32, .zero 32⟩ operation

def after (operation : Operation) (w : World) : World :=
  (((call operation).program provider).run (serve provider 0) w).2

def initiator : World := after (.verifySessionAccept answer) (after Waiting.create Waiting.world)

def responder : World := after Refused.accept (after Refused.admission Refused.world)

def verified : Except Error Unit :=
  (((call (.verifySessionAccept answer)).program provider).run (serve provider 0)
    (after Waiting.create Waiting.world)).1

def accepted : Except Error SessionAccept :=
  (((call Refused.accept).program provider).run (serve provider 0)
    (after Refused.admission Refused.world)).1

theorem verified_ok : Except.check verified (fun _ => True) = true := by
  decide +kernel

theorem accepted_ok : Except.check accepted (fun accept => accept = answer) = true := by
  decide +kernel

theorem offers_only : (initiator.offers.all fun offered => offered = Refused.packet) = true := by
  decide +kernel

theorem run_two {first second : Operation} {w : World}
    {result : Except Error second.Value}
    (h : (((call second).program provider).run (serve provider 0) (after first w)).1 = result) :
    ∃ trace trace' result', (system provider).Run (fun _ _ => True) (atRest provider Unit w)
      (callEvents () (call second) trace' result (after second (after first w)) ++
        callEvents () (call first) trace result' (after first w))
      (atRest provider Unit (after second (after first w))) :=
  ⟨_, _, _, run_calls () (Program.Plays.self _ _ _) ⟨Prod.ext h rfl, rfl⟩⟩

theorem x25519Commutes : X25519Commutes provider := @TableProvider.x25519Commutes [] []

theorem mlKemCorrect : MlKemCorrect provider := by
  intro seed entropy secret secret' ciphertext hencapsulate hdecapsulate
  cases hencapsulate
  cases hdecapsulate
  rfl

theorem initiator_run : ∃ trace trace' result,
    (system provider).Run (fun _ _ => True) (atRest provider Unit Waiting.world)
      (callEvents () (call (.verifySessionAccept answer)) trace' (Except.ok ()) initiator ++
        callEvents () (call Waiting.create) trace result (after Waiting.create Waiting.world))
      (atRest provider Unit initiator) := by
  obtain ⟨_, hverified, _⟩ := Except.exists_of_check verified_ok
  exact run_two hverified

theorem responder_run : ∃ trace trace' result,
    (system provider).Run (fun _ _ => True) (atRest provider Unit Refused.world)
      (callEvents () (call Refused.accept) trace' (Except.ok answer) responder ++
        callEvents () (call Refused.admission) trace result
          (after Refused.admission Refused.world))
      (atRest provider Unit responder) := by
  obtain ⟨_, haccepted, rfl⟩ := Except.exists_of_check accepted_ok
  exact run_two haccepted

/-- The answer to the packet makes the ratchets of the two stores counterparts. -/
theorem handshake_agreement_answered : ∃ ratchet ratchet' highWater,
    (∃ opened ∈ initiator.snapshots.entries,
      opened.state.phase = .established ratchet none none none none) ∧
    (∃ answered ∈ responder.snapshots.entries, answered.state.phase =
      .established ratchet' (some answer.transcriptDigest) (some answer) highWater none) ∧
    Counterparts ratchet ratchet' := by
  obtain ⟨_, _, _, hrun⟩ := initiator_run
  obtain ⟨trace, trace', result, hrun'⟩ := responder_run
  have hhanded : ∀ packet ∈ initiator.offers ++
      (callEvents () (call Refused.accept) trace' (Except.ok answer) responder ++
        callEvents () (call Refused.admission) trace result
          (after Refused.admission Refused.world) :
          List ((system provider).Event Unit)).filterMap eventPacket, packet = Refused.packet := by
    intro packet hpacket
    rw [List.filterMap_append, List.mem_append, List.mem_append] at hpacket
    rcases hpacket with hoffered | haccept | hadmit
    · exact of_decide_eq_true (List.all_eq_true.mp offers_only packet hoffered)
    · exact (Option.some.inj (packet_of_callEvents haccept)).symm
    · cases packet_of_callEvents hadmit
  have hfree := @digested_injOn provider _ _ hhanded
  generalize initiator = w at hrun hfree ⊢
  generalize responder = w' at hrun' hfree ⊢
  obtain ⟨_, ratchet, ratchet', highWater, _, _, hopened, hanswered, _, hcounterparts⟩ :=
    handshake_agreement x25519Commutes @mlKemCorrect (atRest_allIdle _) Waiting.world_genesis hrun
      (atRest_allIdle _) Refused.world_genesis hrun' hfree List.mem_cons_self List.mem_cons_self
  exact ⟨ratchet, ratchet', highWater, hopened, hanswered, hcounterparts⟩

end Agreed

end LicoArc
