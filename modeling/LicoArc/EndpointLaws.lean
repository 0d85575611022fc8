import LicoArc.Endpoint
import LicoArc.RatchetLaws

/-!
# What an endpoint operation decides

For each operation a structure of everything that holds when it reaches a
decision on a snapshot, with the decision, and one lemma that it is reached only
so.
-/

namespace LicoArc

@[simp] theorem ensureLive_eq_ok {state : EndpointState} {u : Unit} :
    ensureLive state = .ok u ↔ ∀ highWater, state.phase ≠ .deleted highWater := by
  rw [ensureLive]
  cases state.phase <;> simp

@[simp] theorem validateIdentityShape_eq_ok {identity : IdentityPublic} {u : Unit} :
    validateIdentityShape identity = .ok u ↔
      identity.mlDsa65Public.length = mlDsa65PublicKeyBytes := by
  rw [validateIdentityShape, reject_eq_ok, not_not]

theorem PendingItem.bounded_eq_ok_iff {id : PendingId} {kind : PendingKind} {item : PendingItem} :
    PendingItem.bounded id kind = .ok item ↔
      (match kind with
        | .packet bytes | .effect bytes => bytes.length ≤ maxPendingPayloadBytes
        | .plaintext bytes => bytes.length ≤ maxPendingPlaintextBytes) ∧ item = ⟨id, kind⟩ := by
  cases kind <;>
    simp only [bounded, Except.bind_eq_ok, reject_eq_ok, exists_const, Except.pure_eq,
      Except.ok.injEq, not_lt, gt_iff_lt, eq_comm (a := item)]

section

variable {m : Type → Type} [Monad m] (o : Outcomes m)

theorem mayOk_verifyLocalSigning {custody : KeyCustody m} {identity : IdentityPublic}
    {signing : IdentitySigningHandles} {u : Unit} :
    o.mayOk (verifyLocalSigning custody identity signing) u ↔
      o.may (custody.ed25519Public signing.ed25519) (.ok identity.ed25519Public) ∧
      o.may (custody.mlDsa65Public signing.mlDsa65) (.ok identity.mlDsa65Public) := by
  simp [verifyLocalSigning]

@[simp] theorem mayOk_mk {α : Type} (x : m (Except Error α)) (a : α) :
    o.mayOk (ExceptT.mk x) a ↔ o.may x (.ok a) := Iff.rfl

namespace Endpoint

variable {self : Endpoint m} {current : Snapshot}

/-! ## Admission -/

structure PrekeyAdmission (o : Outcomes m) (endpoint : Endpoint m) (current : Snapshot)
    (identity : IdentityPublic) (signing : IdentitySigningHandles) (pairSequence : Nat)
    (x25519Private : StagedSecretHandle .x25519Private)
    (mlKemPrivate : StagedSecretHandle .mlKem768Private) (validFrom validUntil : Nat) where
  highWater : Nat
  active : ActivePrekeys
  x25519Public : FixedBytes 32
  mlKem768Public : Bytes
  ed25519Signature : FixedBytes 64
  mlDsa65Signature : Bytes
  bundle : PrekeyBundle
  input : Bytes
  phase : current.state.phase = .responderReady highWater active
  opens : validFrom < validUntil
  span : validUntil - validFrom ≤ 604800
  closes : validUntil ≤ maxSafeInteger
  nonzero : pairSequence ≠ 0
  atMost : pairSequence ≤ maxSafeInteger
  shape : identity.mlDsa65Public.length = mlDsa65PublicKeyBytes
  ed25519Key : o.may (endpoint.custody.ed25519Public signing.ed25519) (.ok identity.ed25519Public)
  mlDsa65Key : o.may (endpoint.custody.mlDsa65Public signing.mlDsa65) (.ok identity.mlDsa65Public)
  fresh : highWater < pairSequence
  room : active.size < maxActivePrekeyPairs
  bundle_eq : bundle = ⟨endpoint.line.protocolLineId, endpoint.line.protectionProfileId,
    identity.stateDigest, identity.ed25519KeyId, identity.mlDsa65KeyId, pairSequence, x25519Public,
    mlKem768Public, validFrom, validUntil, ed25519Signature, mlDsa65Signature⟩
  x25519Read : o.may (endpoint.custody.x25519Public (.staged x25519Private)) (.ok x25519Public)
  mlKem768Read : o.may (endpoint.custody.mlKem768Public (.staged mlKemPrivate)) (.ok mlKem768Public)
  signs : bundleSignatureInput bundle = .ok input
  ed25519Signed : o.may (endpoint.custody.ed25519Sign signing.ed25519 input) (.ok ed25519Signature)
  mlDsa65Signed : o.may (endpoint.custody.mlDsa65Sign signing.mlDsa65 input) (.ok mlDsa65Signature)

section

variable {identity : IdentityPublic} {signing : IdentitySigningHandles} {pairSequence : Nat}
  {x25519Private : StagedSecretHandle .x25519Private}
  {mlKemPrivate : StagedSecretHandle .mlKem768Private} {validFrom validUntil : Nat}

variable {o} in
def PrekeyAdmission.decision (admission : PrekeyAdmission o self current identity signing
    pairSequence x25519Private mlKemPrivate validFrom validUntil) : Decision PrekeyBundle :=
  .commit
    ⟨⟨.responderReady pairSequence (admission.active.insert pairSequence
        ⟨admission.bundle, x25519Private.adoptedHandle, mlKemPrivate.adoptedHandle⟩)⟩,
      [.adoptX25519 x25519Private, .adoptMlKem768 mlKemPrivate], .ok current.pending,
      admission.bundle⟩
    none

theorem mayOk_decideAdmitPrekey {d : Decision PrekeyBundle}
    (h : o.mayOk (self.decideAdmitPrekey identity signing pairSequence x25519Private mlKemPrivate
      validFrom validUntil current) d) :
    ∃ admission : PrekeyAdmission o self current identity signing pairSequence x25519Private
      mlKemPrivate validFrom validUntil, d = admission.decision := by
  rw [decideAdmitPrekey] at h
  cases hphase : current.state.phase with
  | responderReady highWater active =>
    simp only [Outcomes.mayOk_bind, Outcomes.mayOk_lift, hphase, reject_eq_ok, exists_const,
      Outcomes.mayOk_pure, Outcomes.mayOk_attempt, mayOk_verifyLocalSigning, ensureLive_eq_ok,
      validateIdentityShape_eq_ok, not_or, not_le, not_lt, ge_iff_le, gt_iff_lt] at h
    obtain ⟨_, ⟨hbefore, hspan, huntil, hzero, hmax⟩, hshape, ⟨hed, hml⟩, ⟨hfresh, hroom⟩, xPublic,
      hx, kemPublic, hkem, input, hinput, edSignature, hedSign, mlSignature, hmlSign, rfl⟩ := h
    let admission : PrekeyAdmission o self current identity signing pairSequence x25519Private
        mlKemPrivate validFrom validUntil :=
      { highWater, active, x25519Public := xPublic, mlKem768Public := kemPublic
        ed25519Signature := edSignature, mlDsa65Signature := mlSignature, bundle := _, input
        phase := hphase, opens := hbefore, span := hspan, closes := huntil, nonzero := hzero
        atMost := hmax, shape := hshape, ed25519Key := hed, mlDsa65Key := hml, fresh := hfresh
        room := hroom, bundle_eq := rfl, x25519Read := hx, mlKem768Read := hkem, signs := hinput
        ed25519Signed := hedSign, mlDsa65Signed := hmlSign }
    exact ⟨admission, rfl⟩
  | _ =>
    simp only [Outcomes.mayOk_bind, hphase, Outcomes.mayOk_throw, exists_false, and_false] at h

end

/-! ## Acceptance -/

/-- An established session that has accepted the packet. -/
structure StoredAcceptance (endpoint : Endpoint m) (current : Snapshot) (packet : FirstPacket) where
  session : RatchetState
  digest : FixedBytes 32
  accept : SessionAccept
  highWater : Option Nat
  capabilities : Option CapabilityRuntime
  phase : current.state.phase = .established session (some digest) (some accept) highWater
    capabilities
  digested : firstPacketDigest endpoint.provider packet = .ok digest

structure FirstPacketAcceptance (o : Outcomes m) (endpoint : Endpoint m) (current : Snapshot)
    (initiatorIdentity : TrustedIdentity) (responderIdentity : IdentityPublic)
    (authority : FixedBytes 32) (packet : FirstPacket) (now : Nat) where
  highWater : Nat
  active : ActivePrekeys
  prekey : ActivePrekey
  core : FixedBytes 32
  x : FixedBytes 32
  kem : FixedBytes 32
  prekeyDigest : FixedBytes 32
  hybrid : HybridSecrets
  transcript : FixedBytes 32
  context : FixedBytes 32
  ratchet : RatchetState
  input : Bytes
  mac : FixedBytes 32
  phase : current.state.phase = .responderReady highWater active
  stocked : active[packet.prekey.pairSequence]? = some prekey
  bundle : packet.prekey = prekey.bundle
  line : packet.protocolLineId = endpoint.line.protocolLineId
  profile : packet.protectionProfileId = endpoint.line.protectionProfileId
  responder : packet.responderIdentityStateDigest = responderIdentity.stateDigest
  responderAuthority : packet.responderUserAuthorityStateDigest = authority
  notBefore : prekey.bundle.validFrom ≤ now
  notAfter : now < prekey.bundle.validUntil
  atMost : packet.prekey.pairSequence ≤ highWater
  verified : verifyBundle endpoint.provider responderIdentity packet.prekey = .ok ()
  authenticated : verifyHandshakeAuthentication endpoint.provider initiatorIdentity.identity
    packet = .ok ()
  handshake : handshakeCore endpoint.provider packet = .ok core
  agreed : o.may (endpoint.custody.x25519 (.adopted prekey.x25519Private)
    packet.initiatorX25519Public) (.ok x)
  decapsulated : o.may (endpoint.custody.mlKem768Decapsulate prekey.mlKemPrivate
    packet.mlKem768Ciphertext) (.ok kem)
  prekeyDigested : prekeyTranscriptDigest endpoint.provider packet = .ok prekeyDigest
  derived : HybridSecrets.derive endpoint.provider x kem prekeyDigest core = .ok hybrid
  confirmed : hybrid.verifyClientConfirmation endpoint.provider core
    (packet.clientConfirmCiphertext.toList ++ packet.clientConfirmTag.toList) = .ok ()
  digested : firstPacketDigest endpoint.provider packet = .ok transcript
  inContext : sessionContext endpoint.provider endpoint.line transcript packet = .ok context
  answers : RatchetState.responder endpoint.provider hybrid context prekey.x25519Private
    prekey.bundle.x25519Public packet.initiatorX25519Public = .ok ratchet
  unsigned : acceptUnsigned ⟨transcript, context, packet.initiatorUserAuthorityStateDigest,
    responderIdentity.stateDigest, authority, packet.prekey.pairSequence, mac⟩ = .ok input
  authenticates : hybrid.sessionAcceptMac endpoint.provider input = .ok mac

section

variable {initiatorIdentity : TrustedIdentity} {responderIdentity : IdentityPublic}
  {authority : FixedBytes 32} {packet : FirstPacket} {now : Nat}

variable {o} in
def FirstPacketAcceptance.accept (acceptance : FirstPacketAcceptance o self current
    initiatorIdentity responderIdentity authority packet now) : SessionAccept :=
  ⟨acceptance.transcript, acceptance.context, packet.initiatorUserAuthorityStateDigest,
    responderIdentity.stateDigest, authority, packet.prekey.pairSequence, acceptance.mac⟩

variable {o} in
def FirstPacketAcceptance.decision (acceptance : FirstPacketAcceptance o self current
    initiatorIdentity responderIdentity authority packet now) : Decision SessionAccept :=
  .commit
    ⟨⟨.established acceptance.ratchet (some acceptance.transcript) (some acceptance.accept)
        (some acceptance.highWater) none⟩,
      acceptMutations acceptance.active packet.prekey.pairSequence, .ok current.pending,
      acceptance.accept⟩
    none

variable {o} in
theorem FirstPacketAcceptance.localPrivate (acceptance : FirstPacketAcceptance o self current
    initiatorIdentity responderIdentity authority packet now) :
    acceptance.ratchet.localPrivate = acceptance.prekey.x25519Private := by
  obtain ⟨_, _, _, hmade⟩ := RatchetState.responder_eq_ok.mp acceptance.answers
  rw [hmade]

theorem mayOk_decideAcceptFirstPacket {clock : Clock m} {d : Decision SessionAccept} :
    o.mayOk (self.decideAcceptFirstPacket initiatorIdentity responderIdentity authority packet clock
      current) d ↔
    responderIdentity.mlDsa65Public.length = mlDsa65PublicKeyBytes ∧
    validateFirstPacketShape packet = .ok () ∧
    initiatorIdentity.protectionProfileId = self.line.protectionProfileId ∧
    ∃ now, o.may clock.nowUnixSeconds (.ok now) ∧
    ((∃ stored : StoredAcceptance self current packet, d = .answer stored.accept none) ∨
      ∃ acceptance : FirstPacketAcceptance o self current initiatorIdentity responderIdentity
        authority packet now, d = acceptance.decision) := by
  rw [decideAcceptFirstPacket]
  cases hphase : current.state.phase with
  | responderReady highWater active =>
    simp only [Outcomes.mayOk_bind, Outcomes.mayOk_lift, hphase, reject_eq_ok, exists_const,
      Outcomes.mayOk_pure, Outcomes.mayOk_attempt, TrustedIdentity.forLine, Except.bind_eq_ok,
      validateIdentityShape_eq_ok, ensureLive_eq_ok, okOr_eq_ok, Except.mapError_eq_ok, mayOk_mk,
      Except.pure_eq, Except.ok.injEq, not_or, not_not, not_lt, not_le, ge_iff_le, gt_iff_lt]
    constructor
    · rintro ⟨_, hidentity, _, hshape, now, hnow, _, ⟨hprofile, rfl⟩, prekey, hprekey, hchecks, _,
        hbundle, core, hcore, _, hauthentic, x, hx, kem, hkem, prekeyDigest, hprekeyDigest, hybrid,
        hhybrid, _, hconfirm, transcript, htranscript, context, hcontext, ratchet, hratchet, input,
        hinput, mac, hmac, rfl⟩
      obtain ⟨h₁, h₂, h₃, h₄, h₅, h₆, h₇, h₈⟩ := hchecks
      let acceptance : FirstPacketAcceptance o self current initiatorIdentity responderIdentity
          authority packet now :=
        { highWater, active, prekey, core, x, kem, prekeyDigest, hybrid, transcript, context
          ratchet, input, mac, phase := hphase, stocked := hprekey, bundle := h₁, line := h₂
          profile := h₃, responder := h₄, responderAuthority := h₅, notBefore := h₆, notAfter := h₇
          atMost := h₈, verified := hbundle, authenticated := hauthentic, handshake := hcore
          agreed := hx, decapsulated := hkem, prekeyDigested := hprekeyDigest, derived := hhybrid
          confirmed := hconfirm, digested := htranscript, inContext := hcontext
          answers := hratchet, unsigned := hinput, authenticates := hmac }
      exact ⟨hidentity, hshape, hprofile, now, hnow, .inr ⟨acceptance, rfl⟩⟩
    · rintro ⟨hidentity, hshape, hprofile, now, hnow, ⟨stored, _⟩ | ⟨acceptance, rfl⟩⟩
      · cases hphase.symm.trans stored.phase
      · obtain ⟨_, _, prekey, core, x, kem, prekeyDigest, hybrid, transcript, context, ratchet,
          input, mac, hready, hprekey, h₁, h₂, h₃, h₄, h₅, h₆, h₇, h₈, hbundle, hauthentic, hcore,
          hx, hkem, hprekeyDigest, hhybrid, hconfirm, htranscript, hcontext, hratchet, hinput,
          hmac⟩ := acceptance
        cases hphase.symm.trans hready
        exact ⟨(by rintro _ ⟨⟩), hidentity, (), hshape, now, hnow, _, ⟨hprofile, rfl⟩, prekey,
          hprekey, ⟨h₁, h₂, h₃, h₄, h₅, h₆, h₇, h₈⟩, (), hbundle, core, hcore, (), hauthentic, x,
          hx, kem, hkem, prekeyDigest, hprekeyDigest, hybrid, hhybrid, (), hconfirm, transcript,
          htranscript, context, hcontext, ratchet, hratchet, input, hinput, mac, hmac, rfl⟩
  | established session replay accept highWater capabilities =>
    have hnone : ∀ now, ¬∃ acceptance : FirstPacketAcceptance o self current initiatorIdentity
        responderIdentity authority packet now, d = acceptance.decision := by
      rintro now ⟨acceptance, _⟩
      cases hphase.symm.trans acceptance.phase
    cases replay with
    | none =>
      refine iff_of_false (by simp [hphase]) ?_
      rintro ⟨_, _, _, now, _, ⟨stored, _⟩ | hnew⟩
      · cases hphase.symm.trans stored.phase
      · exact hnone now hnew
    | some digest =>
      cases accept with
      | none =>
        refine iff_of_false (by simp [hphase]) ?_
        rintro ⟨_, _, _, now, _, ⟨stored, _⟩ | hnew⟩
        · cases hphase.symm.trans stored.phase
        · exact hnone now hnew
      | some accept =>
        simp only [Outcomes.mayOk_bind, Outcomes.mayOk_lift, hphase, reject_eq_ok, exists_const,
          Outcomes.mayOk_pure, TrustedIdentity.forLine, Except.bind_eq_ok, ensureLive_eq_ok,
          validateIdentityShape_eq_ok, mayOk_mk, Except.pure_eq, Except.ok.injEq, not_not]
        constructor
        · rintro ⟨_, hidentity, _, hshape, now, hnow, _, ⟨hprofile, rfl⟩, _, hdigest, rfl, rfl⟩
          exact ⟨hidentity, hshape, hprofile, now, hnow,
            .inl ⟨⟨session, _, accept, highWater, capabilities, hphase, hdigest⟩, rfl⟩⟩
        · rintro ⟨hidentity, hshape, hprofile, now, hnow, ⟨stored, rfl⟩ | hnew⟩
          · obtain ⟨_, _, _, _, _, hsame, hdigest⟩ := stored
            cases hphase.symm.trans hsame
            exact ⟨(by rintro _ ⟨⟩), hidentity, (), hshape, now, hnow, _, ⟨hprofile, rfl⟩, digest,
              hdigest, rfl, rfl⟩
          · exact absurd hnew (hnone now)
  | _ =>
    refine iff_of_false (by simp only [Outcomes.mayOk_bind, Outcomes.mayOk_throw, and_false,
      exists_false, not_false_eq_true]) ?_
    rintro ⟨_, _, _, now, _, ⟨stored, _⟩ | ⟨acceptance, _⟩⟩
    · cases hphase.symm.trans stored.phase
    · cases hphase.symm.trans acceptance.phase

end

/-! ## Creation -/

structure FirstPacketCreation (o : Outcomes m) (endpoint : Endpoint m)
    (initiatorIdentity responderIdentity : IdentityPublic)
    (initiatorAuthority responderAuthority : FixedBytes 32) (signing : IdentitySigningHandles)
    (prekey : PrekeyBundle) (now : Nat) (x25519Private : StagedSecretHandle .x25519Private)
    (mlKemEntropy : SecretHandle .mlKemEncapsulationEntropy) where
  ciphertext : Bytes
  kem : FixedBytes 32
  xPublic : FixedBytes 32
  x : FixedBytes 32
  core : FixedBytes 32
  ed25519Signature : FixedBytes 64
  mlDsa65Signature : Bytes
  prekeyDigest : FixedBytes 32
  hybrid : HybridSecrets
  confirmation : Bytes
  confirmCiphertext : FixedBytes 36
  confirmTag : FixedBytes 16
  transcript : FixedBytes 32
  context : FixedBytes 32
  ratchet : RatchetState
  packet : FirstPacket
  notBefore : prekey.validFrom ≤ now
  notAfter : now < prekey.validUntil
  line : prekey.protocolLineId = endpoint.line.protocolLineId
  profile : prekey.protectionProfileId = endpoint.line.protectionProfileId
  ed25519Key : o.may (endpoint.custody.ed25519Public signing.ed25519)
    (.ok initiatorIdentity.ed25519Public)
  mlDsa65Key : o.may (endpoint.custody.mlDsa65Public signing.mlDsa65)
    (.ok initiatorIdentity.mlDsa65Public)
  verified : verifyBundle endpoint.provider responderIdentity prekey = .ok ()
  packet_eq : packet = ⟨endpoint.line.protocolLineId, endpoint.line.protectionProfileId,
    initiatorIdentity.stateDigest, initiatorAuthority, responderIdentity.stateDigest,
    responderAuthority, prekey, xPublic, ciphertext, initiatorIdentity.ed25519KeyId,
    initiatorIdentity.mlDsa65KeyId, ed25519Signature, mlDsa65Signature, confirmCiphertext,
    confirmTag⟩
  encapsulated : o.may (endpoint.custody.mlKem768Encapsulate prekey.mlKem768Public mlKemEntropy)
    (.ok (ciphertext, kem))
  x25519Read : o.may (endpoint.custody.x25519Public (.staged x25519Private)) (.ok xPublic)
  agreed : o.may (endpoint.custody.x25519 (.staged x25519Private) prekey.x25519Public) (.ok x)
  handshake : handshakeCore endpoint.provider packet = .ok core
  ed25519Signed : o.may (endpoint.custody.ed25519Sign signing.ed25519
    (dInitiatorSign ++ core.toList)) (.ok ed25519Signature)
  mlDsa65Signed : o.may (endpoint.custody.mlDsa65Sign signing.mlDsa65
    (dInitiatorSign ++ core.toList)) (.ok mlDsa65Signature)
  prekeyDigested : prekeyTranscriptDigest endpoint.provider packet = .ok prekeyDigest
  derived : HybridSecrets.derive endpoint.provider x kem prekeyDigest core = .ok hybrid
  confirms : hybrid.clientConfirmation endpoint.provider core = .ok confirmation
  confirmation_length : confirmation.length = 52
  confirmCiphertext_eq : FixedBytes.ofBytes? 36 (confirmation.take 36) = some confirmCiphertext
  confirmTag_eq : FixedBytes.ofBytes? 16 (confirmation.drop 36) = some confirmTag
  digested : firstPacketDigest endpoint.provider packet = .ok transcript
  inContext : sessionContext endpoint.provider endpoint.line transcript packet = .ok context
  offers : RatchetState.initiator endpoint.provider hybrid context x25519Private.adoptedHandle
    xPublic prekey.x25519Public = .ok ratchet

/-- The phase of an initiator that waits for an accept. -/
structure AwaitedPacket (current : Snapshot) where
  packet : FirstPacket
  transcript : FixedBytes 32
  context : FixedBytes 32
  hybrid : HybridSecrets
  ratchet : RatchetState
  phase : current.state.phase = .initiatorAwaiting packet transcript context hybrid ratchet

section

variable {initiatorIdentity responderIdentity : IdentityPublic}
  {initiatorAuthority responderAuthority : FixedBytes 32} {signing : IdentitySigningHandles}
  {prekey : PrekeyBundle} {now : Nat} {x25519Private : StagedSecretHandle .x25519Private}
  {mlKemEntropy : SecretHandle .mlKemEncapsulationEntropy}

variable {o} in
def FirstPacketCreation.decision (creation : FirstPacketCreation o self initiatorIdentity
    responderIdentity initiatorAuthority responderAuthority signing prekey now x25519Private
    mlKemEntropy) (current : Snapshot) : Decision FirstPacket :=
  .commit
    ⟨⟨.initiatorAwaiting creation.packet creation.transcript creation.context creation.hybrid
        creation.ratchet⟩,
      [.adoptX25519 x25519Private, .deleteMlKemEncapsulationEntropy mlKemEntropy],
      .ok current.pending, creation.packet⟩
    none

variable {o} in
theorem FirstPacketCreation.localPrivate (creation : FirstPacketCreation o self initiatorIdentity
    responderIdentity initiatorAuthority responderAuthority signing prekey now x25519Private
    mlKemEntropy) : creation.ratchet.localPrivate = x25519Private.adoptedHandle := by
  obtain ⟨_, _, _, hmade⟩ := RatchetState.initiator_eq_ok.mp creation.offers
  rw [hmade]

theorem mayOk_decideNewFirstPacket {d : Decision FirstPacket} :
    o.mayOk (self.decideNewFirstPacket initiatorIdentity responderIdentity initiatorAuthority
      responderAuthority signing prekey now x25519Private mlKemEntropy current) d ↔
    ∃ creation : FirstPacketCreation o self initiatorIdentity responderIdentity initiatorAuthority
      responderAuthority signing prekey now x25519Private mlKemEntropy,
      d = creation.decision current := by
  rw [decideNewFirstPacket]
  simp only [Outcomes.mayOk_bind, Outcomes.mayOk_lift, reject_eq_ok, exists_const,
    Outcomes.mayOk_pure, Outcomes.mayOk_attempt, mayOk_verifyLocalSigning, okOr_eq_ok, Prod.exists,
    not_or, not_not, not_lt, not_le, ge_iff_le]
  constructor
  · rintro ⟨⟨hfrom, huntil, hline, hprofile⟩, ⟨hed, hml⟩, _, hbundle, ciphertext, kem, hkem,
      xPublic, hxPublic, x, hx, core, hcore, edSignature, hedSign, mlSignature, hmlSign,
      prekeyDigest, hprekeyDigest, hybrid, hhybrid, confirmation, hconfirmation, hlength,
      confirmCiphertext, hcut, confirmTag, htag, transcript, htranscript, context, hcontext,
      ratchet, hratchet, rfl⟩
    let creation : FirstPacketCreation o self initiatorIdentity responderIdentity
        initiatorAuthority responderAuthority signing prekey now x25519Private mlKemEntropy :=
      { ciphertext, kem, xPublic, x, core, ed25519Signature := edSignature
        mlDsa65Signature := mlSignature, prekeyDigest, hybrid, confirmation, confirmCiphertext
        confirmTag, transcript, context, ratchet, packet := _, notBefore := hfrom
        notAfter := huntil, line := hline, profile := hprofile, ed25519Key := hed, mlDsa65Key := hml
        verified := hbundle, packet_eq := rfl, encapsulated := hkem, x25519Read := hxPublic
        agreed := hx, handshake := hcore, ed25519Signed := hedSign, mlDsa65Signed := hmlSign
        prekeyDigested := hprekeyDigest, derived := hhybrid, confirms := hconfirmation
        confirmation_length := hlength, confirmCiphertext_eq := hcut, confirmTag_eq := htag
        digested := htranscript, inContext := hcontext, offers := hratchet }
    exact ⟨creation, rfl⟩
  · rintro ⟨⟨ciphertext, kem, xPublic, x, core, edSignature, mlSignature, prekeyDigest, hybrid,
      confirmation, confirmCiphertext, confirmTag, transcript, context, ratchet, _, hfrom, huntil,
      hline, hprofile, hed, hml, hbundle, rfl, hkem, hxPublic, hx, hcore, hedSign, hmlSign,
      hprekeyDigest, hhybrid, hconfirmation, hlength, hcut, htag, htranscript, hcontext, hratchet⟩,
      rfl⟩
    exact ⟨⟨hfrom, huntil, hline, hprofile⟩, ⟨hed, hml⟩, (), hbundle, ciphertext, kem, hkem,
      xPublic, hxPublic, x, hx, core, hcore, edSignature, hedSign, mlSignature, hmlSign,
      prekeyDigest, hprekeyDigest, hybrid, hhybrid, confirmation, hconfirmation, hlength,
      confirmCiphertext, hcut, confirmTag, htag, transcript, htranscript, context, hcontext,
      ratchet, hratchet, rfl⟩

end

theorem mayOk_decideCreateFirstPacket {initiatorIdentity : IdentityPublic}
    {responderIdentity : TrustedIdentity} {initiatorAuthority responderAuthority : FixedBytes 32}
    {signing : IdentitySigningHandles} {prekey : PrekeyBundle} {clock : Clock m}
    {x25519Private : StagedSecretHandle .x25519Private}
    {mlKemEntropy : SecretHandle .mlKemEncapsulationEntropy} {d : Decision FirstPacket} :
    o.mayOk (self.decideCreateFirstPacket initiatorIdentity responderIdentity initiatorAuthority
      responderAuthority signing prekey clock x25519Private mlKemEntropy current) d ↔
    initiatorIdentity.mlDsa65Public.length = mlDsa65PublicKeyBytes ∧
    validatePrekeyShape prekey = .ok () ∧
    responderIdentity.protectionProfileId = self.line.protectionProfileId ∧
    ∃ now, o.may clock.nowUnixSeconds (.ok now) ∧
    ((∃ awaited : AwaitedPacket current, d = .answer awaited.packet (some x25519Private)) ∨
      current.state.phase = .initiatorNew ∧
        ∃ creation : FirstPacketCreation o self initiatorIdentity responderIdentity.identity
          initiatorAuthority responderAuthority signing prekey now x25519Private mlKemEntropy,
          d = creation.decision current) := by
  simp only [← mayOk_decideNewFirstPacket]
  rw [decideCreateFirstPacket]
  simp only [Outcomes.mayOk_bind, Outcomes.mayOk_lift, ensureLive_eq_ok, reject_eq_ok, exists_const,
    TrustedIdentity.forLine, Except.bind_eq_ok, validateIdentityShape_eq_ok, mayOk_mk,
    Except.pure_eq, Except.ok.injEq, not_not]
  cases hphase : current.state.phase with
  | initiatorAwaiting packet transcript context hybrid ratchet =>
    simp only [Outcomes.mayOk_pure, reduceCtorEq, false_and, or_false]
    constructor
    · rintro ⟨_, hidentity, _, hshape, now, hnow, _, ⟨hprofile, rfl⟩, rfl⟩
      exact ⟨hidentity, hshape, hprofile, now, hnow,
        ⟨packet, transcript, context, hybrid, ratchet, hphase⟩, rfl⟩
    · rintro ⟨hidentity, hshape, hprofile, now, hnow, ⟨_, _, _, _, _, heq⟩, rfl⟩
      cases hphase.symm.trans heq
      exact ⟨(by rintro _ ⟨⟩), hidentity, (), hshape, now, hnow, _, ⟨hprofile, rfl⟩, rfl⟩
  | initiatorNew =>
    simp only [true_and]
    constructor
    · rintro ⟨_, hidentity, _, hshape, now, hnow, _, ⟨hprofile, rfl⟩, hd⟩
      exact ⟨hidentity, hshape, hprofile, now, hnow, .inr hd⟩
    · rintro ⟨hidentity, hshape, hprofile, now, hnow, ⟨awaited, _⟩ | hd⟩
      · cases hphase.symm.trans awaited.phase
      · exact ⟨(by rintro _ ⟨⟩), hidentity, (), hshape, now, hnow, _, ⟨hprofile, rfl⟩, hd⟩
  | _ =>
    refine iff_of_false (by simp only [Outcomes.mayOk_throw, and_false, exists_false,
      not_false_eq_true]) ?_
    rintro ⟨_, _, _, _, _, ⟨awaited, _⟩ | ⟨heq, _⟩⟩
    · cases hphase.symm.trans awaited.phase
    · cases heq

/-! ## Verification -/

structure AcceptVerification (endpoint : Endpoint m) (current : Snapshot) (accept : SessionAccept)
    extends AwaitedPacket current where
  input : Bytes
  sameTranscript : accept.transcriptDigest = transcript
  sameContext : accept.sessionContextDigest = context
  initiatorAuthority :
    accept.initiatorUserAuthorityStateDigest = packet.initiatorUserAuthorityStateDigest
  responderAuthority :
    accept.responderUserAuthorityStateDigest = packet.responderUserAuthorityStateDigest
  unsigned : acceptUnsigned accept = .ok input
  authenticated : hybrid.verifySessionAcceptMac endpoint.provider input accept.mac = .ok ()

def AcceptVerification.decision {accept : SessionAccept}
    (verification : AcceptVerification self current accept) : Decision Unit :=
  .commit ⟨⟨.established verification.ratchet none none none none⟩, [], .ok current.pending, ()⟩
    none

theorem mayOk_decideVerifySessionAccept {accept : SessionAccept} {d : Decision Unit} :
    o.mayOk (self.decideVerifySessionAccept accept current) d ↔
      ∃ verification : AcceptVerification self current accept, d = verification.decision := by
  rw [decideVerifySessionAccept]
  cases hphase : current.state.phase with
  | initiatorAwaiting packet transcript context hybrid ratchet =>
    simp only [Outcomes.mayOk_bind, Outcomes.mayOk_lift, ensureLive_eq_ok, hphase, reject_eq_ok,
      exists_const, Outcomes.mayOk_pure, not_or, not_not]
    constructor
    · rintro ⟨_, ⟨h₁, h₂, h₃, h₄⟩, input, hinput, _, hmac, rfl⟩
      exact ⟨⟨⟨packet, transcript, context, hybrid, ratchet, hphase⟩, input, h₁, h₂, h₃, h₄, hinput,
        hmac⟩, rfl⟩
    · rintro ⟨⟨⟨_, _, _, _, _, heq⟩, input, h₁, h₂, h₃, h₄, hinput, hmac⟩, rfl⟩
      cases hphase.symm.trans heq
      exact ⟨(by rintro _ ⟨⟩), ⟨h₁, h₂, h₃, h₄⟩, input, hinput, (), hmac, rfl⟩
  | _ =>
    refine iff_of_false (by simp only [Outcomes.mayOk_bind, Outcomes.mayOk_throw, and_false,
      exists_false, not_false_eq_true]) ?_
    rintro ⟨verification, _⟩
    cases hphase.symm.trans verification.phase

/-! ## A session -/

structure EstablishedSession (current : Snapshot) (capabilities : Option CapabilityRuntime) where
  session : RatchetState
  replay : Option (FixedBytes 32)
  accept : Option SessionAccept
  highWater : Option Nat
  phase : current.state.phase = .established session replay accept highWater capabilities

structure RecordSending (o : Outcomes m) (endpoint : Endpoint m) (current : Snapshot)
    (plaintext : Bytes) (bootstrap : Option (StagedSecretHandle .x25519Private))
    (capabilities : Option CapabilityRuntime) extends EstablishedSession current capabilities where
  ratchet : RatchetState
  next : RatchetState
  packet : Bytes
  idle : current.pending.any PendingItem.isPacket = false
  readied : o.mayOk (endpoint.sendingRatchet session bootstrap) ratchet
  sent : ratchet.send endpoint.provider plaintext = .ok (next, packet)

structure RecordReceipt (o : Outcomes m) (endpoint : Endpoint m) (current : Snapshot)
    (packet : Bytes) (fresh : Option (StagedSecretHandle .x25519Private))
    (capabilities : Option CapabilityRuntime) extends EstablishedSession current capabilities where
  next : RatchetState
  plaintext : Bytes
  mutations : List KeyMutation
  unused : Option (StagedSecretHandle .x25519Private)
  idle : current.pending.any PendingItem.isPlaintext = false
  received : o.mayOk (session.receive endpoint.provider endpoint.custody packet fresh)
    (next, plaintext)
  rotates : next.localPrivate ≠ session.localPrivate ∧ unused = none ∧
      (∃ staged, fresh = some staged) ∧ mutations = rotation session.localPrivate fresh ∨
    next.localPrivate = session.localPrivate ∧ unused = fresh ∧ mutations = []

structure FlowReduction (provider : Provider) (before : CapabilityRuntime)
    (session : RatchetState) (flow : CompleteCapabilityFlow) (now : Nat) (ratchet : RatchetState)
    (after : CapabilityRuntime) (receipt : CapabilityReceipt) : Prop where
  governance : ∃ adoption,
    Governance.evaluateCandidate before.governance flow.governance now = .ok adoption ∧
      after.governance = adoption.state before.governance
  follows : Identity.validateSuccessor before.identity flow.identity flow.identityPredecessor =
    .ok ()
  identity : after.identity = some flow.identity
  sends : ∃ plaintext, flow.message.encode = .ok plaintext ∧
    session.send provider plaintext = .ok (ratchet, receipt.protectedPacket)
  reliable : before.reliable.retry flow.reliableRouteDigest before.reliable.intentDigest
    (provider.sha256 receipt.protectedPacket) = .ok after.reliable
  group : before.group.applyTransition provider flow.groupAuthor flow.groupOperation =
    .ok after.group
  projections : after.group.projections provider flow.groupMessageId flow.groupAuthor
    flow.groupPayload = .ok receipt.projections
  status : Transport.classifyStatus flow.transportStatus = .ok receipt.transportOutcome

structure FlowApplication (endpoint : Endpoint m) (current : Snapshot)
    (flow : CompleteCapabilityFlow) (capabilities : CapabilityRuntime)
    extends EstablishedSession current (some capabilities) where
  now : Nat
  ratchet : RatchetState
  runtime : CapabilityRuntime
  receipt : CapabilityReceipt
  effect : Bytes
  idle : current.pending.any PendingItem.isPacket = false
  reduced : reduceCapabilities endpoint.provider capabilities session flow now =
    .ok (ratchet, runtime, receipt)
  takesEffect : capabilityEffect receipt.projections flow.groupPayload receipt.transportOutcome =
    .ok effect

section

variable {plaintext packet : Bytes} {bootstrap fresh : Option (StagedSecretHandle .x25519Private)}
  {capabilities : Option CapabilityRuntime}

variable {o} in
def RecordSending.decision (sending : RecordSending o self current plaintext bootstrap
    capabilities) : Decision PendingId :=
  .commit
    ⟨⟨.established sending.next sending.replay sending.accept sending.highWater capabilities⟩,
      rotation sending.session.localPrivate bootstrap,
      .ok (current.pending ++ [⟨pendingId self.provider (label "record-send") sending.packet,
        .packet sending.packet⟩]),
      pendingId self.provider (label "record-send") sending.packet⟩
    none

theorem mayOk_decideSendRecord {d : Decision PendingId}
    (h : o.mayOk (self.decideSendRecord plaintext bootstrap current) d) :
    ∃ capabilities, ∃ sending : RecordSending o self current plaintext bootstrap capabilities,
      d = sending.decision := by
  rw [decideSendRecord] at h
  cases hphase : current.state.phase with
  | established session replay accept highWater capabilities =>
    simp only [Outcomes.mayOk_bind, Outcomes.mayOk_lift, hphase, reject_eq_ok, exists_const,
      Outcomes.mayOk_pure, PendingItem.packet, PendingItem.bounded_eq_ok_iff, Prod.exists,
      Bool.not_eq_true] at h
    obtain ⟨_, _, hidle, ratchet, hratchet, next, packet, hsend, _, ⟨_, rfl⟩, rfl⟩ := h
    exact ⟨capabilities, ⟨⟨session, replay, accept, highWater, hphase⟩, ratchet, next,
      packet, hidle, hratchet, hsend⟩, rfl⟩
  | _ =>
    simp only [Outcomes.mayOk_bind, hphase, Outcomes.mayOk_throw, exists_false, and_false] at h

variable {o} in
def RecordReceipt.decision (receipt : RecordReceipt o self current packet fresh capabilities) :
    Decision PendingId :=
  .commit
    ⟨⟨.established receipt.next receipt.replay receipt.accept receipt.highWater capabilities⟩,
      receipt.mutations,
      (do
        let item ← PendingItem.plaintext
          (pendingId self.provider (label "record-receive") packet) receipt.plaintext
        return current.pending ++ [item]),
      pendingId self.provider (label "record-receive") packet⟩
    receipt.unused

theorem mayOk_decideReceiveRecord {d : Decision PendingId}
    (h : o.mayOk (self.decideReceiveRecord packet fresh current) d) :
    ∃ capabilities, ∃ receipt : RecordReceipt o self current packet fresh capabilities,
      d = receipt.decision := by
  rw [decideReceiveRecord] at h
  cases hphase : current.state.phase with
  | established session replay accept highWater capabilities =>
    simp only [Outcomes.mayOk_bind, Outcomes.mayOk_lift, hphase, reject_eq_ok, exists_const,
      Prod.exists, Bool.not_eq_true] at h
    obtain ⟨_, _, hidle, next, plaintext, hreceive, hd⟩ := h
    split at hd
    · rename_i hrotated
      simp only [Outcomes.mayOk_bind, Outcomes.mayOk_lift, okOr_eq_ok, Outcomes.mayOk_pure] at hd
      obtain ⟨staged, rfl, rfl⟩ := hd
      exact ⟨capabilities, ⟨⟨session, replay, accept, highWater, hphase⟩, next, plaintext, _,
        _, hidle, hreceive, .inl ⟨fun heq => hrotated (congrArg SecretHandle.custodyToken heq), rfl,
          ⟨staged, rfl⟩, rfl⟩⟩, rfl⟩
    · rename_i hkept
      rw [Outcomes.mayOk_pure] at hd
      subst hd
      exact ⟨capabilities, ⟨⟨session, replay, accept, highWater, hphase⟩, next, plaintext, _,
        _, hidle, hreceive, .inr ⟨SecretHandle.ext (not_not.mp hkept), rfl, rfl⟩⟩, rfl⟩
  | _ =>
    simp only [Outcomes.mayOk_bind, hphase, Outcomes.mayOk_throw, exists_false, and_false] at h

end

theorem mayOk_decideBootstrapCapabilities {runtime : CapabilityRuntime} {d : Decision Unit}
    (h : o.mayOk (decideBootstrapCapabilities runtime current) d) :
    ∃ established : EstablishedSession current none,
      d = .commit
        ⟨⟨.established established.session established.replay established.accept
            established.highWater (some runtime)⟩, [], .ok current.pending, ()⟩
        none := by
  rw [decideBootstrapCapabilities] at h
  cases hphase : current.state.phase with
  | established session replay accept highWater capabilities =>
    simp only [Outcomes.mayOk_bind, Outcomes.mayOk_lift, hphase, reject_eq_ok, exists_const,
      Outcomes.mayOk_pure, Bool.not_eq_true, Option.isSome_eq_false_iff,
      Option.isNone_iff_eq_none] at h
    obtain ⟨_, _, rfl, rfl⟩ := h
    exact ⟨⟨session, replay, accept, highWater, hphase⟩, rfl⟩
  | _ =>
    simp only [Outcomes.mayOk_bind, hphase, Outcomes.mayOk_throw, exists_false, and_false] at h

theorem reduceCapabilities_reduction {provider : Provider} {before after : CapabilityRuntime}
    {session ratchet : RatchetState} {flow : CompleteCapabilityFlow} {now : Nat}
    {receipt : CapabilityReceipt}
    (h : reduceCapabilities provider before session flow now = .ok (ratchet, after, receipt)) :
    FlowReduction provider before session flow now ratchet after receipt := by
  simp only [reduceCapabilities, Except.bind_eq_ok, Except.pure_eq, Except.ok.injEq,
    Prod.mk.injEq, Prod.exists] at h
  obtain ⟨adoption, hadoption, _, hfollows, plaintext, hencode, _, packet, hsend, reliable,
    hreliable, group, hgroup, projections, hprojections, _, _, _, _, outcome, hstatus, rfl, rfl,
    rfl⟩ := h
  exact {
    governance := ⟨adoption, hadoption, rfl⟩
    follows := hfollows
    identity := rfl
    sends := ⟨plaintext, hencode, hsend⟩
    reliable := hreliable
    group := hgroup
    projections := hprojections
    status := hstatus }

omit [Monad m] in
theorem FlowApplication.reduction {flow : CompleteCapabilityFlow}
    {capabilities : CapabilityRuntime}
    (application : FlowApplication self current flow capabilities) :
    FlowReduction self.provider capabilities application.session flow application.now
      application.ratchet application.runtime application.receipt :=
  reduceCapabilities_reduction application.reduced

def FlowApplication.decision {flow : CompleteCapabilityFlow} {capabilities : CapabilityRuntime}
    (application : FlowApplication self current flow capabilities) : Decision CapabilityReceipt :=
  .commit
    ⟨⟨.established application.ratchet application.replay application.accept application.highWater
        (some application.runtime)⟩, [],
      .ok (current.pending ++
        [⟨pendingId self.provider (label "capability-send") application.receipt.protectedPacket,
            .packet application.receipt.protectedPacket⟩,
          ⟨pendingId self.provider (label "capability-effect") application.effect,
            .effect application.effect⟩]),
      application.receipt⟩
    none

theorem mayOk_decideApplyCompleteCapabilityFlow {flow : CompleteCapabilityFlow} {clock : Clock m}
    {d : Decision CapabilityReceipt}
    (h : o.mayOk (self.decideApplyCompleteCapabilityFlow flow clock current) d) :
    ∃ capabilities, ∃ application : FlowApplication self current flow capabilities,
      d = application.decision := by
  rw [decideApplyCompleteCapabilityFlow] at h
  cases hphase : current.state.phase with
  | established session replay accept highWater capabilities =>
    cases capabilities with
    | some capabilities =>
      simp only [Outcomes.mayOk_bind, Outcomes.mayOk_lift, hphase, reject_eq_ok, exists_const,
        Outcomes.mayOk_pure, PendingItem.packet, PendingItem.effect, PendingItem.bounded_eq_ok_iff,
        Prod.exists, not_or, Bool.not_eq_true] at h
      obtain ⟨_, _, now, _, ⟨hidle, _⟩, ratchet, runtime, receipt, hreduce, effect, heffect, _,
        ⟨_, rfl⟩, _, ⟨_, rfl⟩, rfl⟩ := h
      exact ⟨capabilities, ⟨⟨session, replay, accept, highWater, hphase⟩, now, ratchet, runtime,
        receipt, effect, hidle, hreduce, heffect⟩, rfl⟩
    | none =>
      simp only [Outcomes.mayOk_bind, hphase, Outcomes.mayOk_throw, exists_false, and_false] at h
  | _ =>
    simp only [Outcomes.mayOk_bind, hphase, Outcomes.mayOk_throw, exists_false, and_false] at h

theorem mayOk_decideDeleteSession {d : Decision Unit}
    (h : o.mayOk (decideDeleteSession current) d) :
    (∀ highWater, current.state.phase ≠ .deleted highWater) ∧
    d = .commit
      ⟨⟨.deleted (deletion current.state.phase).1⟩, (deletion current.state.phase).2, .ok [], ()⟩
      none := by
  simp only [decideDeleteSession, Outcomes.mayOk_bind, Outcomes.mayOk_lift, ensureLive_eq_ok,
    exists_const, Outcomes.mayOk_pure] at h
  exact h

end Endpoint

end

end LicoArc
