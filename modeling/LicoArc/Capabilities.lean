import LicoArc.GovernanceLaws
import LicoArc.GroupLaws
import LicoArc.Honest
import LicoArc.Moves
import LicoArc.TableProvider

/-!
# Capabilities in lockstep

The capabilities of a session move with its ratchet, by complete flows only.
A flow is one commit; what it does to each reducer is read off the reducer.
-/

namespace LicoArc

open Backend

def Phase.session : Phase → Option RatchetState
  | .established session _ _ _ _ => some session
  | _ => none

def Phase.capabilities : Phase → Option CapabilityRuntime
  | .established _ _ _ _ capabilities => capabilities
  | _ => none

namespace CapabilityRuntime

/-- The epoch of the identity, zero before its first record. -/
def identityEpoch (runtime : CapabilityRuntime) : Nat :=
  (runtime.identity.map ChainTip.epoch).getD 0

end CapabilityRuntime

/-- The tip that a flow brings follows the current tip, or starts a chain. -/
def ChainTip.Follows (next : ChainTip) (current : Option ChainTip)
    (predecessor : Option (FixedBytes 32)) : Prop :=
  match current with
  | none => next.epoch = 1 ∧ predecessor = none
  | some tip => next.endpoint = tip.endpoint ∧ next.epoch = tip.epoch + 1 ∧
      predecessor = some tip.digest

theorem Identity.follows_of_validateSuccessor {current : Option ChainTip} {next : ChainTip}
    {predecessor : Option (FixedBytes 32)} {u : Unit}
    (h : Identity.validateSuccessor current next predecessor = .ok u) :
    next.Follows current predecessor := by
  simp only [validateSuccessor, Except.bind_eq_ok, reject_eq_ok] at h
  obtain ⟨_, _, h⟩ := h
  cases current with
  | none =>
    simp only at h
    split at h
    · assumption
    · cases h
  | some tip =>
    simp only at h
    split at h
    · assumption
    · split at h <;> cases h

theorem ReliableState.onRoute_eq_ok {self next : ReliableState} {route : FixedBytes 32}
    (h : self.onRoute route = .ok next) :
    next.intentDigest = self.intentDigest ∧ next.transitions = self.transitions := by
  rw [onRoute] at h
  split at h
  all_goals
    simp only [Except.bind_eq_ok, Except.pure_eq, Except.ok.injEq] at h
    obtain ⟨_, _, rfl⟩ := h
    exact ⟨rfl, rfl⟩

theorem ReliableState.retry_eq_ok {self next : ReliableState}
    {route intent protectedPacket : FixedBytes 32}
    (h : self.retry route intent protectedPacket = .ok next) :
    next.intentDigest = self.intentDigest ∧ next.transitions = self.transitions + 1 ∧
      next.protectedPacketDigest = protectedPacket := by
  simp only [retry, Except.bind_eq_ok, Reliable.increment, reject_eq_ok, Except.pure_eq,
    Except.ok.injEq] at h
  obtain ⟨_, _, _, _, routed, hroute, _, ⟨_, _, rfl⟩, rfl⟩ := h
  obtain ⟨hintent, htransitions⟩ := onRoute_eq_ok hroute
  exact ⟨hintent, congrArg (· + 1) htransitions, rfl⟩

theorem Governance.adopted_of_ok {current : GovernanceState} {candidate : GovernanceCandidate}
    {now : Nat} {adoption : Adoption}
    (h : evaluateCandidate current candidate now = .ok adoption) :
    (adoption.state current = current ∨
      (adoption.state current).bundleEpoch = current.bundleEpoch + 1) ∧
    ∀ role, version current role ≤ version (adoption.state current) role := by
  cases adoption with
  | replay => exact ⟨.inl rfl, fun _ => le_refl _⟩
  | commit next =>
    obtain ⟨_, hepoch, _, hversions⟩ := commit_step h
    exact ⟨.inr hepoch, hversions⟩

/-- What one complete flow does to a session and to its capabilities. -/
structure Lockstep (provider : Provider) (flow : CompleteCapabilityFlow) (session : RatchetState)
    (before : CapabilityRuntime) (ratchet : RatchetState) (after : CapabilityRuntime) : Prop where
  groupEpoch : after.group.epoch = before.group.epoch + 1
  groupLink : ∃ digest, before.group.digest provider = .ok digest ∧
    after.group.previousDigest = some digest
  identity : after.identity = some flow.identity
  follows : flow.identity.Follows before.identity flow.identityPredecessor
  governance : after.governance = before.governance ∨
    after.governance.bundleEpoch = before.governance.bundleEpoch + 1
  versions : ∀ role, Governance.version before.governance role ≤
    Governance.version after.governance role
  transitions : after.reliable.transitions = before.reliable.transitions + 1
  intent : after.reliable.intentDigest = before.reliable.intentDigest
  ratchet : ∃ message packet, flow.message.encode = .ok message ∧
    session.send provider message = .ok (ratchet, packet)

theorem Lockstep.identityEpoch {provider : Provider} {flow : CompleteCapabilityFlow}
    {session ratchet : RatchetState} {before after : CapabilityRuntime}
    (h : Lockstep provider flow session before ratchet after) :
    after.identityEpoch = before.identityEpoch + 1 := by
  have hfollows := h.follows
  rw [CapabilityRuntime.identityEpoch, CapabilityRuntime.identityEpoch, h.identity]
  cases hidentity : before.identity with
  | none =>
    rw [hidentity] at hfollows
    exact hfollows.1
  | some tip =>
    rw [hidentity] at hfollows
    exact hfollows.2.1

theorem Endpoint.FlowReduction.lockstep {provider : Provider} {before after : CapabilityRuntime}
    {session ratchet : RatchetState} {flow : CompleteCapabilityFlow} {now : Nat}
    {receipt : CapabilityReceipt}
    (h : FlowReduction provider before session flow now ratchet after receipt) :
    Lockstep provider flow session before ratchet after := by
  obtain ⟨adoption, hadoption, hstate⟩ := h.governance
  obtain ⟨hgovernance, hversions⟩ := Governance.adopted_of_ok hadoption
  obtain ⟨hintent, htransitions, _⟩ := ReliableState.retry_eq_ok h.reliable
  obtain ⟨digest, _, hdigest, _, _, hepoch, hlink, _⟩ := GroupState.applyTransition_eq_ok h.group
  obtain ⟨message, hmessage, hsend⟩ := h.sends
  exact {
    groupEpoch := hepoch
    groupLink := ⟨digest, hdigest, hlink⟩
    identity := h.identity
    follows := Identity.follows_of_validateSuccessor h.follows
    governance := by rwa [hstate]
    versions := by rwa [hstate]
    transitions := htransitions
    intent := hintent
    ratchet := ⟨message, receipt.protectedPacket, hmessage, hsend⟩ }

/-! ## What a commit does -/

/-- What one exchange of a call does to a durable snapshot with capabilities. -/
inductive SessionMove (provider : Provider) : Call → Snapshot → Snapshot → Prop
  | stays {call : Call} {current : Snapshot} : SessionMove provider call current current
  | flows {line : RuntimeLine} {flow : CompleteCapabilityFlow} {current next : Snapshot}
      {session ratchet : RatchetState} {before after : CapabilityRuntime}
      (revision : next.revision.value = current.revision.value + 1)
      (current_session : current.state.phase.session = some session)
      (current_capabilities : current.state.phase.capabilities = some before)
      (next_session : next.state.phase.session = some ratchet)
      (next_capabilities : next.state.phase.capabilities = some after)
      (lockstep : Lockstep provider flow session before ratchet after) :
      SessionMove provider (.operate line (.applyCompleteCapabilityFlow flow)) current next
  | sends {line : RuntimeLine} {plaintext : Bytes}
      {bootstrap : Option (StagedSecretHandle .x25519Private)} {current next : Snapshot}
      (kept : next.state.phase.capabilities = current.state.phase.capabilities) :
      SessionMove provider (.operate line (.sendRecord plaintext bootstrap)) current next
  | receives {line : RuntimeLine} {packet : Bytes}
      {fresh : Option (StagedSecretHandle .x25519Private)} {current next : Snapshot}
      (kept : next.state.phase.capabilities = current.state.phase.capabilities) :
      SessionMove provider (.operate line (.receiveRecord packet fresh)) current next
  | settles {line : RuntimeLine} {service : Service} {current next : Snapshot}
      (kept : next.state = current.state) :
      SessionMove provider (.serve line service) current next
  | deletes {line : RuntimeLine} {current next : Snapshot} {highWater : Option Nat}
      (deleted : next.state.phase = .deleted highWater) :
      SessionMove provider (.operate line .deleteSession) current next

theorem Phase.eq_established_of_capabilities {phase : Phase} {runtime : CapabilityRuntime}
    (h : phase.capabilities = some runtime) : ∃ session replay accept highWater,
      phase = .established session replay accept highWater (some runtime) := by
  cases phase with
  | established session replay accept highWater capabilities =>
    cases h
    exact ⟨session, replay, accept, highWater, rfl⟩
  | _ => cases h

section

variable {provider : Provider} {w w' : World}

theorem Operation.Committed.move {line : RuntimeLine} {operation : Operation}
    (h : operation.Committed provider line w w') {runtime : CapabilityRuntime}
    (hcapabilities : w.durable.state.phase.capabilities = some runtime) :
    SessionMove provider (.operate line operation) w.durable w'.durable := by
  obtain ⟨session, replay, accept, highWater, hphase⟩ :=
    Phase.eq_established_of_capabilities hcapabilities
  obtain ⟨plan, pending, hplans, _, _, rfl⟩ := h.planned
  obtain ⟨unused, hdecided⟩ := hplans.decided
  cases operation with
  | admitPrekey =>
    obtain ⟨admission, _⟩ := Endpoint.mayOk_decideAdmitPrekey _ hdecided
    cases hphase.symm.trans admission.phase
  | acceptFirstPacket =>
    obtain ⟨_, _, _, _, _, ⟨_, heq⟩ | ⟨acceptance, _⟩⟩ :=
      (Endpoint.mayOk_decideAcceptFirstPacket _).mp hdecided
    · cases heq
    · cases hphase.symm.trans acceptance.phase
  | createFirstPacket =>
    obtain ⟨_, _, _, _, _, ⟨awaited, _⟩ | ⟨hnew, _⟩⟩ :=
      (Endpoint.mayOk_decideCreateFirstPacket _).mp hdecided
    · cases hphase.symm.trans awaited.phase
    · cases hphase.symm.trans hnew
  | verifySessionAccept =>
    obtain ⟨verification, _⟩ := (Endpoint.mayOk_decideVerifySessionAccept _).mp hdecided
    cases hphase.symm.trans verification.phase
  | sendRecord =>
    obtain ⟨_, sending, heq⟩ := Endpoint.mayOk_decideSendRecord _ hdecided
    cases heq
    exact .sends (by rw [sending.phase]; rfl)
  | receiveRecord =>
    obtain ⟨_, receipt, heq⟩ := Endpoint.mayOk_decideReceiveRecord _ hdecided
    cases heq
    exact .receives (by rw [receipt.phase]; rfl)
  | bootstrapCapabilities =>
    obtain ⟨established, _⟩ := Endpoint.mayOk_decideBootstrapCapabilities _ hdecided
    cases hphase.symm.trans established.phase
  | applyCompleteCapabilityFlow =>
    obtain ⟨_, application, heq⟩ := Endpoint.mayOk_decideApplyCompleteCapabilityFlow _ hdecided
    cases heq
    exact .flows rfl (by rw [application.phase]; rfl) (by rw [application.phase]; rfl) rfl rfl
      application.reduction.lockstep
  | deleteSession =>
    obtain ⟨_, heq⟩ := Endpoint.mayOk_decideDeleteSession _ hdecided
    cases heq
    exact .deletes rfl

end

/-! ## Runs -/

structure CapabilityRuntime.Ahead (flows : Nat) (start current : CapabilityRuntime) : Prop where
  group : current.group.epoch = start.group.epoch + flows
  identity : current.identityEpoch = start.identityEpoch + flows
  transitions : current.reliable.transitions = start.reliable.transitions + flows
  intent : current.reliable.intentDigest = start.reliable.intentDigest
  governance : start.governance.bundleEpoch ≤ current.governance.bundleEpoch ∧
    current.governance.bundleEpoch ≤ start.governance.bundleEpoch + flows
  versions : ∀ role, Governance.version start.governance role ≤
    Governance.version current.governance role

theorem CapabilityRuntime.Ahead.refl (start : CapabilityRuntime) : start.Ahead 0 start where
  group := rfl
  identity := rfl
  transitions := rfl
  intent := rfl
  governance := ⟨le_refl _, le_refl _⟩
  versions _ := le_refl _

theorem CapabilityRuntime.Ahead.flow {flows : Nat} {start before after : CapabilityRuntime}
    {provider : Provider} {flow : CompleteCapabilityFlow} {session ratchet : RatchetState}
    (h : start.Ahead flows before)
      (hlockstep : Lockstep provider flow session before ratchet after) :
    start.Ahead (flows + 1) after where
  group := by rw [hlockstep.groupEpoch, h.group, Nat.add_assoc]
  identity := by rw [hlockstep.identityEpoch, h.identity, Nat.add_assoc]
  transitions := by rw [hlockstep.transitions, h.transitions, Nat.add_assoc]
  intent := hlockstep.intent.trans h.intent
  governance := by
    obtain ⟨hlow, hhigh⟩ := h.governance
    rcases hlockstep.governance with heq | heq
    · rw [heq]
      omega
    · rw [heq]
      omega
  versions role := (h.versions role).trans (hlockstep.versions role)

section

variable {ι : Type} [DecidableEq ι] {provider : Provider}
  {guard : (system provider).Config ι → (system provider).Event ι → Prop}
  {c₀ c c' : (system provider).Config ι} {log : List ((system provider).Event ι)}

def Call.isFlow : Call → Bool
  | operate _ (.applyCompleteCapabilityFlow _) => true
  | _ => false

def Kept (start : CapabilityRuntime) (flows : Nat) (phase : Phase) : Prop :=
  (∃ highWater, phase = .deleted highWater) ∨
    ∃ current, phase.capabilities = some current ∧ start.Ahead flows current

theorem exchange_session (hidle : c₀.allIdle) (h : (system provider).Run guard c₀ log c) {i : ι}
    {call : Call} {x : Program.Exchange interface World} {start : CapabilityRuntime} {flows : Nat}
    (hkept : Kept start flows c.world.durable.state.phase)
    (hstep : (system provider).Step c (.exchange i call x) c') :
    SessionMove provider call x.before.durable x.after.durable := by
  obtain ⟨hbefore, _, hsame | ⟨line, operation, rfl, hcommitted⟩ |
    ⟨line, service, revision, id, rfl, hsettled⟩⟩ := exchange_durable hidle h hstep
  · rw [hsame]
    exact .stays
  · rw [← hbefore] at hkept
    rcases hkept with ⟨highWater, hdeleted⟩ | ⟨runtime, hcapabilities, _⟩
    · exact absurd hdeleted (hcommitted.live highWater)
    · exact hcommitted.move hcapabilities
  · exact .settles hsettled.state

theorem SessionMove.kept {call : Call} {current next : Snapshot} {start : CapabilityRuntime}
    {flows : Nat} (h : SessionMove provider call current next)
    (hkept : Kept start flows current.state.phase)
    (hlive : current.state ≠ next.state → ∀ highWater, current.state.phase ≠ .deleted highWater) :
    Kept start (flows + if Call.isFlow call ∧ current.revision ≠ next.revision then 1 else 0)
      next.state.phase := by
  rcases hkept with ⟨highWater, hdeleted⟩ | ⟨runtime, hcapabilities, hahead⟩
  · refine .inl ⟨highWater, ?_⟩
    by_cases hsame : current.state = next.state
    · rw [← hsame, hdeleted]
    · exact absurd hdeleted (hlive hsame highWater)
  · cases h with
    | stays => exact .inr ⟨runtime, hcapabilities, by simpa using hahead⟩
    | flows hrevision _ hbefore _ hafter hlockstep =>
      cases hcapabilities.symm.trans hbefore
      have hne : current.revision ≠ next.revision := fun heq => by simp [heq] at hrevision
      rw [if_pos ⟨rfl, hne⟩]
      exact .inr ⟨_, hafter, hahead.flow hlockstep⟩
    | sends hkept =>
      exact .inr ⟨runtime, hkept.trans hcapabilities, by simpa [Call.isFlow] using hahead⟩
    | receives hkept =>
      exact .inr ⟨runtime, hkept.trans hcapabilities, by simpa [Call.isFlow] using hahead⟩
    | settles hkept =>
      exact .inr ⟨runtime, hkept ▸ hcapabilities, by simpa [Call.isFlow] using hahead⟩
    | deletes hdeleted => exact .inl ⟨_, hdeleted⟩

theorem run_kept (hidle : c₀.allIdle) {runtime : CapabilityRuntime}
    (hstart : c₀.world.durable.state.phase.capabilities = some runtime)
    (h : (system provider).Run guard c₀ log c) :
    Kept runtime (log.countP (commitsOf Call.isFlow)) c.world.durable.state.phase := by
  induction h with
  | start => exact .inr ⟨runtime, hstart, .refl runtime⟩
  | @step log c c' event run step guarded ih =>
    rw [List.countP_cons]
    cases step with
    | start call idle => exact ih
    | exchange busy handled =>
      have hstep := System.Step.exchange busy handled
      simpa [commitsOf] using
        (exchange_session hidle run ih hstep).kept ih (exchange_live hidle run hstep)
    | finish busy => exact ih
    | surroundings moved =>
      have hsame := surroundings_durable moved
      simpa [commitsOf, hsame] using ih

theorem run_moves (hidle : c₀.allIdle) {runtime : CapabilityRuntime}
    (hstart : c₀.world.durable.state.phase.capabilities = some runtime)
    (h : (system provider).Run guard c₀ log c) {i : ι} {call : Call}
    {x : Program.Exchange interface World} (hmem : .exchange i call x ∈ log) :
    SessionMove provider call x.before.durable x.after.durable := by
  induction h with
  | start => cases hmem
  | step run step guarded ih =>
    cases hmem with
    | head => exact exchange_session hidle run (run_kept hidle hstart run) step
    | tail _ hmem => exact ih hmem

/-- Capabilities advance in lockstep, one complete flow in one commit, or not at all. -/
theorem capability_lockstep (hidle : c₀.allIdle) {runtime : CapabilityRuntime}
    (hstart : c₀.world.durable.state.phase.capabilities = some runtime)
    (h : (system provider).Run guard c₀ log c) :
    (∀ i call x, .exchange i call x ∈ log →
      SessionMove provider call x.before.durable x.after.durable) ∧
    (∀ before after, .surroundings before after ∈ log → after.durable = before.durable) ∧
    (∀ i line flow trace error world,
      .finish i (Call.operate line (.applyCompleteCapabilityFlow flow)) trace (Except.error error)
        world ∈ log → error.retryable = false → Still trace) ∧
    Kept runtime (log.countP (commitsOf Call.isFlow)) c.world.durable.state.phase := by
  refine ⟨?_, ?_, ?_, run_kept hidle hstart h⟩
  · intro i call x hmem
    exact run_moves hidle hstart h hmem
  · intro before after hmem
    exact run_surroundings h hmem
  · intro i line flow trace error world hmem hterminal
    refine run_errors hidle h ?_ hmem hterminal
    exact fun _ hadapted => hadapted

end

/-! ## A session that commits one flow -/

namespace OneFlow

def bytes (n : Nat) (byte : UInt8) : FixedBytes n := List.Vector.replicate n byte

def provider : Provider :=
  { tableProvider [] [.expand (bytes 32 7) (dMessageKey ++ bigEndian 4 0),
      .expand (bytes 32 7) (dNonce ++ bigEndian 4 0),
      .expand (bytes 32 7) (dNextChain ++ bigEndian 4 0)] with
    sha256 := GroupState.lengthProvider.sha256 }

def session : RatchetState :=
  ⟨.zero 32, .zero 32, ⟨0⟩, .zero 32, .zero 32, some (bytes 32 7), some (bytes 32 7),
    .initiatorToResponder, 0, 0, 0, ∅⟩

def roles : List Governance.Role :=
  [.membership, .compatibility, .revocation, .distribution, .consistency, .recovery, .abuse]

def candidate : GovernanceCandidate where
  networkRef := .zero 32
  bundleEpoch := 1
  bundleDigest := .zero 32
  roleVersions := roles.foldl (fun versions role => versions.insert role 1) ∅
  expiresAt := 10
  authorizations := roles.flatMap fun role =>
    [⟨bytes 16 0, bytes 16 0, role⟩, ⟨bytes 16 0, bytes 16 1, role⟩,
      ⟨bytes 16 1, bytes 16 2, role⟩, ⟨bytes 16 1, bytes 16 3, role⟩]
  activeRootsOnly := true
  canonicalDigestValid := true
  distributionConsistent := true
  signatureScopeValid := true
  recoveryEvent := .none
  recoveryPredecessor := none
  observations := [⟨bytes 32 0, 1, .zero 32, bytes 32 0⟩, ⟨bytes 32 1, 1, .zero 32, bytes 32 1⟩]
  splitView := false
  endpointAdmissionLocal := true
  abuseAdvisoryOnly := true

def runtime : CapabilityRuntime where
  governance := Governance.genesis (.zero 32)
  identity := none
  reliable := ⟨.zero 32, .zero 32, .zero 32, 0, 0, 0, .pending⟩
  group := GroupState.pairState
  lastMessageId := none
  lastTransportOutcome := none

def flow : CompleteCapabilityFlow where
  governance := candidate
  identity := ⟨.zero 32, 1, .zero 32⟩
  identityPredecessor := none
  message := ⟨.zero 16, .event, none, 0, [], ∅, [], none, none, none, []⟩
  reliableRouteDigest := bytes 32 1
  groupAuthor := .zero 32
  groupOperation := GroupState.removal
  groupMessageId := .zero 16
  groupPayload := []
  confirmation := ⟨.zero 16, [.zero 16], .endpointAccepted, .succeeded, none, none⟩
  confirmationSession := ⟨.zero 16, .zero 32, .zero 32, true, true⟩
  currentFinality := .pending
  expectedResultDigest := none
  attachmentComplete := true
  transportRequest :=
    { scheme := "https", tlsVersion := "1.3", tlsCipherSuite := "TLS_AES_128_GCM_SHA256"
      certificateChainValid := true, httpVersion := "2", renegotiation := false, method := "POST"
      path := "/v1/handles/AAAAAAAAAAAAAAAAAAAAAAAAAAAAAAAAAAAAAAAAAAA/submit"
      queryPresent := false, fragmentPresent := false, earlyData := false, nameValidated := true
      authorityPresent := true, headerNamesLowercase := true, headerBytes := 0
      operationId := some (.zero 16), operationIdCanonical := true
      mediaType := "application/licoarc-protected-packet", mediaTypeParameters := false
      contentLength := some 1, contentLengthCanonical := true, transferEncoding := false
      contentEncodingIdentity := true, trailers := false, streaming := false, body := [0] }
  transportStatus := 200

def world : World where
  snapshots := .single (.initial ⟨.established session none none none (some runtime)⟩)
  keys := Function.update (fun _ => none) 0 (some ⟨.adopted, .x25519 (.zero 32)⟩)
  issued := [(0, .x25519 (.zero 32))]
  unique := by decide
  known token record h := by
    by_cases htoken : token = 0
    · subst htoken
      rw [Function.update_self] at h
      cases h
      exact List.mem_singleton_self _
    · rw [Function.update_of_ne htoken] at h
      cases h

def line : RuntimeLine := ⟨.zero 32, .zero 32⟩

def sent : Except Error (RatchetState × Bytes) := do session.send provider (← flow.message.encode)

def effect : Except Error Bytes := capabilityEffect [] [] .accepted

theorem sent_effect : Except.check sent (fun sent => Except.check effect fun effect =>
    sent.2.length ≤ maxPendingPayloadBytes ∧ effect.length ≤ maxPendingPayloadBytes ∧
      pendingId provider (label "capability-send") sent.2 ≠
        pendingId provider (label "capability-effect") effect) = true := by
  decide +kernel

theorem governed : Governance.evaluateCandidate runtime.governance candidate 0 =
    .ok (.commit ⟨.zero 32, 1, some (.zero 32), candidate.roleVersions⟩) := by
  decide +kernel

theorem projected : GroupState.soleState.projections GroupState.lengthProvider (.zero 16) (.zero 32)
    [] = .ok [] := by
  decide +kernel

theorem confirmed : Reliable.applyEndpointConfirmation flow.currentFinality flow.message.id
    flow.confirmation flow.confirmationSession flow.expectedResultDigest flow.attachmentComplete =
      .ok .accepted := by
  decide +kernel

theorem requested : Transport.validateEndpointRequest flow.transportRequest = .ok () := by
  decide +kernel

theorem reduced {ratchet : RatchetState} {message packet : Bytes}
    (hmessage : flow.message.encode = .ok message)
    (hsend : session.send provider message = .ok (ratchet, packet)) :
    ∃ after, Endpoint.reduceCapabilities provider runtime session flow 0 =
      .ok (ratchet, after, ⟨packet, [], .accepted⟩) := by
  have hidentity : Identity.validateSuccessor none flow.identity none = .ok () := by decide
  have hretry : ∃ reliable, runtime.reliable.retry (bytes 32 1) runtime.reliable.intentDigest
      (provider.sha256 packet) = .ok reliable := by
    refine ⟨⟨.zero 32, bytes 32 1, provider.sha256 packet, 0, 1, 1, .pending⟩, ?_⟩
    rfl
  have hgroup : GroupState.pairState.applyTransition provider (.zero 32) GroupState.removal =
      .ok GroupState.soleState := GroupState.pairState_removal
  have hprojections : GroupState.soleState.projections provider (.zero 16) (.zero 32) [] = .ok [] :=
    projected
  obtain ⟨reliable, hretry⟩ := hretry
  simp only [Endpoint.reduceCapabilities, Except.bind_eq_ok, Prod.exists]
  exact ⟨_, _, governed, (), hidentity, message, hmessage, ratchet, packet, hsend, reliable,
    hretry, _, hgroup, [], hprojections, _, confirmed, (), requested, .accepted, rfl, rfl⟩

theorem decided {ratchet : RatchetState} {after : CapabilityRuntime} {packet effect : Bytes}
    (hreduced : Endpoint.reduceCapabilities provider runtime session flow 0 =
      .ok (ratchet, after, ⟨packet, [], .accepted⟩))
    (heffect : capabilityEffect [] [] .accepted = .ok effect)
    (hpacket : packet.length ≤ maxPendingPayloadBytes)
    (hbytes : effect.length ≤ maxPendingPayloadBytes) :
    (served provider 0 world).mayOk
      (Operation.decide (endpoint line provider) (.applyCompleteCapabilityFlow flow) world.durable)
      (.commit ⟨⟨.established ratchet none none none (some after)⟩, [],
        .ok [⟨pendingId provider (label "capability-send") packet, .packet packet⟩,
          ⟨pendingId provider (label "capability-effect") effect, .effect effect⟩],
        ⟨packet, [], .accepted⟩⟩ none) := by
  have hnow : (served provider 0 world).may clock.nowUnixSeconds (.ok 0) :=
    (Program.outcomes_perform _ _ _).mpr rfl
  have hphase : world.durable.state.phase = .established session none none none (some runtime) :=
    rfl
  have hpending : world.durable.pending = [] := rfl
  simp only [Operation.decide, Endpoint.decideApplyCompleteCapabilityFlow, hphase, hpending,
    Outcomes.mayOk_bind, Outcomes.mayOk_lift, ensureLive_eq_ok, reject_eq_ok, mayOk_mk,
    PendingItem.packet, PendingItem.effect, PendingItem.bounded_eq_ok_iff, Prod.exists,
    Outcomes.mayOk_pure]
  exact ⟨(), (by rintro _ ⟨⟩), 0, hnow, (), by decide, ratchet, after, ⟨packet, [], .accepted⟩,
    hreduced, effect, heffect, _, ⟨hpacket, rfl⟩, _, ⟨hbytes, rfl⟩, rfl⟩

theorem flow_commits : ∃ receipt trace w,
    ((Call.operate line (.applyCompleteCapabilityFlow flow)).program provider).Plays
      (serve provider 0) world trace (.ok receipt) w ∧
    ∃ x ∈ trace, x.before.durable.revision ≠ x.after.durable.revision := by
  obtain ⟨⟨ratchet, packet⟩, hsent, hcheck⟩ := Except.exists_of_check sent_effect
  obtain ⟨effect, heffect, hpacket, hbytes, hids⟩ := Except.exists_of_check hcheck
  obtain ⟨message, hmessage, hsend⟩ := Except.bind_eq_ok.mp hsent
  obtain ⟨after, hreduced⟩ := reduced hmessage hsend
  obtain ⟨reads, hplays, _⟩ := Operation.plays_of_commit
    (decided hreduced heffect hpacket hbytes) rfl
    (Commit.bounded_eq_ok.mpr ⟨Nat.zero_le _, by simp, by simpa using hids, List.nodup_nil, rfl⟩)
    (by decide) nofun
  refine ⟨_, _, _, hplays, _, List.mem_append_right _ (List.mem_singleton_self _), ?_⟩
  exact fun heq => nomatch congrArg Revision.value heq

theorem run_of_plays {call : Call} {trace : List (Program.Exchange interface World)}
    {result : call.Result} {w : World}
    (h : (call.program provider).Plays (serve provider 0) world trace result w) :
    (system provider).Run (fun _ _ => True) (atRest provider Unit world)
      (callEvents () call trace result w) (atRest provider Unit w) := by
  have hrun := run_call (fun _ _ => trivial) .start (atRest_allIdle (ι := Unit) world ()) h
  rwa [List.append_nil] at hrun

theorem capability_lockstep_one_flow : ∃ log c x,
    .exchange () (Call.operate line (.applyCompleteCapabilityFlow flow)) x ∈ log ∧
    x.before.durable.revision ≠ x.after.durable.revision ∧
    SessionMove provider (.operate line (.applyCompleteCapabilityFlow flow)) x.before.durable
      x.after.durable ∧
    (system provider).Run (fun _ _ => True) (atRest provider Unit world) log c ∧
    Kept runtime (log.countP (commitsOf Call.isFlow)) c.world.durable.state.phase := by
  obtain ⟨receipt, trace, w, hplays, x, hx, hne⟩ := flow_commits
  have hrun := run_of_plays hplays
  have hmem := @exchange_mem_callEvents _ provider ()
    (.operate line (.applyCompleteCapabilityFlow flow)) trace (.ok receipt) w x hx
  obtain ⟨hmoves, _, _, hkept⟩ := capability_lockstep (atRest_allIdle world) rfl hrun
  exact ⟨_, _, x, hmem, hne, hmoves _ _ _ hmem, hrun, hkept⟩

def received : Bytes :=
  match session.send provider [] with
  | .ok (_, packet) => packet
  | .error _ => []

theorem moves_of_trace {operation : Operation} {moved : Phase → Phase → Bool}
    (h : ((operation.program (endpoint line provider)).trace (serve provider 0) world).any
      fun x => moved x.before.durable.state.phase x.after.durable.state.phase) :
    ∃ log c x, (system provider).Run (fun _ _ => True) (atRest provider Unit world) log c ∧
      .exchange () (Call.operate line operation) x ∈ log ∧
      moved x.before.durable.state.phase x.after.durable.state.phase := by
  obtain ⟨x, hx, hmoved⟩ := List.any_eq_true.mp h
  refine ⟨_, _, x, run_of_plays ⟨rfl, rfl⟩, exchange_mem_callEvents hx, hmoved⟩

/-- Records move the ratchet on their own, and a deletion drops the capabilities. -/
theorem capabilities_moved_by_others :
    world.durable.state.phase.capabilities = some runtime ∧
    (∃ log c x, (system provider).Run (fun _ _ => True) (atRest provider Unit world) log c ∧
      .exchange () (Call.operate line (.sendRecord [] none)) x ∈ log ∧
      x.after.durable.state.phase.session ≠ x.before.durable.state.phase.session) ∧
    (∃ log c x, (system provider).Run (fun _ _ => True) (atRest provider Unit world) log c ∧
      .exchange () (Call.operate line (.receiveRecord received none)) x ∈ log ∧
      x.after.durable.state.phase.session ≠ x.before.durable.state.phase.session) ∧
    ∃ log c x, (system provider).Run (fun _ _ => True) (atRest provider Unit world) log c ∧
      .exchange () (Call.operate line .deleteSession) x ∈ log ∧
      x.after.durable.state.phase.capabilities ≠ x.before.durable.state.phase.capabilities := by
  refine ⟨rfl, ?_, ?_, ?_⟩
  · obtain ⟨log, c, x, hrun, hmem, hmoved⟩ := @moves_of_trace (.sendRecord [] none)
      (fun before after => after.session.map RatchetState.ns ≠ before.session.map RatchetState.ns)
      (by decide +kernel)
    exact ⟨log, c, x, hrun, hmem, fun heq => by simp [heq] at hmoved⟩
  · obtain ⟨log, c, x, hrun, hmem, hmoved⟩ := @moves_of_trace (.receiveRecord received none)
      (fun before after => after.session.map RatchetState.nr ≠ before.session.map RatchetState.nr)
      (by decide +kernel)
    exact ⟨log, c, x, hrun, hmem, fun heq => by simp [heq] at hmoved⟩
  · obtain ⟨log, c, x, hrun, hmem, hmoved⟩ := @moves_of_trace .deleteSession
      (fun before after => after.capabilities.isSome ≠ before.capabilities.isSome)
      (by decide +kernel)
    exact ⟨log, c, x, hrun, hmem, fun heq => by simp [heq] at hmoved⟩

end OneFlow

end LicoArc
