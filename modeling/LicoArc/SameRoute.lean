import LicoArc.Capabilities
import LicoArc.RatchetLaws
import LicoArc.Reopen

/-!
# Complete flows on an unchanged route

A complete flow always seals a packet of its own, and a retry on the same route
takes the stored packet only. What a flow on the stored route comes to is
therefore decided by the digest of the packet that it seals.
-/

namespace LicoArc

open Backend

/-! ## Retries on the same route -/

structure ReliableState.Running (state : ReliableState) : Prop where
  outcome : state.outcome ≠ .effectCompleted ∧ state.outcome ≠ .failed
  retries : state.retries < Reliable.maxRetryTransmissions
  migrations : state.migrations ≤ Reliable.maxRouteMigrations
  transitions : state.transitions < Reliable.maxStateTransitions

def ReliableState.retried (self : ReliableState) : ReliableState :=
  { self with retries := self.retries + 1, transitions := self.transitions + 1 }

theorem ReliableState.Running.counters {self : ReliableState} (h : self.Running) :
    Reliable.validateCounters self.retries self.migrations self.transitions = .ok () := by
  have hretries := h.retries
  have hmigrations := h.migrations
  have htransitions := h.transitions
  apply reject_of_not
  omega

theorem Reliable.increment_of_lt {value maximum : Nat} (h : value < maximum) :
    increment value maximum = .ok (value + 1) := by
  rw [increment, reject_of_not _ (by omega)]
  rfl

theorem ReliableState.retry_same {self : ReliableState} (h : self.Running) :
    self.retry self.routeDigest self.intentDigest self.protectedPacketDigest =
    .ok self.retried := by
  obtain ⟨hcompleted, hfailed⟩ := h.outcome
  rw [retry, h.counters, reject_of_not _ (by simp [hcompleted, hfailed]), onRoute, if_pos rfl,
    Reliable.increment_of_lt h.retries]
  simp only [Except.ok_bind, Except.pure_eq]
  rw [Reliable.increment_of_lt h.transitions]
  rfl

theorem ReliableState.retry_other {self : ReliableState} (h : self.Running)
    {protectedPacket : FixedBytes 32} (hpacket : protectedPacket ≠ self.protectedPacketDigest) :
    self.retry self.routeDigest self.intentDigest protectedPacket =
      .error (.validation .invalidTransition) := by
  rw [retry, h.counters, reject, if_pos (.inr (.inr (.inr ⟨rfl, hpacket⟩)))]
  rfl

/-! ## The reducers of a flow -/

/-- The reducers other than the reliable one accept the inputs of a flow. -/
structure FlowInputs (provider : Provider) (runtime : CapabilityRuntime) (session : RatchetState)
    (flow : CompleteCapabilityFlow) (now : Nat) (ratchet : RatchetState)
    (adoption : Governance.Adoption) (group : GroupState) (receipt : CapabilityReceipt) : Prop where
  governance : Governance.evaluateCandidate runtime.governance flow.governance now = .ok adoption
  identity : Identity.validateSuccessor runtime.identity flow.identity flow.identityPredecessor =
    .ok ()
  packet : ∃ message, flow.message.encode = .ok message ∧
    session.send provider message = .ok (ratchet, receipt.protectedPacket)
  transition : runtime.group.applyTransition provider flow.groupAuthor flow.groupOperation =
    .ok group
  projections : group.projections provider flow.groupMessageId flow.groupAuthor
    flow.groupPayload = .ok receipt.projections
  confirmation : ∃ finality, Reliable.applyEndpointConfirmation flow.currentFinality flow.message.id
    flow.confirmation flow.confirmationSession flow.expectedResultDigest flow.attachmentComplete =
      .ok finality
  request : Transport.validateEndpointRequest flow.transportRequest = .ok ()
  status : Transport.classifyStatus flow.transportStatus = .ok receipt.transportOutcome

def FlowInputs.next (runtime : CapabilityRuntime) (flow : CompleteCapabilityFlow)
    (adoption : Governance.Adoption) (group : GroupState) (receipt : CapabilityReceipt)
    (reliable : ReliableState) : CapabilityRuntime :=
  ⟨adoption.state runtime.governance, some flow.identity, reliable, group, some flow.message.id,
    some receipt.transportOutcome⟩

section

variable {provider : Provider} {runtime : CapabilityRuntime} {session ratchet : RatchetState}
  {flow : CompleteCapabilityFlow} {now : Nat} {adoption : Governance.Adoption} {group : GroupState}
  {receipt : CapabilityReceipt}

theorem FlowInputs.reduced
    (h : FlowInputs provider runtime session flow now ratchet adoption group receipt)
    {reliable : ReliableState} (hretry : runtime.reliable.retry flow.reliableRouteDigest
      runtime.reliable.intentDigest (provider.sha256 receipt.protectedPacket) = .ok reliable) :
    Endpoint.reduceCapabilities provider runtime session flow now =
      .ok (ratchet, next runtime flow adoption group receipt reliable, receipt) := by
  obtain ⟨message, hmessage, hsend⟩ := h.packet
  obtain ⟨finality, hfinality⟩ := h.confirmation
  simp only [Endpoint.reduceCapabilities, Except.bind_eq_ok, Prod.exists]
  exact ⟨adoption, h.governance, (), h.identity, message, hmessage, ratchet,
    receipt.protectedPacket, hsend, reliable, hretry, group, h.transition, receipt.projections,
    h.projections, finality, hfinality, (), h.request, receipt.transportOutcome, h.status, rfl⟩

theorem FlowInputs.refused
    (h : FlowInputs provider runtime session flow now ratchet adoption group receipt)
    {error : Error} (hretry : runtime.reliable.retry flow.reliableRouteDigest
      runtime.reliable.intentDigest (provider.sha256 receipt.protectedPacket) = .error error) :
    Endpoint.reduceCapabilities provider runtime session flow now = .error error := by
  obtain ⟨message, hmessage, hsend⟩ := h.packet
  rw [Endpoint.reduceCapabilities, h.governance, Except.ok_bind, h.identity, Except.ok_bind,
    hmessage, Except.ok_bind, hsend, Except.ok_bind]
  simp only
  rw [hretry]
  rfl

end

/-! ## The size of an effect -/

def Projection.record (projection : Projection) : CborValue :=
  .array [.bytes projection.id.toList, .bytes projection.messageId.toList,
    .bytes projection.groupStateDigest.toList, .bytes projection.recipient.toList]

section

open Encoding

theorem encodedLength_identity {n : Nat} (bytes : FixedBytes n) (hn : n ≤ maxRawBytes) :
    encodedLength 3 (.bytes bytes.toList) = .ok (headLength n + n) := by
  rw [encodedLength_bytes (by decide) (by rwa [List.Vector.toList_length]),
    List.Vector.toList_length]

theorem Projection.encodedLength_record (projection : Projection) :
    encodedLength 2 projection.record = .ok 103 := by
  have hid := encodedLength_identity projection.id (by decide)
  have hmessage := encodedLength_identity projection.messageId (by decide)
  have hdigest := encodedLength_identity projection.groupStateDigest (by decide)
  have hrecipient := encodedLength_identity projection.recipient (by decide)
  have hcount : 4 ≤ maxCollectionItems := by decide
  refine encodedLength_array (by decide) hcount ?_ (by decide)
  exact collectionEncodedLength_cons hid (collectionEncodedLength_cons hmessage
    (collectionEncodedLength_cons hdigest (collectionEncodedLength_cons hrecipient rfl)))

theorem collectionEncodedLength_projections (projections : List Projection) (start : Nat) :
    collectionEncodedLength 1 start (projections.map Projection.record) =
      .ok (start + 103 * projections.length) := by
  induction projections generalizing start with
  | nil => rfl
  | cons projection projections ih =>
    rw [List.map_cons, collectionEncodedLength_cons projection.encodedLength_record (ih _),
      List.length_cons]
    congr 1
    omega

/-- An effect within the bounds of a group message is encoded, and can be a pending item. -/
theorem capabilityEffect_ok {projections : List Projection} {payload : Bytes}
    (hprojections : projections.length ≤ Group.maxGroupProjections)
    (hpayload : payload.length ≤ Group.maxGroupPayloadBytes) (outcome : TransportOutcome) :
    ∃ effect, capabilityEffect projections payload outcome = .ok effect ∧
      effect.length ≤ maxPendingPayloadBytes := by
  simp only [Group.maxGroupProjections] at hprojections
  simp only [Group.maxGroupPayloadBytes] at hpayload
  have hhead := GroupState.headLength_le projections.length
  have hhead' := GroupState.headLength_le payload.length
  have harray : encodedLength 1 (.array (projections.map Projection.record)) =
      .ok (headLength projections.length + 103 * projections.length) := by
    refine encodedLength_array (by decide) ((List.length_map _).trans_le hprojections) ?_ ?_
    · rw [List.length_map]
      exact collectionEncodedLength_projections _ _
    · simp only [maxEncodedBytes]
      omega
  have hbytes := @encodedLength_bytes 1 payload (by decide) (by simpa only [maxRawBytes])
  have houtcome : encodedLength 1 (.unsigned (outcomeValue outcome)) = .ok 1 := by
    cases outcome <;> rfl
  have hlength : encodedLength 0 (.map [(0, .array (projections.map Projection.record)),
      (1, .bytes payload), (2, .unsigned (outcomeValue outcome))]) =
      .ok (1 + 1 + (headLength projections.length + 103 * projections.length) + 1 +
        (headLength payload.length + payload.length) + 1 + 1) := by
    have hcount : 3 ≤ maxCollectionItems := by decide
    refine encodedLength_map (by decide) hcount ?_ ?_
    · exact entriesEncodedLength_cons (by decide) harray
        (entriesEncodedLength_cons (by decide) hbytes
          (entriesEncodedLength_cons (by decide) houtcome rfl))
    · simp only [maxEncodedBytes]
      omega
  refine ⟨_, encode_eq_ok.mpr ⟨⟨_, hlength⟩, rfl⟩, ?_⟩
  have hencoded := (encodeInto_length _ hlength).1
  simp only [maxPendingPayloadBytes]
  exact hencoded.trans_le (by omega)

end

theorem GroupState.projections_bounds {self : GroupState} {provider : Provider}
    {messageId : FixedBytes 16} {sender : FixedBytes 32} {payload : Bytes}
    {projections : List Projection}
    (h : self.projections provider messageId sender payload = .ok projections) :
    projections.length ≤ Group.maxGroupProjections ∧
      payload.length ≤ Group.maxGroupPayloadBytes := by
  simp only [GroupState.projections, Except.bind_eq_ok, reject_eq_ok, Except.pure_eq,
    Except.ok.injEq] at h
  obtain ⟨_, _, _, hpayload, _, _, _, hrecipients, digest, _, rfl⟩ := h
  rw [List.length_map]
  exact ⟨not_lt.mp hrecipients, not_lt.mp hpayload⟩

/-! ## Flows as calls -/

def flowItems (provider : Provider) (receipt : CapabilityReceipt) (effect : Bytes) :
    List PendingItem :=
  [⟨pendingId provider (label "capability-send") receipt.protectedPacket,
      .packet receipt.protectedPacket⟩,
    ⟨pendingId provider (label "capability-effect") effect, .effect effect⟩]

/-- A store that takes one more commit with the items of the flow. -/
structure TakesFlow (provider : Provider) (flow : CompleteCapabilityFlow)
    (receipt : CapabilityReceipt) (current : Snapshot) : Prop where
  revision : current.revision.value < maxSafeInteger
  places : current.pending.length + 2 ≤ 16
  ids : ∀ effect, capabilityEffect receipt.projections flow.groupPayload receipt.transportOutcome =
    .ok effect → ((current.pending ++ flowItems provider receipt effect).map PendingItem.id).Nodup

/-- A session that a flow can be applied to: no packet waits, and its message is not the last
one. -/
structure AwaitsFlow (flow : CompleteCapabilityFlow) (current : Snapshot)
    (runtime : CapabilityRuntime) : Prop where
  settled : current.pending.any PendingItem.isPacket = false
  fresh : runtime.lastMessageId ≠ some flow.message.id

section

variable {provider : Provider} {line : RuntimeLine} {now : Nat} {w : World}
  {runtime : CapabilityRuntime} {session ratchet : RatchetState} {flow : CompleteCapabilityFlow}
  {adoption : Governance.Adoption} {group : GroupState} {receipt : CapabilityReceipt}
  {replay : Option (FixedBytes 32)} {accept : Option SessionAccept} {highWater : Option Nat}

theorem mayOk_now : (served provider now w).may clock.nowUnixSeconds (.ok now) :=
  (Program.outcomes_perform _ _ _).mpr rfl

theorem FlowInputs.decided {o : Outcomes (Program interface)}
    (hnow : o.may clock.nowUnixSeconds (.ok now))
    (h : FlowInputs provider runtime session flow now ratchet adoption group receipt)
    (hphase : w.durable.state.phase = .established session replay accept highWater (some runtime))
    (hawaits : AwaitsFlow flow w.durable runtime) {reliable : ReliableState}
    (hretry : runtime.reliable.retry flow.reliableRouteDigest runtime.reliable.intentDigest
      (provider.sha256 receipt.protectedPacket) = .ok reliable) {effect : Bytes}
    (heffect : capabilityEffect receipt.projections flow.groupPayload receipt.transportOutcome =
      .ok effect) (hlength : effect.length ≤ maxPendingPayloadBytes) :
    o.mayOk (Operation.decide (endpoint line provider)
        (.applyCompleteCapabilityFlow flow) w.durable)
      (.commit ⟨⟨.established ratchet replay accept highWater
          (some (next runtime flow adoption group receipt reliable))⟩, [],
        .ok (w.durable.pending ++ flowItems provider receipt effect), receipt⟩ none) := by
  have hreduced := h.reduced hretry
  obtain ⟨message, _, hsend⟩ := h.packet
  have hbound := RatchetState.send_length hsend
  have hwaiting : ¬(w.durable.pending.any PendingItem.isPacket = true ∨
      runtime.lastMessageId = some flow.message.id) := by
    rw [hawaits.settled]
    simpa using hawaits.fresh
  simp only [Operation.decide, Endpoint.decideApplyCompleteCapabilityFlow, hphase,
    Outcomes.mayOk_bind, Outcomes.mayOk_lift, ensureLive_eq_ok, reject_eq_ok, mayOk_mk,
    PendingItem.packet, PendingItem.effect, PendingItem.bounded_eq_ok_iff, Prod.exists,
    Outcomes.mayOk_pure]
  exact ⟨(), (by rintro _ ⟨⟩), now, hnow, (), hwaiting, ratchet, _, receipt, hreduced, effect,
    heffect, _, ⟨hbound, rfl⟩, _, ⟨hlength, rfl⟩, rfl⟩

theorem FlowInputs.fails
    (h : FlowInputs provider runtime session flow now ratchet adoption group receipt)
    (hphase : w.durable.state.phase = .established session replay accept highWater (some runtime))
    (hawaits : AwaitsFlow flow w.durable runtime) {error : Error}
    (hretry : runtime.reliable.retry flow.reliableRouteDigest runtime.reliable.intentDigest
      (provider.sha256 receipt.protectedPacket) = .error error) :
    (served provider now w).mayFail (Operation.decide (endpoint line provider)
      (.applyCompleteCapabilityFlow flow) w.durable) error := by
  have hrefused := h.refused hretry
  have hwaiting : ¬(w.durable.pending.any PendingItem.isPacket = true ∨
      runtime.lastMessageId = some flow.message.id) := by
    rw [hawaits.settled]
    simpa using hawaits.fresh
  simp only [Operation.decide, Endpoint.decideApplyCompleteCapabilityFlow, hphase,
    Outcomes.mayFail_bind, Outcomes.mayFail_lift, Outcomes.mayOk_lift, ensureLive_eq_ok,
    reject_eq_ok, mayOk_mk]
  exact .inr ⟨(), (by rintro _ ⟨⟩), .inr ⟨now, mayOk_now, .inr ⟨(), hwaiting, .inl hrefused⟩⟩⟩

def FlowInputs.plan (runtime : CapabilityRuntime) (ratchet : RatchetState)
    (flow : CompleteCapabilityFlow) (adoption : Governance.Adoption) (group : GroupState)
    (receipt : CapabilityReceipt) (reliable : ReliableState) (replay : Option (FixedBytes 32))
    (accept : Option SessionAccept) (highWater : Option Nat) (pending : List PendingItem) :
    Plan CapabilityReceipt :=
  ⟨⟨.established ratchet replay accept highWater
    (some (next runtime flow adoption group receipt reliable))⟩, [], .ok pending, receipt⟩

theorem FlowInputs.plays
    (h : FlowInputs provider runtime session flow now ratchet adoption group receipt)
    (hphase : w.durable.state.phase = .established session replay accept highWater (some runtime))
    (hawaits : AwaitsFlow flow w.durable runtime)
    (htakes : TakesFlow provider flow receipt w.durable) {reliable : ReliableState}
    (hretry : runtime.reliable.retry flow.reliableRouteDigest runtime.reliable.intentDigest
      (provider.sha256 receipt.protectedPacket) = .ok reliable) {effect : Bytes}
    (heffect : capabilityEffect receipt.projections flow.groupPayload receipt.transportOutcome =
      .ok effect) :
    let pending := w.durable.pending ++ flowItems provider receipt effect
    let plan := plan runtime ratchet flow adoption group receipt reliable replay accept highWater
      pending
    ∃ reads, (Operation.program (endpoint line provider) (.applyCompleteCapabilityFlow flow)).Plays
        (serve provider now) w (reads ++ [committing w plan pending]) (.ok receipt)
        (w.advance plan.next pending []) ∧
      ∀ x ∈ reads, Request.isSwap x.request = false := by
  obtain ⟨hprojections, hpayload⟩ := GroupState.projections_bounds h.projections
  obtain ⟨effect', heffect', hlength⟩ := capabilityEffect_ok hprojections hpayload
    receipt.transportOutcome
  cases heffect.symm.trans heffect'
  have hplaces : (w.durable.pending ++ flowItems provider receipt effect).length ≤ 16 := by
    rw [List.length_append]
    exact htakes.places
  exact Operation.plays_of_commit (h.decided mayOk_now hphase hawaits hretry heffect hlength) rfl
    (Commit.bounded_eq_ok.mpr ⟨Nat.zero_le _, hplaces, htakes.ids effect heffect, List.nodup_nil,
      rfl⟩) htakes.revision nofun

/-- A flow whose retry is accepted commits all its reducers at once. -/
theorem FlowInputs.commits
    (h : FlowInputs provider runtime session flow now ratchet adoption group receipt)
    (hphase : w.durable.state.phase = .established session replay accept highWater (some runtime))
    (hawaits : AwaitsFlow flow w.durable runtime)
    (htakes : TakesFlow provider flow receipt w.durable) {reliable : ReliableState}
    (hretry : runtime.reliable.retry flow.reliableRouteDigest runtime.reliable.intentDigest
      (provider.sha256 receipt.protectedPacket) = .ok reliable) :
    ∃ w', (Operation.program (endpoint line provider) (.applyCompleteCapabilityFlow flow)).run
        (serve provider now) w = (.ok receipt, w') ∧
      w'.durable.state.phase = .established ratchet replay accept highWater
        (some (next runtime flow adoption group receipt reliable)) := by
  obtain ⟨hprojections, hpayload⟩ := GroupState.projections_bounds h.projections
  obtain ⟨effect, heffect, _⟩ := capabilityEffect_ok hprojections hpayload receipt.transportOutcome
  obtain ⟨_, hplays, _⟩ := @FlowInputs.plays provider line now w _ _ _ _ _ _ _ replay accept
    highWater h hphase hawaits htakes _ hretry _ heffect
  exact ⟨_, hplays.run, rfl⟩

/-- A flow whose retry is refused changes nothing. -/
theorem FlowInputs.stays
    (h : FlowInputs provider runtime session flow now ratchet adoption group receipt)
    (hphase : w.durable.state.phase = .established session replay accept highWater (some runtime))
    (hawaits : AwaitsFlow flow w.durable runtime) {error : Error}
    (hretry : runtime.reliable.retry flow.reliableRouteDigest runtime.reliable.intentDigest
      (provider.sha256 receipt.protectedPacket) = .error error) :
    (Operation.program (endpoint line provider) (.applyCompleteCapabilityFlow flow)).run
      (serve provider now) w = (.error error, w) :=
  Operation.run_of_fails (h.fails hphase hawaits hretry)

/-- On an unchanged route a flow that every other reducer accepts is accepted, with one more retry,
where it seals the stored packet; otherwise the retry refuses it and nothing changes. -/
theorem flow_on_same_route
    (hphase : w.durable.state.phase = .established session replay accept highWater (some runtime))
    (hrunning : runtime.reliable.Running)
    (hroute : flow.reliableRouteDigest = runtime.reliable.routeDigest)
    (hinputs : FlowInputs provider runtime session flow now ratchet adoption group receipt)
    (hawaits : AwaitsFlow flow w.durable runtime)
    (htakes : TakesFlow provider flow receipt w.durable) :
    (provider.sha256 receipt.protectedPacket = runtime.reliable.protectedPacketDigest →
      ∃ w', (Operation.program (endpoint line provider) (.applyCompleteCapabilityFlow flow)).run
          (serve provider now) w = (.ok receipt, w') ∧
        w'.durable.state.phase = .established ratchet replay accept highWater
          (some (FlowInputs.next runtime flow adoption group receipt runtime.reliable.retried))) ∧
    (provider.sha256 receipt.protectedPacket ≠ runtime.reliable.protectedPacketDigest →
      (Operation.program (endpoint line provider) (.applyCompleteCapabilityFlow flow)).run
        (serve provider now) w = (.error (.validation .invalidTransition), w)) := by
  constructor
  · intro hsame
    refine hinputs.commits hphase hawaits htakes ?_
    rw [hroute, hsame]
    exact ReliableState.retry_same hrunning
  · intro hother
    refine hinputs.stays hphase hawaits ?_
    rw [hroute]
    exact ReliableState.retry_other hrunning hother

theorem bootstraps {n : Nat}
    (hphase : w.durable.state.phase = .established session replay accept highWater none)
    (hpending : w.durable.pending = []) (hrevision : w.durable.revision.value = n)
    (hn : n < maxSafeInteger) (runtime : CapabilityRuntime) : ∃ trace w',
      ((Call.operate line (.bootstrapCapabilities runtime)).program provider).Plays
        (serve provider now) w trace (.ok ()) w' ∧
      w'.durable.state.phase = .established session replay accept highWater (some runtime) ∧
      w'.durable.pending = [] ∧ w'.durable.revision.value = n + 1 := by
  have hdecided : (served provider now w).mayOk (Operation.decide (endpoint line provider)
      (.bootstrapCapabilities runtime) w.durable)
      (.commit ⟨⟨.established session replay accept highWater (some runtime)⟩, [],
        .ok w.durable.pending, ()⟩ none) := by
    simp only [Operation.decide, Endpoint.decideBootstrapCapabilities, hphase,
      Outcomes.mayOk_bind, Outcomes.mayOk_lift, ensureLive_eq_ok, reject_eq_ok,
      Outcomes.mayOk_pure]
    exact ⟨(), (by rintro _ ⟨⟩), (), (by rintro ⟨⟩), trivial⟩
  rw [hpending] at hdecided
  obtain ⟨reads, hplays, _⟩ := Operation.plays_of_commit hdecided rfl
    (Commit.bounded_eq_ok.mpr ⟨Nat.zero_le _, Nat.zero_le _, List.nodup_nil, List.nodup_nil, rfl⟩)
    (by rwa [hrevision]) (by rintro _ ⟨⟩)
  exact ⟨_, _, hplays, rfl, rfl, congrArg (· + 1) hrevision⟩

end

/-! ## Two sessions on one route -/

namespace OneRoute

def provider : Provider := { Waiting.provider with sha256 := GroupState.lengthProvider.sha256 }

def created : Except Error FirstPacket × World :=
  (Waiting.create.program (endpoint Waiting.line provider)).run (serve provider 0) Waiting.world

def accept : Phase → SessionAccept
  | .initiatorAwaiting firstPacket transcriptDigest sessionContext _ _ =>
    ⟨transcriptDigest, sessionContext, firstPacket.initiatorUserAuthorityStateDigest, .zero 32,
      firstPacket.responderUserAuthorityStateDigest, 1, .zero 32⟩
  | _ => ⟨.zero 32, .zero 32, .zero 32, .zero 32, .zero 32, 0, .zero 32⟩

def verify : Operation := .verifySessionAccept (accept created.2.durable.state.phase)

def verified : Except Error Unit × World :=
  (verify.program (endpoint Waiting.line provider)).run (serve provider 0) created.2

def session : RatchetState := verified.2.durable.state.phase.session.getD OneFlow.session

def runtime (digest : FixedBytes 32) : CapabilityRuntime :=
  { OneFlow.runtime with
    reliable := { OneFlow.runtime.reliable with protectedPacketDigest := digest } }

def flow : CompleteCapabilityFlow := { OneFlow.flow with reliableRouteDigest := .zero 32 }

def sent : Except Error (RatchetState × Bytes) := do session.send provider (← flow.message.encode)

theorem created_ok : Except.check created.1 (fun _ => True) = true := by
  decide +kernel

theorem verified_ok : verified.1 = .ok () := by
  decide +kernel

theorem verified_phase :
    verified.2.durable.state.phase = .established session none none none none := by
  decide +kernel

theorem verified_rest :
    verified.2.durable.pending = [] ∧ verified.2.durable.revision.value = 2 := by
  decide +kernel

theorem sent_checked : Except.check sent (fun sent => Except.check OneFlow.effect fun effect =>
    provider.sha256 sent.2 = OneFlow.bytes 32 92 ∧
      pendingId provider (label "capability-send") sent.2 ≠
        pendingId provider (label "capability-effect") effect) = true := by
  decide +kernel

theorem bootstrapped (digest : FixedBytes 32) : ∃ w log,
    (system provider).Run (fun _ _ => True) (atRest provider Unit Waiting.world) log
      (atRest provider Unit w) ∧
    w.durable.state.phase = .established session none none none (some (runtime digest)) ∧
    w.durable.pending = [] ∧ w.durable.revision.value = 3 := by
  obtain ⟨packet, hpacket, _⟩ := Except.exists_of_check created_ok
  obtain ⟨hpending, hrevision⟩ := verified_rest
  have hcreated : created = (.ok packet, created.2) := by rw [← hpacket]
  have hverified : verified = (.ok (), verified.2) := by rw [← verified_ok]
  have hcreate : ((Call.operate Waiting.line Waiting.create).program provider).Plays
      (serve provider 0) Waiting.world
      (((Call.operate Waiting.line Waiting.create).program provider).trace (serve provider 0)
        Waiting.world) (.ok packet) created.2 := ⟨hcreated, rfl⟩
  have hverify : ((Call.operate Waiting.line verify).program provider).Plays (serve provider 0)
      created.2 (((Call.operate Waiting.line verify).program provider).trace (serve provider 0)
        created.2) (.ok ()) verified.2 := ⟨hverified, rfl⟩
  have hrun := run_calls () hcreate hverify
  have hphase := verified_phase
  generalize verified.2 = w at hrun hphase hpending hrevision
  obtain ⟨trace, w', hbootstrap, hphase', hpending', hrevision'⟩ := @bootstraps provider
    Waiting.line 0 w session none none none 2 hphase hpending hrevision (by decide) (runtime digest)
  have hbootstrapped := run_call (i := ()) (fun _ _ => trivial) hrun rfl hbootstrap
  exact ⟨w', _, hbootstrapped, hphase', hpending', hrevision'⟩

theorem running (digest : FixedBytes 32) : (runtime digest).reliable.Running where
  outcome := ⟨nofun, nofun⟩
  retries := by
    change 0 < 32
    decide
  migrations := Nat.zero_le _
  transitions := by
    change 0 < 256
    decide

theorem identified : Identity.validateSuccessor none flow.identity flow.identityPredecessor =
    .ok () := by
  decide

theorem accepted (digest : FixedBytes 32) : ∃ ratchet adoption receipt,
    FlowInputs provider (runtime digest) session flow 0 ratchet adoption GroupState.soleState
      receipt ∧
    provider.sha256 receipt.protectedPacket = OneFlow.bytes 32 92 ∧
    ∀ current : Snapshot, current.pending = [] → current.revision.value < maxSafeInteger →
      TakesFlow provider flow receipt current := by
  obtain ⟨⟨ratchet, packet⟩, hsent, hcheck⟩ := Except.exists_of_check sent_checked
  obtain ⟨effect, heffect, hdigest, hids⟩ := Except.exists_of_check hcheck
  obtain ⟨message, hmessage, hsend⟩ := Except.bind_eq_ok.mp hsent
  refine ⟨ratchet, _, ⟨packet, [], .accepted⟩, ⟨OneFlow.governed, identified,
    ⟨message, hmessage, hsend⟩, GroupState.pairState_removal, OneFlow.projected,
    ⟨_, OneFlow.confirmed⟩, OneFlow.requested, rfl⟩, hdigest, ?_⟩
  intro current hpending hrevision
  refine ⟨hrevision, by rw [hpending]; decide, ?_⟩
  intro effect' heffect'
  cases heffect.symm.trans heffect'
  rw [hpending]
  simpa [flowItems] using hids

/-- A flow that seals the stored packet again. -/
theorem flow_on_same_route_stored : ∃ w receipt w',
    w.durable.state.phase =
      .established session none none none (some (runtime (OneFlow.bytes 32 92))) ∧
    (Operation.program (endpoint Waiting.line provider) (.applyCompleteCapabilityFlow flow)).run
      (serve provider 0) w = (.ok receipt, w') := by
  obtain ⟨w, _, _, hphase, hpending, hrevision⟩ := bootstrapped (OneFlow.bytes 32 92)
  obtain ⟨ratchet, adoption, receipt, hinputs, hdigest, htakes⟩ := accepted (OneFlow.bytes 32 92)
  obtain ⟨w', hrun, _⟩ := (@flow_on_same_route provider Waiting.line 0 w _ _ _ _ _ _ _ _ _ _ hphase
    (running (OneFlow.bytes 32 92)) rfl hinputs ⟨by rw [hpending]; rfl, nofun⟩
    (htakes w.durable hpending (by rw [hrevision]; decide))).1 hdigest
  exact ⟨w, receipt, w', hphase, hrun⟩

/-- A flow on the stored route that everything else accepts, in a session reached from a new store,
is refused. -/
theorem same_route_refused : Waiting.world.Genesis ∧
    ∃ w log ratchet adoption group receipt,
      (system provider).Run (fun _ _ => True) (atRest provider Unit Waiting.world) log
        (atRest provider Unit w) ∧
      w.durable.state.phase = .established session none none none (some (runtime (.zero 32))) ∧
      (runtime (.zero 32)).reliable.Running ∧
      flow.reliableRouteDigest = (runtime (.zero 32)).reliable.routeDigest ∧
      FlowInputs provider (runtime (.zero 32)) session flow 0 ratchet adoption group receipt ∧
      AwaitsFlow flow w.durable (runtime (.zero 32)) ∧
      TakesFlow provider flow receipt w.durable ∧
      ¬∃ receipt' w', (Operation.program (endpoint Waiting.line provider)
        (.applyCompleteCapabilityFlow flow)).run (serve provider 0) w = (.ok receipt', w') := by
  obtain ⟨w, log, hrun, hphase, hpending, hrevision⟩ := bootstrapped (.zero 32)
  obtain ⟨ratchet, adoption, receipt, hinputs, hdigest, htakes⟩ := accepted (.zero 32)
  have hawaits : AwaitsFlow flow w.durable (runtime (.zero 32)) := ⟨by rw [hpending]; rfl, nofun⟩
  have hother : provider.sha256 receipt.protectedPacket ≠
      (runtime (.zero 32)).reliable.protectedPacketDigest := by
    rw [hdigest]
    decide
  have hrefused := @FlowInputs.stays provider Waiting.line 0 w _ _ _ _ _ _ _ _ _ _ hinputs hphase
    hawaits _ (ReliableState.retry_other (running (.zero 32)) hother)
  refine ⟨Waiting.world_genesis, w, log, ratchet, adoption, _, receipt, hrun, hphase,
    running (.zero 32), rfl, hinputs, hawaits, htakes w.durable hpending
    (by rw [hrevision]; decide), ?_⟩
  rintro ⟨receipt', w', haccepted⟩
  cases (congrArg Prod.fst hrefused).symm.trans (congrArg Prod.fst haccepted)

end OneRoute

end LicoArc
