import LicoArc.PendingIdentity

/-!
# Identities of flows

A flow collides with a pending item only where it repeats an effect that
reached nobody: every projection names the state of the group after its own
flow, and no two flows of a run share that state.
-/

namespace LicoArc

open Backend LicoArc.Group

section

variable {ι : Type} [DecidableEq ι] {provider : Provider}
  {guard : (system provider).Config ι → (system provider).Event ι → Prop}
  {c₀ c : (system provider).Config ι} {log : List ((system provider).Event ι)}

/-! ## Flows and dispatches that are alone -/

omit [DecidableEq ι] in
theorem hashedIn_callEvents {i : ι} {call : Call} {trace : List (Program.Exchange interface World)}
    {result : call.Result} {w : World} {hashed : Set Bytes} (hlog : hashedIn log ⊆ hashed)
    (htrace : ∀ x ∈ trace, ∀ expected commit, x.request = Request.compareAndSwap expected commit →
      Call.hashes call commit ⊆ hashed) :
    hashedIn (callEvents i call trace result w ++ log) ⊆ hashed := by
  rintro input ⟨j, other, x, expected, commit, hmem, hrequest, hinput⟩
  rcases List.mem_append.mp hmem with hmem | hmem
  · simp only [callEvents, List.mem_cons, List.mem_append, List.mem_reverse, List.mem_map,
      List.not_mem_nil, or_false, reduceCtorEq, false_or] at hmem
    obtain ⟨y, hy, heq⟩ := hmem
    cases heq
    exact htrace _ hy expected commit hrequest hinput
  · exact hlog ⟨j, other, x, expected, commit, hmem, hrequest, hinput⟩

theorem find_flowItem {items : List PendingItem} {receipt : CapabilityReceipt} {effect : Bytes}
    (h : ((items ++ flowItems provider receipt effect).map PendingItem.id).Nodup) :
    let id := pendingId provider (label "capability-send") receipt.protectedPacket
    (items ++ flowItems provider receipt effect).find? (·.id = id) =
        some ⟨id, .packet receipt.protectedPacket⟩ ∧
      (items ++ flowItems provider receipt effect).eraseP (fun item => item.id = id) =
        items ++ [⟨pendingId provider (label "capability-effect") effect, .effect effect⟩] := by
  have hothers : ∀ item ∈ items,
      item.id ≠ pendingId provider (label "capability-send") receipt.protectedPacket := by
    rw [List.map_append] at h
    intro item hitem
    exact (List.nodup_append.mp h).2.2 _ (List.mem_map_of_mem hitem) _ List.mem_cons_self
  have hnone : items.find? (·.id = pendingId provider (label "capability-send")
      receipt.protectedPacket) = none := by
    simpa using hothers
  refine ⟨?_, ?_⟩
  · rw [List.find?_append, hnone, flowItems, List.find?_cons_of_pos (by simp)]
    rfl
  · rw [List.eraseP_append_right _ (by simpa using hothers), flowItems,
      List.eraseP_cons_of_pos (by simp)]

theorem run_flow_dispatch {line : RuntimeLine} {now : Nat} {w : World} (i : ι)
    {runtime : CapabilityRuntime} {session ratchet : RatchetState} {flow : CompleteCapabilityFlow}
    {adoption : Governance.Adoption} {group : GroupState} {receipt : CapabilityReceipt}
    {replay : Option (FixedBytes 32)} {accept : Option SessionAccept} {highWater : Option Nat}
    {reliable : ReliableState} {effect : Bytes} {hashed : Set Bytes}
    (hguard : ∀ c event, guard c event)
    (hrun : (system provider).Run guard c₀ log (atRest provider ι w))
    (h : FlowInputs provider runtime session flow now ratchet adoption group receipt)
    (hphase : w.durable.state.phase = .established session replay accept highWater (some runtime))
    (hawaits : AwaitsFlow flow w.durable runtime)
    (htakes : TakesFlow provider flow receipt w.durable)
    (hrevision : w.durable.revision.value + 1 < maxSafeInteger)
    (hretry : runtime.reliable.retry flow.reliableRouteDigest runtime.reliable.intentDigest
      (provider.sha256 receipt.protectedPacket) = .ok reliable)
    (heffect : capabilityEffect receipt.projections flow.groupPayload receipt.transportOutcome =
      .ok effect)
    (hlog : hashedIn log ⊆ hashed)
    (hhashes : Operation.hashes (.applyCompleteCapabilityFlow flow)
      ⟨⟨.established ratchet replay accept highWater
        (some (FlowInputs.next runtime flow adoption group receipt reliable))⟩, [],
        w.durable.pending ++ flowItems provider receipt effect⟩ ⊆ hashed) :
    ∃ log' w', (system provider).Run guard c₀ log' (atRest provider ι w') ∧
      w'.durable.state.phase = .established ratchet replay accept highWater
        (some (FlowInputs.next runtime flow adoption group receipt reliable)) ∧
      w'.durable.pending = w.durable.pending ++
        [⟨pendingId provider (label "capability-effect") effect, .effect effect⟩] ∧
      w'.durable.revision.value = w.durable.revision.value + 2 ∧ hashedIn log' ⊆ hashed := by
  obtain ⟨reads, hplays, hreads⟩ := @FlowInputs.plays provider line now w _ _ _ _ _ _ _
    replay accept highWater h hphase hawaits htakes _ hretry _ heffect
  have hflow := @run_call _ _ _ _ _ _ _ _ i (.operate line (.applyCompleteCapabilityFlow flow)) _ _
    _ hguard hrun rfl hplays
  obtain ⟨hfind, herase⟩ := find_flowItem (htakes.ids effect heffect)
  obtain ⟨trace, hdispatch⟩ := @Service.plays_dispatch provider line now (w.advance
    ⟨.established ratchet replay accept highWater
      (some (FlowInputs.next runtime flow adoption group receipt reliable))⟩
    (w.durable.pending ++ flowItems provider receipt effect) []) _ _ rfl hfind hrevision
  have hdispatched := @run_call _ _ _ _ _ _ _ _ i (.serve line (.dispatchPending _)) _ _ _ hguard
    hflow rfl hdispatch
  refine ⟨_, _, hdispatched, rfl, herase, rfl, ?_⟩
  refine hashedIn_callEvents (hashedIn_callEvents hlog ?_) ?_
  · intro x hx expected commit hrequest
    rcases List.mem_append.mp hx with hx | hx
    · have hread := hreads x hx
      rw [hrequest] at hread
      cases hread
    · cases List.mem_singleton.mp hx
      cases hrequest
      exact hhashes
  · intro x hx expected commit hrequest input hinput
    cases hinput

/-! ## The identities of a flow -/

def effectValue (projections : List Projection) (payload : Bytes) (outcome : TransportOutcome) :
    CborValue :=
  .map [(0, .array (projections.map Projection.record)), (1, .bytes payload),
    (2, .unsigned (outcomeValue outcome))]

theorem effectValue_wellFormed (projections : List Projection) (payload : Bytes)
    (outcome : TransportOutcome) :
    Encoding.WellFormed (effectValue projections payload outcome) := by
  have hrecords : Encoding.WellFormed (.array (projections.map Projection.record)) := by
    refine Encoding.wellFormedItems_iff.mpr fun value hvalue => ?_
    obtain ⟨projection, _, rfl⟩ := List.mem_map.mp hvalue
    simp [Projection.record, Encoding.WellFormed, Encoding.WellFormedItems]
  simpa [effectValue, Encoding.WellFormed, Encoding.WellFormedEntries] using hrecords

/-- The operation leaves nobody but its author in the roster. -/
def GroupOperation.LeavesAlone (group : GroupState) (author : FixedBytes 32)
    (operation : GroupOperation) : Prop :=
  ∀ endpoint, endpoint ≠ author → operation.update group.roster endpoint = none

/-- The flow reaches nobody, and an effect still pending reached nobody either, with the same
payload and the same outcome of the transport. -/
def CompleteCapabilityFlow.Repeats (flow : CompleteCapabilityFlow) (current : Snapshot) : Prop :=
  ∃ runtime outcome, current.state.phase.capabilities = some runtime ∧
    flow.groupOperation.LeavesAlone runtime.group flow.groupAuthor ∧
    Transport.classifyStatus flow.transportStatus = .ok outcome ∧
    ∃ item ∈ current.pending, ∃ effect, item.kind = .effect effect ∧
      Encoding.decode effect = .ok (effectValue [] flow.groupPayload outcome)

theorem GroupState.leavesAlone_iff {provider : Provider} {self next : GroupState}
    {author sender : FixedBytes 32} {operation : GroupOperation}
    (h : self.applyTransition provider author operation = .ok next) :
    (∀ member ∈ next.members, member.endpoint = sender) ↔ operation.LeavesAlone self sender := by
  obtain ⟨_, _, hdigest, _⟩ := applyTransition_eq_ok h
  obtain ⟨hvalid, _⟩ := digest_eq_ok.mp hdigest
  obtain ⟨_, _, _, _, _, _, _, hholds⟩ := transition_updates hvalid h
  constructor
  · intro hmembers endpoint hendpoint
    refine hholds.absent_iff.mpr fun member hmember heq => hendpoint ?_
    rw [← heq, hmembers member hmember]
  · intro halone member hmember
    by_contra hother
    exact absurd rfl (hholds.absent_iff.mp (halone _ hother) member hmember)

theorem capabilityEffect_inj {projections projections' : List Projection} {payload payload' : Bytes}
    {outcome outcome' : TransportOutcome} {effect : Bytes}
    (h : capabilityEffect projections payload outcome = .ok effect)
    (h' : capabilityEffect projections' payload' outcome' = .ok effect) :
    projections.map Projection.record = projections'.map Projection.record ∧ payload = payload' ∧
      outcome = outcome' := by
  have hvalues : effectValue projections payload outcome =
      effectValue projections' payload' outcome' :=
    Encoding.encode_injective (effectValue_wellFormed _ _ _) (effectValue_wellFormed _ _ _) h h'
  simp only [effectValue, CborValue.map.injEq, List.cons.injEq, Prod.mk.injEq,
    CborValue.array.injEq, CborValue.bytes.injEq, CborValue.unsigned.injEq, true_and,
    and_true] at hvalues
  obtain ⟨hrecords, hpayload, houtcome⟩ := hvalues
  refine ⟨hrecords, hpayload, ?_⟩
  cases outcome <;> cases outcome' <;> first | rfl | cases houtcome

namespace PendingItem.Named

variable {hashed : Set Bytes} {capabilities : Option CapabilityRuntime} {item : PendingItem}
  {bytes : Bytes}

theorem id_ne_packet (h : item.Named provider hashed capabilities)
    (hfree : Set.InjOn (identityDigest provider) hashed) (hkind : item.isPacket = false)
    (hinput : pendingInput (label "capability-send") bytes ∈ hashed) :
    pendingId provider (label "capability-send") bytes ≠ item.id := by
  cases h with
  | sent => cases hkind
  | flowPacket => cases hkind
  | received input => exact pendingId_ne hfree hinput input 10 (by decide) (by decide)
  | flowEffect input => exact pendingId_ne hfree hinput input 12 (by decide) (by decide)

theorem id_eq_effect (h : item.Named provider hashed capabilities)
    (hfree : Set.InjOn (identityDigest provider) hashed)
    (hinput : pendingInput (label "capability-effect") bytes ∈ hashed)
    (hid : pendingId provider (label "capability-effect") bytes = item.id) :
    item.kind = .effect bytes ∧ ∃ projections payload outcome runtime,
      capabilityEffect projections payload outcome = .ok bytes ∧ capabilities = some runtime ∧
      ∀ projection ∈ projections, projection.Earlier provider hashed runtime.group.epoch := by
  cases h with
  | sent input => exact absurd hid (pendingId_ne hfree hinput input 10 (by decide) (by decide))
  | received input => exact absurd hid (pendingId_ne hfree hinput input 10 (by decide) (by decide))
  | flowPacket input =>
    exact absurd hid (pendingId_ne hfree hinput input 12 (by decide) (by decide))
  | flowEffect input encoded present earlier =>
    cases bytes_eq_of_pendingId hfree hinput input hid
    exact ⟨rfl, _, _, _, _, encoded, present, earlier⟩

theorem id_of_effect (h : item.Named provider hashed capabilities)
    (hkind : item.kind = .effect bytes) :
    item.id = pendingId provider (label "capability-effect") bytes := by
  cases h with
  | flowEffect =>
    cases hkind
    rfl
  | _ => cases hkind

end PendingItem.Named

section

variable {hashed : Set Bytes} {current : Snapshot} {flow : CompleteCapabilityFlow}
  {session ratchet : RatchetState} {before after : CapabilityRuntime} {now : Nat}
  {receipt : CapabilityReceipt} {effect : Bytes}

theorem projections_eq_nil_iff
    (hreduce : Endpoint.FlowReduction provider before session flow now ratchet after receipt) :
    receipt.projections = [] ↔ flow.groupOperation.LeavesAlone before.group flow.groupAuthor := by
  obtain ⟨_, _, _, hempty⟩ := GroupState.projections_spec hreduce.projections
  rw [hempty, GroupState.leavesAlone_iff hreduce.group]

/-- An item that has the identity of the effect of a flow is an effect that the flow repeats: a
projection of the flow names a state of the group that no earlier projection names. -/
theorem repeats_of_id_eq (hfree : Set.InjOn (identityDigest provider) hashed)
    (hcapabilities : current.state.phase.capabilities = some before)
    (hreduce : Endpoint.FlowReduction provider before session flow now ratchet after receipt)
    (heffect : capabilityEffect receipt.projections flow.groupPayload receipt.transportOutcome =
      .ok effect)
    (hinput : pendingInput (label "capability-effect") effect ∈ hashed)
    (hgroup : ∀ input ∈ GroupState.digestInput after.group, input ∈ hashed) {item : PendingItem}
    (hitem : item ∈ current.pending) (hnamed : item.Named provider hashed (some before))
    (hid : pendingId provider (label "capability-effect") effect = item.id) :
    flow.Repeats current := by
  obtain ⟨hkind, projections, payload, outcome, runtime, hencoded, hpresent, hearlier⟩ :=
    hnamed.id_eq_effect hfree hinput hid
  cases hpresent
  obtain ⟨hrecords, rfl, rfl⟩ := capabilityEffect_inj hencoded heffect
  obtain ⟨digest, hdigest, hnames, _⟩ := GroupState.projections_spec hreduce.projections
  cases hreceipt : receipt.projections with
  | nil =>
    rw [hreceipt] at heffect
    exact ⟨before, _, hcapabilities, (projections_eq_nil_iff hreduce).mp hreceipt, hreduce.status,
      item, hitem, effect, hkind, Encoding.decode_encode (effectValue_wellFormed _ _ _) heffect⟩
  | cons projection rest =>
    rw [hreceipt, List.map_cons] at hrecords
    obtain ⟨earlier, others, rfl, hrecord, _⟩ := List.map_eq_cons_iff.mp hrecords
    simp only [Projection.record, CborValue.array.injEq, List.cons.injEq, CborValue.bytes.injEq,
      and_true] at hrecord
    obtain ⟨_, _, hsame, _⟩ := hrecord
    obtain ⟨group, hepoch, hgroupDigest, hinputs⟩ := hearlier earlier List.mem_cons_self
    rw [FixedBytes.toList_injective hsame,
      hnames projection (hreceipt ▸ List.mem_cons_self)] at hgroupDigest
    cases GroupState.eq_of_digest_eq (sha256_injOn hfree) hinputs hgroup hgroupDigest hdigest
    obtain ⟨_, _, _, _, _, hnext, _⟩ := GroupState.applyTransition_eq_ok hreduce.group
    omega

theorem id_eq_of_repeats (hcapabilities : current.state.phase.capabilities = some before)
    (hreduce : Endpoint.FlowReduction provider before session flow now ratchet after receipt)
    (heffect : capabilityEffect receipt.projections flow.groupPayload receipt.transportOutcome =
      .ok effect)
    (hnamed : ∀ item ∈ current.pending, item.Named provider hashed (some before))
    (h : flow.Repeats current) : ∃ item ∈ current.pending,
      item.id = pendingId provider (label "capability-effect") effect := by
  obtain ⟨runtime, outcome, hruntime, halone, hstatus, item, hitem, bytes, hkind, hdecode⟩ := h
  cases hcapabilities.symm.trans hruntime
  cases hreduce.status.symm.trans hstatus
  rw [(projections_eq_nil_iff hreduce).mpr halone] at heffect
  have hencoded : capabilityEffect [] flow.groupPayload receipt.transportOutcome = .ok bytes :=
    Encoding.encode_decode hdecode
  cases hencoded.symm.trans heffect
  exact ⟨item, hitem, (hnamed item hitem).id_of_effect hkind⟩

end

/-- A planned flow with room for its items collides with a pending item, and is refused, where it
repeats an effect. -/
theorem Identified.flow {hashed : Set Bytes} {current : Snapshot} {w : World} {line : RuntimeLine}
    {flow : CompleteCapabilityFlow} {plan : Plan CapabilityReceipt} {pending : List PendingItem}
    (h : Identified provider hashed current)
    (hplans : Operation.Plans provider line (.applyCompleteCapabilityFlow flow) current w plan
      pending)
    (hroom : current.pending.length < 15)
    (hfree : Set.InjOn (identityDigest provider) (hashed ∪
      Operation.hashes (.applyCompleteCapabilityFlow flow) ⟨plan.next, plan.mutations, pending⟩)) :
    ∃ added, pending = current.pending ++ added ∧
      ((∀ item ∈ current.pending, ∀ new ∈ added, new.id ≠ item.id) ↔ ¬flow.Repeats current) ∧
      ((∃ commit, Commit.bounded plan.next plan.mutations pending maxEndpointKeyMutations 16 =
        .ok commit) ↔ ¬flow.Repeats current) := by
  obtain ⟨⟨unused, hdecided⟩, hitems⟩ := hplans
  obtain ⟨before, application, heq⟩ :=
    Endpoint.mayOk_decideApplyCompleteCapabilityFlow _ hdecided
  cases heq
  cases hitems
  have hcapabilities : current.state.phase.capabilities = some before := by
    rw [application.phase]
    rfl
  generalize hall : hashed ∪ Operation.hashes _ _ = all at hfree
  have hnew : ∀ input ∈ Operation.hashes _ _, input ∈ all := fun input hinput =>
    hall ▸ Set.mem_union_right hashed hinput
  have hnamed : ∀ item ∈ current.pending, item.Named provider all (some before) := by
    intro item hitem
    have hitem := h.named item hitem
    rw [hcapabilities] at hitem
    exact hitem.later (hall ▸ Set.subset_union_left) fun runtime hruntime =>
      ⟨runtime, hruntime, le_refl _⟩
  have hsent : pendingInput (label "capability-send") application.receipt.protectedPacket ∈ all :=
    hnew _ (.inl ⟨_, _, List.mem_append_right _ List.mem_cons_self, rfl⟩)
  have hmade : pendingInput (label "capability-effect") application.effect ∈ all :=
    hnew _ (.inr (.inl ⟨_, _, List.mem_append_right _ (List.mem_cons_of_mem _
      List.mem_cons_self), rfl⟩))
  have hgroup : ∀ input ∈ GroupState.digestInput application.runtime.group, input ∈ all :=
    fun input hinput =>
    hnew _ (.inr (.inr ⟨application.runtime, rfl, hinput⟩))
  have hpacket : ∀ item ∈ current.pending,
      pendingId provider (label "capability-send") application.receipt.protectedPacket ≠
      item.id := by
    intro item hitem
    refine (hnamed item hitem).id_ne_packet hfree ?_ hsent
    simpa using List.any_eq_false.mp application.idle item hitem
  have heffects : (∀ item ∈ current.pending,
      pendingId provider (label "capability-effect") application.effect ≠ item.id) ↔
      ¬flow.Repeats current := by
    constructor
    · intro hdistinct hrepeats
      obtain ⟨item, hitem, hid⟩ := id_eq_of_repeats hcapabilities application.reduction
        application.takesEffect hnamed hrepeats
      exact hdistinct item hitem hid.symm
    · intro hrepeats item hitem hid
      exact hrepeats (repeats_of_id_eq hfree hcapabilities application.reduction
        application.takesEffect hmade hgroup hitem (hnamed item hitem) hid)
  have hapart : pendingId provider (label "capability-send") application.receipt.protectedPacket ≠
      pendingId provider (label "capability-effect") application.effect :=
    pendingId_ne hfree hsent hmade 12 (by decide) (by decide)
  refine ⟨_, rfl, ?_, ?_⟩
  · rw [← heffects]
    constructor
    · intro hdistinct item hitem
      exact hdistinct item hitem _ (List.mem_cons_of_mem _ List.mem_cons_self)
    · intro hdistinct item hitem new hadded
      rcases List.mem_cons.mp hadded with rfl | hadded
      · exact hpacket item hitem
      · cases List.mem_singleton.mp hadded
        exact hdistinct item hitem
  · rw [← heffects]
    constructor
    · rintro ⟨commit, hcommit⟩ item hitem hid
      obtain ⟨_, _, hdistinct, _⟩ := Commit.bounded_eq_ok.mp hcommit
      rw [List.map_append] at hdistinct
      refine (List.nodup_append.mp hdistinct).2.2 _ (List.mem_map_of_mem hitem) _ ?_ hid.symm
      exact List.mem_cons_of_mem _ List.mem_cons_self
    · intro hdistinct
      refine ⟨_, Commit.bounded_eq_ok.mpr ⟨Nat.zero_le _, ?_, ?_, List.nodup_nil, rfl⟩⟩
      · rw [List.length_append]
        change current.pending.length + 2 ≤ 16
        omega
      · rw [List.map_append]
        refine List.nodup_append.mpr ⟨h.distinct, List.nodup_cons.mpr
          ⟨fun hmem => hapart (List.mem_singleton.mp hmem), List.nodup_singleton _⟩, ?_⟩
        intro id hid id' hid'
        obtain ⟨item, hitem, rfl⟩ := List.mem_map.mp hid
        rcases List.mem_cons.mp hid' with rfl | hid'
        · exact (hpacket item hitem).symm
        · cases List.mem_singleton.mp hid'
          exact (hdistinct item hitem).symm

/-- In a run without collisions a flow that is planned with room for its items collides with no
pending item, and is committed, unless it repeats a pending effect that reached nobody. -/
theorem flow_identities_distinct {line : RuntimeLine} {flow : CompleteCapabilityFlow}
    {plan : Plan CapabilityReceipt} {pending : List PendingItem}
    (hidle : c₀.allIdle) (hempty : c₀.world.durable.pending = [])
    (hrun : (system provider).Run guard c₀ log c)
    (hplans : Operation.Plans provider line (.applyCompleteCapabilityFlow flow) c.world.durable
      c.world plan pending)
    (hroom : c.world.durable.pending.length < 15)
    (hfree : Set.InjOn (identityDigest provider) (hashedIn log ∪
      Operation.hashes (.applyCompleteCapabilityFlow flow) ⟨plan.next, plan.mutations, pending⟩)) :
    ∃ added, pending = c.world.durable.pending ++ added ∧
      ((∀ item ∈ c.world.durable.pending, ∀ new ∈ added, new.id ≠ item.id) ↔
        ¬flow.Repeats c.world.durable) ∧
      ((∃ commit, Commit.bounded plan.next plan.mutations pending maxEndpointKeyMutations 16 =
        .ok commit) ↔ ¬flow.Repeats c.world.durable) :=
  (run_identified hidle hempty hrun).flow hplans hroom hfree

end

/-! ## A run that repeats an effect -/

namespace Repeated
open OneFlow (bytes)

def chain : Nat → FixedBytes 32
  | 0 => bytes 32 7
  | n + 1 => bytes 32 (UInt8.ofNat (3 * n + 2))

def provider : Provider :=
  { tableProvider [] ([0, 1, 2].flatMap fun n => [.expand (chain n) (dMessageKey ++ bigEndian 4 n),
      .expand (chain n) (dNonce ++ bigEndian 4 n),
      .expand (chain n) (dNextChain ++ bigEndian 4 n)]) with
    sha256 := GroupState.lengthProvider.sha256 }

def session (n : Nat) : RatchetState := { OneFlow.session with sending := some (chain n), ns := n }

def message (n : Nat) : Message :=
  { OneFlow.flow.message with id := bytes 16 (UInt8.ofNat n), payload := List.replicate n 0 }

def authority : Member := ⟨.zero 32, .stateAuthority⟩

def other : Member := ⟨bytes 32 1, .member⟩

def pairAt (epoch : Nat) (previous transition : UInt8) : GroupState :=
  ⟨.zero 32, epoch, some (bytes 32 previous), [authority, other], bytes 32 transition⟩

def soleAt (epoch : Nat) (previous transition : UInt8) : GroupState :=
  ⟨.zero 32, epoch, some (bytes 32 previous), [authority], bytes 32 transition⟩

def group : Nat → GroupState
  | 0 => pairAt 22 0 0
  | 1 => soleAt 23 206 172
  | 2 => pairAt 24 168 175
  | _ => soleAt 25 207 173

def operation : Nat → GroupOperation
  | 1 => .add other
  | _ => .remove (bytes 32 1)

def packet (n : Nat) : Bytes :=
  match (do (session n).send provider (← (message n).encode)) with
  | .ok (_, packet) => packet
  | .error _ => []

theorem sent (n : Nat) (hn : n < 3) : ∃ encoded, (message n).encode = .ok encoded ∧
    (session n).send provider encoded = .ok (session (n + 1), packet n) := by
  refine Except.bind_eq_ok.mp ?_
  interval_cases n <;> decide +kernel

theorem digested : ∀ n < 3, (group n).digest provider =
    .ok (bytes 32 (match n with | 0 => 206 | 1 => 168 | _ => 207)) := by
  intro n hn
  interval_cases n <;> rfl

theorem stepped (n : Nat) (hn : n < 3) :
    (group n).applyTransition provider (.zero 32) (operation n) = .ok (group (n + 1)) := by
  have hdigest := digested n hn
  simp only [GroupState.applyTransition, Except.bind_eq_ok, Prod.exists]
  interval_cases n <;>
    exact ⟨(), rfl, (), by decide, _, _, rfl, (), by decide, _, hdigest, _, rfl, (),
      by rw [List.mergeSort_of_pairwise (by decide)]; rfl,
      by rw [List.mergeSort_of_pairwise (by decide)]; rfl⟩

def projections (n : Nat) : List Projection :=
  match (group (n + 1)).projections provider (.zero 16) (.zero 32) [] with
  | .ok projections => projections
  | .error _ => []

theorem projected (n : Nat) (hn : n < 3) :
    (group (n + 1)).projections provider (.zero 16) (.zero 32) [] = .ok (projections n) := by
  interval_cases n <;> rfl

def adopted : GovernanceState := ⟨.zero 32, 1, some (.zero 32), OneFlow.candidate.roleVersions⟩

theorem governed : Governance.evaluateCandidate adopted OneFlow.candidate 0 = .ok .replay := by
  have hlive : 0 < OneFlow.candidate.expiresAt := by decide
  have hplaced := Governance.commit_placed OneFlow.governed hlive fun h => absurd rfl h
  obtain ⟨_, _, hcomplete, _⟩ := Governance.commit_step OneFlow.governed
  exact Governance.evaluateCandidate_eq_replay hcomplete.admissible hplaced
    (Governance.roles_of_ok OneFlow.governed) (Governance.observed_of_ok OneFlow.governed) rfl rfl
    rfl

def reliable : Nat → ReliableState
  | 0 => ⟨.zero 32, .zero 32, .zero 32, 0, 0, 0, .pending⟩
  | n + 1 => ⟨.zero 32, bytes 32 (UInt8.ofNat (n + 1)), provider.sha256 (packet n), 0, n + 1, n + 1,
      .pending⟩

def runtime (n : Nat) : CapabilityRuntime where
  governance := adopted
  identity := some ⟨.zero 32, n + 1, .zero 32⟩
  reliable := reliable n
  group := group n
  lastMessageId := if n = 0 then none else some (message (n - 1)).id
  lastTransportOutcome := if n = 0 then none else some .accepted

def flow (n : Nat) : CompleteCapabilityFlow :=
  { OneFlow.flow with
    identity := ⟨.zero 32, n + 2, .zero 32⟩
    identityPredecessor := some (.zero 32)
    message := message n
    reliableRouteDigest := bytes 32 (UInt8.ofNat (n + 1))
    groupOperation := operation n
    confirmation := { OneFlow.flow.confirmation with confirmedMessageIds := [(message n).id] } }

def receipt (n : Nat) : CapabilityReceipt := ⟨packet n, projections n, .accepted⟩

theorem inputs (n : Nat) (hn : n < 3) : FlowInputs provider (runtime n) (session n) (flow n) 0
    (session (n + 1)) .replay (group (n + 1)) (receipt n) where
  governance := governed
  identity := by interval_cases n <;> rfl
  packet := sent n hn
  transition := stepped n hn
  projections := projected n hn
  confirmation := ⟨.accepted, by interval_cases n <;> rfl⟩
  request := OneFlow.requested
  status := rfl

theorem retried (n : Nat) (hn : n < 3) : (runtime n).reliable.retry (flow n).reliableRouteDigest
    (runtime n).reliable.intentDigest (provider.sha256 (receipt n).protectedPacket) =
      .ok (reliable (n + 1)) := by
  interval_cases n <;> decide +kernel

def effectOf (projections : List Projection) : Bytes :=
  match capabilityEffect projections [] .accepted with
  | .ok effect => effect
  | .error _ => []

def effect (n : Nat) : Bytes := effectOf (projections n)

theorem effected (n : Nat) (hn : n < 3) :
    capabilityEffect (receipt n).projections (flow n).groupPayload (receipt n).transportOutcome =
    .ok (effect n) := by
  interval_cases n <;> decide +kernel

/-- Everything that the run hashes for identities and for groups. -/
def inputsHashed : List Bytes :=
  [pendingInput (label "capability-send") (packet 0), pendingInput (label "capability-send")
    (packet 1), pendingInput (label "capability-send") (packet 2),
    pendingInput (label "capability-effect") (effect 0),
    pendingInput (label "capability-effect") (effect 1)] ++ (GroupState.digestInput (group 1) ++
    GroupState.digestInput (group 2) ++ GroupState.digestInput (group 3))

theorem lengths : inputsHashed.map List.length = [248, 249, 250, 46, 149, 168, 207, 169] := by
  decide +kernel

theorem map_identityDigest (inputs : List Bytes) : inputs.map (identityDigest provider) =
    (inputs.map List.length).map fun length => bytes 16 (UInt8.ofNat length) := by
  rw [List.map_map]
  rfl

theorem identityDigests_nodup : (inputsHashed.map (identityDigest provider)).Nodup := by
  rw [map_identityDigest, lengths]
  decide

theorem free {hashed : Set Bytes} (h : hashed ⊆ {input | input ∈ inputsHashed}) :
    Set.InjOn (identityDigest provider) hashed :=
  fun _ ha _ hb hab => List.inj_on_of_nodup_map identityDigests_nodup (h ha) (h hb) hab

def waiting (n : Nat) : List PendingItem :=
  (List.range n).map fun m => ⟨pendingId provider (label "capability-effect") (effect m),
  .effect (effect m)⟩

theorem effect_repeats : effect 2 = effect 0 := by
  have hfirst : projections 0 = [] := rfl
  have hlast : projections 2 = [] := rfl
  exact congrArg effectOf (hlast.trans hfirst.symm)

theorem effect_mem (n : Nat) (hn : n < 3) :
    pendingInput (label "capability-effect") (effect n) ∈ inputsHashed := by
  interval_cases n
  · simp [inputsHashed]
  · simp [inputsHashed]
  · simp [inputsHashed, effect_repeats]

theorem packet_mem (n : Nat) (hn : n < 3) :
    pendingInput (label "capability-send") (packet n) ∈ inputsHashed := by
  interval_cases n <;> simp [inputsHashed]

theorem group_mem (n : Nat) (hn : n < 3) : ∀ input ∈ GroupState.digestInput (group (n + 1)),
    input ∈ inputsHashed := by
  intro input hinput
  interval_cases n <;> simp [inputsHashed, hinput]

theorem hashes_subset (n : Nat) (hn : n < 3) :
    Operation.hashes (.applyCompleteCapabilityFlow (flow n))
      ⟨⟨.established (session (n + 1)) none none none (some (runtime (n + 1)))⟩, [], waiting n ++
      flowItems provider (receipt n) (effect n)⟩ ⊆ {input | input ∈ inputsHashed} := by
  rintro input (⟨id, packet, hmem, rfl⟩ | ⟨id, bytes, hmem, rfl⟩ | ⟨after, hafter, hinput⟩)
  · simp only [waiting, flowItems, List.mem_append, List.mem_map, List.mem_cons,
      PendingItem.mk.injEq, reduceCtorEq, and_false, exists_false, false_or,
      PendingKind.packet.injEq, List.not_mem_nil, or_false] at hmem
    rw [hmem.2]
    exact packet_mem n hn
  · simp only [waiting, flowItems, List.mem_append, List.mem_map, List.mem_range, List.mem_cons,
      PendingItem.mk.injEq, reduceCtorEq, and_false, false_or, PendingKind.effect.injEq,
      List.not_mem_nil, or_false] at hmem
    rcases hmem with ⟨m, hm, _, rfl⟩ | ⟨_, rfl⟩
    · exact effect_mem m (by omega)
    · exact effect_mem n hn
  · cases hafter
    exact group_mem n hn input hinput

theorem awaits (n : Nat) (hn : n < 3) (current : Snapshot)
    (hpending : current.pending = waiting n) :
    AwaitsFlow (flow n) current (runtime n) where
  settled := by
    rw [hpending]
    interval_cases n <;> rfl
  fresh := by interval_cases n <;> decide

theorem ids_nodup (n : Nat) (hn : n < 2) :
    ((waiting n ++ flowItems provider (receipt n) (effect n)).map PendingItem.id).Nodup := by
  interval_cases n <;> decide +kernel

theorem takes (n : Nat) (hn : n < 2) (current : Snapshot) (hpending : current.pending = waiting n)
    (hrevision : current.revision.value < maxSafeInteger) :
    TakesFlow provider (flow n) (receipt n) current where
  revision := hrevision
  places := by
    rw [hpending]
    interval_cases n <;> decide
  ids effect heffect := by
    cases heffect.symm.trans (effected n (by omega))
    rw [hpending]
    exact ids_nodup n hn

def world : World := .stocked ⟨.established (session 0) none none none (some (runtime 0))⟩
    [] List.nodup_nil

theorem ran (n : Nat) (hn : n ≤ 2) : ∃ log w,
    (system provider).Run (fun _ _ => True) (atRest provider Unit world) log
      (atRest provider Unit w) ∧
      w.durable.state.phase = .established (session n) none none none (some (runtime n)) ∧
      w.durable.pending = waiting n ∧ w.durable.revision.value = 2 * n ∧
      hashedIn log ⊆ {input | input ∈ inputsHashed} := by
  induction n with
  | zero =>
    refine ⟨[], world, .start, rfl, rfl, rfl, ?_⟩
    rintro input ⟨_, _, _, _, _, hmem, _⟩
    cases hmem
  | succ n ih =>
    obtain ⟨log, w, hrun, hphase, hpending, hrevision, hlog⟩ := ih (by omega)
    have hbound : w.durable.revision.value + 1 < maxSafeInteger := by
      rw [hrevision]
      have hmax : 100 ≤ maxSafeInteger := by decide
      omega
    have hhashes := hashes_subset n (by omega)
    rw [← hpending] at hhashes
    obtain ⟨log', w', hrun', hphase', hpending', hrevision', hlog'⟩ :=
      @run_flow_dispatch Unit _ provider _ _ log Waiting.line 0 w () _ _ _ _ _ _ _ none none
        none _ _ _ (fun _ _ => trivial) hrun (inputs n (by omega)) hphase
        (awaits n (by omega) _ hpending) (takes n (by omega) _ hpending (by omega)) hbound
          (retried n (by omega)) (effected n (by omega))
        hlog hhashes
    refine ⟨log', w', hrun', hphase', ?_, ?_, hlog'⟩
    · rw [hpending', hpending, waiting, waiting, List.range_succ, List.map_append]
      rfl
    · rw [hrevision', hrevision]
      omega

def plan (n : Nat) : Plan CapabilityReceipt :=
  FlowInputs.plan (runtime n) (session (n + 1)) (flow n) .replay (group (n + 1)) (receipt n)
    (reliable (n + 1)) none none none (waiting n ++ flowItems provider (receipt n) (effect n))

theorem planned (n : Nat) (hn : n < 3) {w : World}
    (hphase : w.durable.state.phase = .established (session n) none none none (some (runtime n)))
    (hpending : w.durable.pending = waiting n) :
    Operation.Plans provider Waiting.line (.applyCompleteCapabilityFlow (flow n)) w.durable w
      (plan n) (waiting n ++ flowItems provider (receipt n) (effect n)) := by
  have hnow : (decides provider w).may clock.nowUnixSeconds (.ok 0) :=
    (Program.outcomes_perform _ _ _).mpr trivial
  obtain ⟨hprojections, hpayload⟩ := GroupState.projections_bounds (inputs n hn).projections
  obtain ⟨effect', heffect', hlength⟩ := capabilityEffect_ok hprojections hpayload .accepted
  cases (effected n hn).symm.trans heffect'
  have hdecided := @FlowInputs.decided provider Waiting.line 0 w _ _ _ _ _ _ _ none none none _ hnow
    (inputs n hn) hphase (awaits n hn _ hpending) _ (retried n hn) _ (effected n hn) hlength
  rw [hpending] at hdecided
  exact ⟨⟨none, hdecided⟩, rfl⟩

/-- The second flow adds the other member again, so that it reaches somebody. -/
theorem not_repeats {current : Snapshot}
    (hphase : current.state.phase = .established (session 1) none none none (some (runtime 1))) :
    ¬(flow 1).Repeats current := by
  rintro ⟨runtime', _, hruntime, halone, _⟩
  rw [hphase] at hruntime
  cases hruntime
  have hother := halone (bytes 32 1) (by decide)
  rw [show (flow 1).groupOperation = .add other from rfl, GroupOperation.update] at hother
  exact absurd hother (by decide)

/-- A flow that follows another one in a session. -/
theorem flow_identities_distinct_second : ∃ log w added,
    (system provider).Run (fun _ _ => True) (atRest provider Unit world) log
    (atRest provider Unit w) ∧
    Operation.Plans provider Waiting.line (.applyCompleteCapabilityFlow (flow 1)) w.durable w
    (plan 1) (w.durable.pending ++ added) ∧
    (∀ item ∈ w.durable.pending, ∀ new ∈ added, new.id ≠ item.id) ∧
    ∃ commit, Commit.bounded (plan 1).next (plan 1).mutations (w.durable.pending ++ added)
      maxEndpointKeyMutations 16 = .ok commit := by
  obtain ⟨log, w, hrun, hphase, hpending, _, hlog⟩ := ran 1 (by decide)
  have hplans := planned 1 (by decide) hphase hpending
  have hroom : w.durable.pending.length < 15 := by
    rw [hpending]
    decide
  obtain ⟨added, heq, hids, hcommit⟩ := flow_identities_distinct (atRest_allIdle world) rfl
    hrun hplans hroom (free (Set.union_subset hlog (hashes_subset 1 (by decide))))
  rw [heq] at hplans hcommit
  have hdistinct := not_repeats hphase
  exact ⟨log, w, added, hrun, hplans, hids.mpr hdistinct, hcommit.mpr hdistinct⟩

/-- The third flow removes the other member once more, with the payload and the outcome of the first
flow, whose effect is still pending. -/
theorem flow_identities_collide : world.durable.pending = [] ∧ ∃ log w pending,
    (system provider).Run (fun _ _ => True) (atRest provider Unit world) log
    (atRest provider Unit w) ∧
    Operation.Plans provider Waiting.line (.applyCompleteCapabilityFlow (flow 2)) w.durable w
    (plan 2) pending ∧
    w.durable.pending.length < 15 ∧ w.durable.pending.any PendingItem.isPacket = false ∧
    Set.InjOn (identityDigest provider) (hashedIn log ∪ Operation.hashes
      (.applyCompleteCapabilityFlow (flow 2)) ⟨(plan 2).next, (plan 2).mutations, pending⟩) ∧
    (∃ item ∈ w.durable.pending, ∃ new ∈ pending.drop w.durable.pending.length, new.id = item.id) ∧
    ¬∃ commit, Commit.bounded (plan 2).next (plan 2).mutations pending maxEndpointKeyMutations 16 =
      .ok commit := by
  obtain ⟨log, w, hrun, hphase, hpending, _, hlog⟩ := ran 2 (by decide)
  have hplans := planned 2 (by decide) hphase hpending
  have hroom : w.durable.pending.length < 15 := by
    rw [hpending]
    decide
  have hfree := free (Set.union_subset hlog (hashes_subset 2 (by decide)))
  have hsettled := (awaits 2 (by decide) _ hpending).settled
  have hcollide : ∃ item ∈ w.durable.pending, ∃ new ∈ (waiting 2 ++ flowItems provider (receipt 2)
      (effect 2)).drop w.durable.pending.length, new.id = item.id := by
    rw [hpending, List.drop_left]
    exact ⟨_, List.mem_cons_self, _, List.mem_cons_of_mem _ List.mem_cons_self,
      congrArg (pendingId provider (label "capability-effect")) effect_repeats⟩
  refine ⟨rfl, log, w, _, hrun, hplans, hroom, hsettled, hfree, hcollide, ?_⟩
  obtain ⟨added, heq, hids, hcommit⟩ := (run_identified (atRest_allIdle world) rfl hrun).flow hplans
    hroom hfree
  intro h
  obtain ⟨item, hitem, new, hnew, hid⟩ := hcollide
  rw [heq] at hnew
  change new ∈ (w.durable.pending ++ added).drop w.durable.pending.length at hnew
  rw [List.drop_left] at hnew
  exact hids.mpr (hcommit.mp h) item hitem new hnew hid

end Repeated

end LicoArc
