import LicoArc.EncodingListing
import LicoArc.GroupRoster
import LicoArc.PendingWork
import LicoArc.SameRoute

/-!
# Identities of pending items

The identity of a pending item is a prefix of the digest of its label and its
bytes. Without collisions only equal bytes under one label share an identity,
and a flow repeats the bytes of a pending effect only where it reaches nobody.
-/

namespace LicoArc

open Backend LicoArc.Group

/-! ## Identities -/

/-- What the identity of a pending item hashes. -/
def pendingInput (kind bytes : Bytes) : Bytes := dPendingId ++ kind ++ bytes

def identityDigest (provider : Provider) (input : Bytes) : FixedBytes 16 :=
  digestPrefix (provider.sha256 input)

theorem fromBigEndian_injective {bytes bytes' : Bytes} (hlength : bytes.length = bytes'.length)
    (h : fromBigEndian bytes = fromBigEndian bytes') : bytes = bytes' := by
  rw [← bigEndian_fromBigEndian bytes, ← bigEndian_fromBigEndian bytes', hlength, h]

section

variable {provider : Provider} {hashed : Set Bytes} {kind kind' bytes bytes' : Bytes}

theorem append_eq_of_pendingId (hfree : Set.InjOn (identityDigest provider) hashed)
    (hinput : pendingInput kind bytes ∈ hashed) (hinput' : pendingInput kind' bytes' ∈ hashed)
    (h : pendingId provider kind bytes = pendingId provider kind' bytes') :
    kind ++ bytes = kind' ++ bytes' := by
  have hprefix : (identityDigest provider (pendingInput kind bytes)).toList =
      (identityDigest provider (pendingInput kind' bytes')).toList :=
    fromBigEndian_injective (by simp) (congrArg PendingId.token h)
  have hsame := hfree hinput hinput' (FixedBytes.toList_injective hprefix)
  rw [pendingInput, pendingInput, List.append_assoc, List.append_assoc] at hsame
  exact List.append_cancel_left hsame

theorem bytes_eq_of_pendingId (hfree : Set.InjOn (identityDigest provider) hashed)
    (hinput : pendingInput kind bytes ∈ hashed) (hinput' : pendingInput kind bytes' ∈ hashed)
    (h : pendingId provider kind bytes = pendingId provider kind bytes') : bytes = bytes' :=
  List.append_cancel_left (append_eq_of_pendingId hfree hinput hinput' h)

theorem pendingId_ne (hfree : Set.InjOn (identityDigest provider) hashed)
    (hinput : pendingInput kind bytes ∈ hashed) (hinput' : pendingInput kind' bytes' ∈ hashed)
    (n : Nat) (hn : n ≤ kind.length ∧ n ≤ kind'.length) (hkinds : kind.take n ≠ kind'.take n) :
    pendingId provider kind bytes ≠ pendingId provider kind' bytes' := by
  intro h
  have hsame := congrArg (List.take n) (append_eq_of_pendingId hfree hinput hinput' h)
  rw [List.take_append_of_le_length hn.1, List.take_append_of_le_length hn.2] at hsame
  exact hkinds hsame

theorem sha256_injOn (hfree : Set.InjOn (identityDigest provider) hashed) :
    Set.InjOn provider.sha256 hashed :=
  fun _ hinput _ hinput' h => hfree hinput hinput' (congrArg digestPrefix h)

end

/-! ## The origins of pending items -/

/-- What a commit of the operation has hashed for identities and for the group of an effect. -/
def Operation.hashes : Operation → Commit EndpointState → Set Bytes
  | .sendRecord _ _, commit => {input | ∃ id packet, ⟨id, .packet packet⟩ ∈ commit.pending ∧
      input = pendingInput (label "record-send") packet}
  | .receiveRecord packet _, _ => {pendingInput (label "record-receive") packet}
  | .applyCompleteCapabilityFlow _, commit => {input |
      (∃ id packet, ⟨id, .packet packet⟩ ∈ commit.pending ∧
        input = pendingInput (label "capability-send") packet) ∨
      (∃ id effect, ⟨id, .effect effect⟩ ∈ commit.pending ∧
        input = pendingInput (label "capability-effect") effect) ∨
      ∃ runtime, commit.nextState.phase.capabilities = some runtime ∧
        input ∈ GroupState.digestInput runtime.group}
  | _, _ => ∅

/-- A projection that names an earlier state of the group. -/
def Projection.Earlier (provider : Provider) (hashed : Set Bytes) (epoch : Nat)
    (projection : Projection) : Prop :=
  ∃ group : GroupState, group.epoch ≤ epoch ∧
    group.digest provider = .ok projection.groupStateDigest ∧
    ∀ input ∈ GroupState.digestInput group, input ∈ hashed

/-- The origin of a pending item, among everything that was hashed. -/
inductive PendingItem.Named (provider : Provider) (hashed : Set Bytes)
    (capabilities : Option CapabilityRuntime) : PendingItem → Prop
  | sent {packet : Bytes} (input : pendingInput (label "record-send") packet ∈ hashed) :
      Named provider hashed capabilities
        ⟨pendingId provider (label "record-send") packet, .packet packet⟩
  | received {packet plaintext : Bytes}
      (input : pendingInput (label "record-receive") packet ∈ hashed) :
      Named provider hashed capabilities
        ⟨pendingId provider (label "record-receive") packet, .plaintext plaintext⟩
  | flowPacket {packet : Bytes} (input : pendingInput (label "capability-send") packet ∈ hashed) :
      Named provider hashed capabilities
        ⟨pendingId provider (label "capability-send") packet, .packet packet⟩
  | flowEffect {effect payload : Bytes} {projections : List Projection} {outcome : TransportOutcome}
      {runtime : CapabilityRuntime}
      (input : pendingInput (label "capability-effect") effect ∈ hashed)
      (encoded : capabilityEffect projections payload outcome = .ok effect)
      (present : capabilities = some runtime)
      (earlier : ∀ projection ∈ projections,
        projection.Earlier provider hashed runtime.group.epoch) :
      Named provider hashed capabilities
        ⟨pendingId provider (label "capability-effect") effect, .effect effect⟩

section

variable {provider : Provider} {hashed hashed' : Set Bytes}
  {capabilities capabilities' : Option CapabilityRuntime} {item : PendingItem}

theorem Projection.Earlier.later {projection : Projection} {epoch epoch' : Nat}
    (h : projection.Earlier provider hashed epoch) (hhashed : hashed ⊆ hashed')
    (hepoch : epoch ≤ epoch') : projection.Earlier provider hashed' epoch' := by
  obtain ⟨group, hle, hdigest, hinputs⟩ := h
  exact ⟨group, hle.trans hepoch, hdigest, fun input hinput => hhashed (hinputs input hinput)⟩

theorem PendingItem.Named.later (h : Named provider hashed capabilities item)
    (hhashed : hashed ⊆ hashed') (hcapabilities : ∀ runtime, capabilities = some runtime →
      ∃ runtime', capabilities' = some runtime' ∧ runtime.group.epoch ≤ runtime'.group.epoch) :
    Named provider hashed' capabilities' item := by
  cases h with
  | sent input => exact .sent (hhashed input)
  | received input => exact .received (hhashed input)
  | flowPacket input => exact .flowPacket (hhashed input)
  | flowEffect input encoded present earlier =>
    obtain ⟨runtime', hpresent, hepoch⟩ := hcapabilities _ present
    exact .flowEffect (hhashed input) encoded hpresent fun projection hprojection =>
      (earlier projection hprojection).later hhashed hepoch

end

/-! ## What a flow makes pending -/

theorem GroupState.projections_spec {self : GroupState} {provider : Provider}
    {messageId : FixedBytes 16} {sender : FixedBytes 32} {payload : Bytes}
    {projections : List Projection}
    (h : self.projections provider messageId sender payload = .ok projections) :
    ∃ digest, self.digest provider = .ok digest ∧
      (∀ projection ∈ projections, projection.groupStateDigest = digest) ∧
      (projections = [] ↔ ∀ member ∈ self.members, member.endpoint = sender) := by
  simp only [GroupState.projections, Except.bind_eq_ok, reject_eq_ok, Except.pure_eq,
    Except.ok.injEq] at h
  obtain ⟨_, _, _, _, _, _, _, _, digest, hdigest, rfl⟩ := h
  refine ⟨digest, hdigest, ?_, ?_⟩
  · intro projection hprojection
    obtain ⟨member, _, rfl⟩ := List.mem_map.mp hprojection
    rfl
  · rw [List.map_eq_nil_iff, List.filter_eq_nil_iff]
    simp

namespace Operation

variable {provider : Provider} {line : RuntimeLine} {operation : Operation} {current : Snapshot}
  {w w' : World}

theorem Plans.named {plan : Plan operation.Value} {pending : List PendingItem}
    (h : Plans provider line operation current w plan pending) {item : PendingItem}
    (hitem : item ∈ pending) : item ∈ current.pending ∨
      item.Named provider (operation.hashes ⟨plan.next, plan.mutations, pending⟩)
        plan.next.phase.capabilities := by
  obtain ⟨⟨unused, hdecided⟩, hitems⟩ := h
  have hkept : plan.pending = .ok current.pending → item ∈ current.pending := by
    intro heq
    cases hitems.symm.trans heq
    exact hitem
  cases operation with
  | admitPrekey =>
    obtain ⟨_, heq⟩ := Endpoint.mayOk_decideAdmitPrekey _ hdecided
    cases heq
    exact .inl (hkept rfl)
  | acceptFirstPacket =>
    obtain ⟨_, _, _, _, _, ⟨_, heq⟩ | ⟨_, heq⟩⟩ :=
      (Endpoint.mayOk_decideAcceptFirstPacket _).mp hdecided
    · cases heq
    · cases heq
      exact .inl (hkept rfl)
  | createFirstPacket =>
    obtain ⟨_, _, _, _, _, ⟨_, heq⟩ | ⟨_, _, heq⟩⟩ :=
      (Endpoint.mayOk_decideCreateFirstPacket _).mp hdecided
    · cases heq
    · cases heq
      exact .inl (hkept rfl)
  | verifySessionAccept =>
    obtain ⟨_, heq⟩ := (Endpoint.mayOk_decideVerifySessionAccept _).mp hdecided
    cases heq
    exact .inl (hkept rfl)
  | sendRecord =>
    obtain ⟨_, sending, heq⟩ := Endpoint.mayOk_decideSendRecord _ hdecided
    cases heq
    cases hitems
    refine (List.mem_append.mp hitem).imp_right fun hadded => ?_
    cases List.mem_singleton.mp hadded
    exact .sent ⟨_, sending.packet, hitem, rfl⟩
  | receiveRecord packet =>
    obtain ⟨_, _, heq⟩ := Endpoint.mayOk_decideReceiveRecord _ hdecided
    cases heq
    simp only [PendingItem.plaintext, Except.bind_eq_ok, PendingItem.bounded_eq_ok_iff,
      Except.pure_eq, Except.ok.injEq] at hitems
    obtain ⟨_, ⟨_, rfl⟩, rfl⟩ := hitems
    refine (List.mem_append.mp hitem).imp_right fun hadded => ?_
    cases List.mem_singleton.mp hadded
    exact .received rfl
  | bootstrapCapabilities =>
    obtain ⟨_, heq⟩ := Endpoint.mayOk_decideBootstrapCapabilities _ hdecided
    cases heq
    exact .inl (hkept rfl)
  | applyCompleteCapabilityFlow =>
    obtain ⟨_, application, heq⟩ := Endpoint.mayOk_decideApplyCompleteCapabilityFlow _ hdecided
    cases heq
    cases hitems
    refine (List.mem_append.mp hitem).imp_right fun hadded => ?_
    rcases List.mem_cons.mp hadded with rfl | hadded
    · exact .flowPacket (.inl ⟨_, _, hitem, rfl⟩)
    · cases List.mem_singleton.mp hadded
      obtain ⟨digest, hdigest, hnamed, _⟩ :=
        GroupState.projections_spec application.reduction.projections
      refine .flowEffect (.inr (.inl ⟨_, application.effect, hitem, rfl⟩)) application.takesEffect
        rfl ?_
      intro projection hprojection
      rw [← hnamed projection hprojection] at hdigest
      exact ⟨application.runtime.group, le_refl _, hdigest,
        fun input hinput => .inr (.inr ⟨application.runtime, rfl, hinput⟩)⟩
  | deleteSession =>
    obtain ⟨_, heq⟩ := Endpoint.mayOk_decideDeleteSession _ hdecided
    cases heq
    cases hitems
    cases hitem

end Operation

theorem SessionMove.group_le {provider : Provider} {call : Call} {current next : Snapshot}
    (h : SessionMove provider call current next)
    (hdeletes : ∀ line, call ≠ .operate line .deleteSession) {runtime : CapabilityRuntime}
    (hcapabilities : current.state.phase.capabilities = some runtime) :
    ∃ runtime', next.state.phase.capabilities = some runtime' ∧
      runtime.group.epoch ≤ runtime'.group.epoch := by
  cases h with
  | stays => exact ⟨runtime, hcapabilities, le_refl _⟩
  | flows _ _ hbefore _ hafter hlockstep =>
    cases hcapabilities.symm.trans hbefore
    exact ⟨_, hafter, by rw [hlockstep.groupEpoch]; exact Nat.le_succ _⟩
  | sends hkept => exact ⟨runtime, hkept.trans hcapabilities, le_refl _⟩
  | receives hkept => exact ⟨runtime, hkept.trans hcapabilities, le_refl _⟩
  | settles hkept => exact ⟨runtime, hkept ▸ hcapabilities, le_refl _⟩
  | deletes => exact absurd rfl (hdeletes _)

/-! ## Runs -/

def Call.hashes : Call → Commit EndpointState → Set Bytes
  | .operate _ operation, commit => operation.hashes commit
  | .serve _ _, _ => ∅

section

variable {ι : Type} [DecidableEq ι] {provider : Provider}
  {guard : (system provider).Config ι → (system provider).Event ι → Prop}
  {c₀ c c' : (system provider).Config ι} {log : List ((system provider).Event ι)}

/-- What the swaps of a run have hashed for identities and for the groups of effects. -/
def hashedIn (log : List ((system provider).Event ι)) : Set Bytes :=
  {input | ∃ i call x expected commit, .exchange i call x ∈ log ∧
    x.request = Request.compareAndSwap expected commit ∧ input ∈ Call.hashes call commit}

omit [DecidableEq ι] in
theorem hashedIn_cons (event : (system provider).Event ι) :
    hashedIn log ⊆ hashedIn (event :: log) := by
  rintro input ⟨i, call, x, expected, commit, hmem, hrest⟩
  exact ⟨i, call, x, expected, commit, List.mem_cons_of_mem event hmem, hrest⟩

/-- Every pending item has its origin in the run, and an identity of its own. -/
structure Identified (provider : Provider) (hashed : Set Bytes) (current : Snapshot) : Prop where
  distinct : (current.pending.map PendingItem.id).Nodup
  named : ∀ item ∈ current.pending,
    item.Named provider hashed current.state.phase.capabilities

theorem Identified.commits {hashed hashed' : Set Bytes} {w w' : World} {line : RuntimeLine}
    {operation : Operation} {expected : Revision} {commit : Commit EndpointState}
    (h : Identified provider hashed w.durable) (hhashed : hashed ⊆ hashed')
    (hinputs : operation.hashes commit ⊆ hashed')
    (hpermit : operation.Permitted provider line (.compareAndSwap expected commit) w)
    (hswapped : w.Swapped expected commit w') : Identified provider hashed' w'.durable := by
  have hcommitted := Operation.committed_of_swapped hpermit hswapped
  obtain ⟨current, hcurrent, hrevision, plan, pending, hplans, hcommit⟩ := hpermit
  obtain ⟨_, _, hdistinct, _, rfl⟩ := Commit.bounded_eq_ok.mp hcommit
  have hdurable : current = w.durable := by
    apply History.eq_newest_of_rank hcurrent
    rw [hrevision, hswapped.current]
    rfl
  subst hdurable
  have hitems := hplans.items_eq
  have hgroup : operation.deletes = false → ∀ runtime,
      w.durable.state.phase.capabilities = some runtime →
      ∃ runtime', w'.durable.state.phase.capabilities = some runtime' ∧
        runtime.group.epoch ≤ runtime'.group.epoch := by
    intro hdeletes runtime hruntime
    exact (hcommitted.move hruntime).group_le (fun _ heq => by cases heq; cases hdeletes) hruntime
  rw [hswapped.advanced] at hgroup ⊢
  refine ⟨hdistinct, fun item hitem => ?_⟩
  rcases hplans.named hitem with hold | hnew
  · cases hdeletes : operation.deletes with
    | true =>
      rw [hdeletes] at hitems
      subst hitems
      cases hitem
    | false => exact (h.named item hold).later hhashed (hgroup hdeletes)
  · exact hnew.later hinputs fun runtime hruntime => ⟨runtime, hruntime, le_refl _⟩

theorem run_identified (hidle : c₀.allIdle) (hempty : c₀.world.durable.pending = [])
    (h : (system provider).Run guard c₀ log c) :
    Identified provider (hashedIn log) c.world.durable := by
  induction h with
  | start => exact ⟨by simp [hempty], by simp [hempty]⟩
  | @step log c c' event run step guarded ih =>
    have hmono := @hashedIn_cons ι provider log event
    have hkeeps : ∀ current : Snapshot, current.state = c.world.durable.state →
        current.pending.Sublist c.world.durable.pending →
        Identified provider (hashedIn (event :: log)) current := by
      intro current hstate hpending
      refine ⟨ih.distinct.sublist (hpending.map _), fun item hitem => ?_⟩
      rw [hstate]
      exact (ih.named item (hpending.subset hitem)).later hmono fun runtime hruntime =>
        ⟨runtime, hruntime, le_refl _⟩
    have hsame : ∀ w : World, w.durable = c.world.durable →
        Identified provider (hashedIn (event :: log)) w.durable := by
      intro w heq
      rw [heq]
      exact hkeeps _ rfl (List.Sublist.refl _)
    cases step with
    | start => exact hsame _ rfl
    | finish => exact hsame _ rfl
    | @surroundings w moved => exact hsame w (surroundings_durable moved)
    | @exchange i call origin w trace request next reply busy handled =>
      have hmeets := (run_meeting hidle run).1 i call origin trace _ busy
      obtain ⟨hpermit, _⟩ := hmeets c.world (World.Later.refl _)
      cases request with
      | compareAndSwap expected commit =>
        rcases handled.1 with heq | hswapped
        · exact hsame w (congrArg World.durable heq)
        · cases call with
          | serve line service => cases hpermit
          | operate line operation =>
            refine ih.commits hmono ?_ hpermit hswapped
            intro input hinput
            exact ⟨i, _, _, expected, commit, List.mem_cons_self, rfl, hinput⟩
      | settle revision id =>
        rcases handled.1 with heq | hsettled
        · exact hsame w (congrArg World.durable heq)
        · refine hkeeps w.durable (by rw [hsettled.advanced]; rfl) ?_
          rw [hsettled.advanced]
          exact List.eraseP_sublist
      | abortX25519 staged => exact hsame w (by rw [show w = _ from handled]; rfl)
      | abortMlKem768 staged => exact hsame w (by rw [show w = _ from handled]; rfl)
      | _ => exact hsame w (congrArg World.durable handled.1)

end

end LicoArc
