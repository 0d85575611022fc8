import LicoArc.CommitOutcome
import LicoArc.Interaction.Trace

/-!
# What moves the durable snapshot

A deleted session commits nothing, an exchange moves the durable snapshot by a
commit or by a settlement, and an error that must not be retried comes from a
call that moved nothing.
-/

namespace LicoArc

open Backend

def Operation.inSession : Operation → Bool
  | sendRecord _ _ | receiveRecord _ _ | bootstrapCapabilities _
  | applyCompleteCapabilityFlow _ => true
  | _ => false

/-- What the commit of an operation does to the durable phase. -/
inductive PhaseMove (provider : Provider) : Operation → Phase → Phase → Prop
  | admits {identity : IdentityPublic} {signing : IdentitySigningHandles} {pairSequence : Nat}
      {x25519Private : StagedSecretHandle .x25519Private}
      {mlKemPrivate : StagedSecretHandle .mlKem768Private} {validFrom validUntil highWater : Nat}
      {active : ActivePrekeys} {bundle : PrekeyBundle} (nonzero : pairSequence ≠ 0)
      (fresh : highWater < pairSequence) (room : active.size < maxActivePrekeyPairs)
      (sequence : bundle.pairSequence = pairSequence) :
      PhaseMove provider
        (.admitPrekey identity signing pairSequence x25519Private mlKemPrivate validFrom validUntil)
        (.responderReady highWater active)
        (.responderReady pairSequence (active.insert pairSequence
          ⟨bundle, x25519Private.adoptedHandle, mlKemPrivate.adoptedHandle⟩))
  | accepts {initiatorIdentity : TrustedIdentity} {responderIdentity : IdentityPublic}
      {authority transcript : FixedBytes 32} {packet : FirstPacket} {highWater : Nat}
      {active : ActivePrekeys} {prekey : ActivePrekey} {ratchet : RatchetState}
      {accept : SessionAccept} (isActive : active[packet.prekey.pairSequence]? = some prekey)
      (digest : firstPacketDigest provider packet = .ok transcript) :
      PhaseMove provider (.acceptFirstPacket initiatorIdentity responderIdentity authority packet)
        (.responderReady highWater active)
        (.established ratchet (some transcript) (some accept) (some highWater) none)
  | creates {initiatorIdentity : IdentityPublic} {responderIdentity : TrustedIdentity}
      {initiatorAuthority responderAuthority : FixedBytes 32} {signing : IdentitySigningHandles}
      {prekey : PrekeyBundle} {x25519Private : StagedSecretHandle .x25519Private}
      {mlKemEntropy : SecretHandle .mlKemEncapsulationEntropy} {packet : FirstPacket}
      {transcript context : FixedBytes 32} {hybrid : HybridSecrets} {ratchet : RatchetState} :
      PhaseMove provider
        (.createFirstPacket initiatorIdentity responderIdentity initiatorAuthority
          responderAuthority signing prekey x25519Private mlKemEntropy)
        .initiatorNew (.initiatorAwaiting packet transcript context hybrid ratchet)
  | verifies {accept : SessionAccept} {packet : FirstPacket} {transcript context : FixedBytes 32}
      {hybrid : HybridSecrets} {ratchet : RatchetState} :
      PhaseMove provider (.verifySessionAccept accept)
        (.initiatorAwaiting packet transcript context hybrid ratchet)
        (.established ratchet none none none none)
  | continues {operation : Operation} {session next : RatchetState}
      {replay : Option (FixedBytes 32)} {accept : Option SessionAccept} {highWater : Option Nat}
      {capabilities capabilities' : Option CapabilityRuntime}
      (kind : operation.inSession = true) :
      PhaseMove provider operation (.established session replay accept highWater capabilities)
        (.established next replay accept highWater capabilities')
  | deletes {phase : Phase} (live : ∀ highWater, phase ≠ .deleted highWater) :
      PhaseMove provider .deleteSession phase (.deleted (Endpoint.deletion phase).1)

section

variable {provider : Provider} {w w' : World}

theorem Operation.Committed.phaseMove {line : RuntimeLine} {operation : Operation}
    (h : operation.Committed provider line w w') :
    PhaseMove provider operation w.durable.state.phase w'.durable.state.phase := by
  obtain ⟨plan, pending, hplans, _, _, rfl⟩ := h.planned
  obtain ⟨unused, hdecided⟩ := hplans.decided
  cases operation with
  | admitPrekey =>
    obtain ⟨admission, heq⟩ := Endpoint.mayOk_decideAdmitPrekey _ hdecided
    cases heq
    rw [admission.phase]
    exact .admits admission.nonzero admission.fresh admission.room (admission.bundle_eq ▸ rfl)
  | acceptFirstPacket =>
    obtain ⟨_, _, _, _, _, ⟨_, heq⟩ | ⟨acceptance, heq⟩⟩ :=
      (Endpoint.mayOk_decideAcceptFirstPacket _).mp hdecided
    · cases heq
    · cases heq
      rw [acceptance.phase]
      exact .accepts acceptance.stocked acceptance.digested
  | createFirstPacket =>
    obtain ⟨_, _, _, _, _, ⟨_, heq⟩ | ⟨hphase, _, heq⟩⟩ :=
      (Endpoint.mayOk_decideCreateFirstPacket _).mp hdecided
    · cases heq
    · cases heq
      rw [hphase]
      exact .creates
  | verifySessionAccept =>
    obtain ⟨verification, heq⟩ := (Endpoint.mayOk_decideVerifySessionAccept _).mp hdecided
    cases heq
    rw [verification.phase]
    exact .verifies
  | sendRecord =>
    obtain ⟨_, sending, heq⟩ := Endpoint.mayOk_decideSendRecord _ hdecided
    cases heq
    rw [sending.phase]
    exact .continues rfl
  | receiveRecord =>
    obtain ⟨_, receipt, heq⟩ := Endpoint.mayOk_decideReceiveRecord _ hdecided
    cases heq
    rw [receipt.phase]
    exact .continues rfl
  | bootstrapCapabilities =>
    obtain ⟨established, heq⟩ := Endpoint.mayOk_decideBootstrapCapabilities _ hdecided
    cases heq
    rw [established.phase]
    exact .continues rfl
  | applyCompleteCapabilityFlow =>
    obtain ⟨_, application, heq⟩ := Endpoint.mayOk_decideApplyCompleteCapabilityFlow _ hdecided
    cases heq
    rw [application.phase]
    exact .continues rfl
  | deleteSession =>
    obtain ⟨hlive, heq⟩ := Endpoint.mayOk_decideDeleteSession _ hdecided
    cases heq
    exact .deletes hlive

theorem PhaseMove.live {operation : Operation} {phase phase' : Phase}
    (h : PhaseMove provider operation phase phase') (highWater : Option Nat) :
    phase ≠ .deleted highWater := by
  cases h with
  | deletes hlive => exact hlive highWater
  | _ => exact nofun

theorem Operation.Committed.live {line : RuntimeLine} {operation : Operation}
    (h : operation.Committed provider line w w') (highWater : Option Nat) :
    w.durable.state.phase ≠ .deleted highWater :=
  h.phaseMove.live highWater

theorem Operation.Committed.revision {line : RuntimeLine} {operation : Operation}
    (h : operation.Committed provider line w w') :
    w'.durable.revision.value = w.durable.revision.value + 1 := by
  obtain ⟨plan, pending, _, _, _, rfl⟩ := h.planned
  rfl

theorem World.Settled.state {revision : Revision} {id : PendingId} (h : w.Settled revision id w') :
    w'.durable.state = w.durable.state :=
  h.advanced ▸ rfl

end

/-! ## Errors that leave nothing open -/

section

variable {provider : Provider} {w w' : World}

def Request.moves : Request → Bool
  | compareAndSwap _ _ | settle _ _ => true
  | _ => false

theorem snapshots_of_handles {request : Request} {reply : Reply request}
    (hrequest : request.moves = false) (h : handles provider w request reply w') :
    w'.snapshots = w.snapshots := by
  cases request with
  | compareAndSwap => cases hrequest
  | settle => cases hrequest
  | abortX25519 =>
    subst h
    rfl
  | abortMlKem768 =>
    subst h
    rfl
  | _ => exact congrArg World.snapshots h.1

theorem World.durable_of_snapshots (h : w'.snapshots = w.snapshots) : w'.durable = w.durable :=
  congrArg History.newest h

theorem durable_of_handles {request : Request} {reply : Reply request}
    (hrequest : request.moves = false) (h : handles provider w request reply w') :
    w'.durable = w.durable :=
  World.durable_of_snapshots (snapshots_of_handles hrequest h)

/-- A trace in which every exchange leaves the durable snapshot. -/
def Still (trace : List (Program.Exchange interface World)) : Prop :=
  ∀ x ∈ trace, x.after.durable = x.before.durable

theorem Still.append {first second : List (Program.Exchange interface World)} (hfirst : Still first)
    (hsecond : Still second) : Still (first ++ second) := by
  intro x hx
  rcases List.mem_append.mp hx with hx | hx
  · exact hfirst x hx
  · exact hsecond x hx

theorem still_of_only {α : Type} {p rest : Program interface α}
    {trace : List (Program.Exchange interface World)}
    (honly : p.Only fun request => Request.moves request = false)
    (hrun : Program.Executes World.Later (handles provider) p w trace rest w') : Still trace :=
  fun x hx => durable_of_handles (hrun.only honly x hx) (hrun.handled x hx)

theorem Program.Only.imp {σ : Interface} {α : Type} {property property' : σ.Request → Prop}
    (himp : ∀ request, property request → property' request) {p : Program σ α}
    (h : p.Only property) : p.Only property' := by
  induction p with
  | done => trivial
  | ask request next ih => exact ⟨himp request h.1, fun reply => ih reply (h.2 reply)⟩

theorem Request.moves_of_quiet {request : Request} (h : request.quiet) : request.moves = false := by
  cases request <;> first | rfl | cases h

theorem Request.moves_of_givesUp {x25519 mlKem} {request : Request}
    (h : request.givesUp x25519 mlKem) : request.moves = false := by
  cases request <;> first | rfl | cases h

theorem abortStaged_still (line : RuntimeLine)
    (unused : Option (StagedSecretHandle .x25519Private)) :
    ((endpoint line provider).abortStaged unused).Only fun request =>
      Request.moves request = false := by
  cases unused with
  | none => trivial
  | some staged => exact ⟨rfl, fun _ => trivial⟩

theorem execute_still {α : Type} {line : RuntimeLine} {current : Snapshot} {plan : Plan α}
    {abandon : Program interface Unit} {adapt : Error → Error} {error : Error}
    {trace : List (Program.Exchange interface World)}
    (habandon : abandon.Only fun request => Request.moves request = false)
    (hadapt : ∀ e, (adapt e).retryable = false → e.retryable = false)
    (hrun : Program.Executes World.Later (handles provider)
      ((endpoint line provider).execute current plan abandon adapt) w trace
      (.done (.error error)) w')
    (hterminal : error.retryable = false) : Still trace := by
  rw [Endpoint.execute] at hrun
  cases hpending : plan.pending with
  | error e =>
    simp only [hpending] at hrun
    refine still_of_only ?_ hrun
    exact Program.Only.bind habandon fun _ => trivial
  | ok pending =>
    simp only [hpending] at hrun
    obtain ⟨result, first, w₁, second, hfirst, hsecond, rfl⟩ :=
      Program.Executes.of_bind World.Later.refl hrun
    cases result with
    | ok u => cases (Program.Executes.of_done hsecond).1
    | error e =>
      cases hretry : e.retryable with
      | true =>
        simp only [hretry, not_true_eq_false, if_false] at hsecond
        cases (Program.Executes.of_done hsecond).1
        rw [hadapt e hterminal] at hretry
        cases hretry
      | false =>
        simp only [hretry, Bool.false_eq_true, not_false_eq_true, if_true] at hsecond
        have hstill := (commit_outcome hfirst).2 e rfl hretry
        refine .append (fun x hx => congrArg World.durable (hstill x hx)) ?_
        refine still_of_only ?_ hsecond
        exact Program.Only.bind habandon fun _ => trivial

theorem load_still : (store.load : Program interface _).Only fun request =>
    Request.moves request = false :=
  ⟨rfl, fun _ => trivial⟩

theorem perform_still {line : RuntimeLine} {operation : Operation} {error : Error}
    {trace : List (Program.Exchange interface World)}
    (hadapt : ∀ e, (operation.adapt e).retryable = false → e.retryable = false)
    (hrun : Program.Executes World.Later (handles provider)
      (operation.program (endpoint line provider)) w trace (.done (.error error)) w')
    (hterminal : error.retryable = false) : Still trace := by
  have habandon := (@Operation.abandon_onlyAsks provider line operation).imp
    fun _ => Request.moves_of_givesUp
  rw [Operation.program_eq_perform, Endpoint.perform] at hrun
  obtain ⟨loaded, first, w₁, second, hfirst, hsecond, rfl⟩ :=
    Program.Executes.of_bind World.Later.refl hrun
  refine .append (still_of_only load_still hfirst) ?_
  cases loaded with
  | error e =>
    refine still_of_only ?_ hsecond
    exact Program.Only.bind habandon fun _ => trivial
  | ok current =>
    obtain ⟨decision, third, w₂, fourth, hthird, hfourth, rfl⟩ :=
      Program.Executes.of_bind World.Later.refl hsecond
    refine .append (still_of_only ((decide_quiet line provider operation current).imp
      fun _ => Request.moves_of_quiet) hthird) ?_
    cases decision with
    | error e =>
      refine still_of_only ?_ hfourth
      exact Program.Only.bind habandon fun _ => trivial
    | ok decision =>
      cases decision with
      | answer value unused =>
        refine still_of_only ?_ hfourth
        exact Program.Only.bind (abortStaged_still line unused) fun _ => trivial
      | commit plan unused =>
        cases unused with
        | none => exact execute_still habandon hadapt hfourth hterminal
        | some staged =>
          obtain ⟨_, fifth, w₃, sixth, hfifth, hsixth, rfl⟩ :=
            Program.Executes.of_bind World.Later.refl hfourth
          refine .append (still_of_only (abortStaged_still line (some staged)) hfifth) ?_
          have hnothing : (pure () : Program interface Unit).Only fun request =>
              Request.moves request = false := trivial
          exact execute_still hnothing hadapt hsixth hterminal

end

/-! ## Runs -/

section

variable {ι : Type} [DecidableEq ι] {provider : Provider}
  {guard : (system provider).Config ι → (system provider).Event ι → Prop}
  {c₀ c c' : (system provider).Config ι} {log : List ((system provider).Event ι)}

def commitsOf (kind : Call → Bool) : (system provider).Event ι → Bool
  | .exchange _ call x => kind call ∧ x.before.durable.revision ≠ x.after.durable.revision
  | _ => false

omit [DecidableEq ι] in
theorem commitsOf_committed (kind : Call → Bool) {i : ι} {line : RuntimeLine}
    {operation : Operation} {x : Program.Exchange interface World}
    (h : operation.Committed provider line x.before x.after) :
    commitsOf kind (.exchange i (Call.operate line operation) x : (system provider).Event ι) =
      kind (.operate line operation) := by
  have hne : x.before.durable.revision ≠ x.after.durable.revision := by
    intro heq
    have hnext := h.revision
    rw [heq] at hnext
    omega
  simp [commitsOf, hne]

theorem exchange_store (hidle : c₀.allIdle) (h : (system provider).Run guard c₀ log c) {i : ι}
    {call : Call} {x : Program.Exchange interface World}
    (hstep : (system provider).Step c (.exchange i call x) c') :
    x.before = c.world ∧ x.after = c'.world ∧
    (x.after.snapshots = x.before.snapshots ∨
      (∃ line operation, call = .operate line operation ∧
        operation.Committed provider line x.before x.after) ∨
      ∃ line service revision id, call = .serve line service ∧
        x.before.Settled revision id x.after) := by
  cases hstep with
  | @exchange _ _ origin w trace request next reply busy handled =>
    refine ⟨rfl, rfl, ?_⟩
    obtain ⟨hpermit, _⟩ := (run_meeting hidle h).1 i call origin trace _ busy c.world (.refl _)
    have hstill := @snapshots_of_handles provider c.world w request reply
    cases request with
    | compareAndSwap expected commit =>
      rcases handled.1 with hsame | hswapped
      · exact .inl (congrArg World.snapshots hsame)
      · cases call with
        | operate line operation =>
          exact .inr (.inl ⟨line, operation, rfl, Operation.committed_of_swapped hpermit hswapped⟩)
        | serve line service => cases hpermit
    | settle revision id =>
      rcases handled.1 with hsame | hsettled
      · exact .inl (congrArg World.snapshots hsame)
      · cases call with
        | operate line operation => cases hpermit
        | serve line service => exact .inr (.inr ⟨line, service, revision, id, rfl, hsettled⟩)
    | _ => exact .inl (hstill rfl handled)

theorem exchange_durable (hidle : c₀.allIdle) (h : (system provider).Run guard c₀ log c) {i : ι}
    {call : Call} {x : Program.Exchange interface World}
    (hstep : (system provider).Step c (.exchange i call x) c') :
    x.before = c.world ∧ x.after = c'.world ∧
    (x.after.durable = x.before.durable ∨
      (∃ line operation, call = .operate line operation ∧
        operation.Committed provider line x.before x.after) ∨
      ∃ line service revision id, call = .serve line service ∧
        x.before.Settled revision id x.after) := by
  obtain ⟨hbefore, hafter, hstore⟩ := exchange_store hidle h hstep
  exact ⟨hbefore, hafter, hstore.imp_left World.durable_of_snapshots⟩

theorem exchange_live (hidle : c₀.allIdle) (h : (system provider).Run guard c₀ log c) {i : ι}
    {call : Call} {x : Program.Exchange interface World}
    (hstep : (system provider).Step c (.exchange i call x) c')
    (hchanged : x.before.durable.state ≠ x.after.durable.state) (highWater : Option Nat) :
    x.before.durable.state.phase ≠ .deleted highWater := by
  obtain ⟨_, _, hsame | ⟨_, _, _, hcommitted⟩ | ⟨_, _, _, _, _, hsettled⟩⟩ :=
    exchange_durable hidle h hstep
  · exact absurd (congrArg Versioned.state hsame.symm) hchanged
  · exact hcommitted.live highWater
  · exact absurd hsettled.state.symm hchanged

theorem surroundings_snapshots {w w' : World} (h : Surroundings w w') :
    w'.snapshots = w.snapshots := by
  cases h <;> rfl

theorem surroundings_durable {w w' : World} (h : Surroundings w w') : w'.durable = w.durable := by
  cases h <;> rfl

/-- A result of a run is backed by a world that the run has gone on from. -/
theorem run_backed (hidle : c₀.allIdle) (h : (system provider).Run guard c₀ log c) {i : ι}
    {call : Call} {trace : List (Program.Exchange interface World)} {result : call.Result}
    {w : World} (hmem : .finish i call trace result w ∈ log) :
    call.Backed provider result w ∧ w.Later c.world := by
  refine ⟨(run_meeting hidle h).2 _ hmem, ?_⟩
  induction h with
  | start => cases hmem
  | step run step guarded ih =>
    cases hmem with
    | head =>
      cases step with
      | finish busy => exact .refl _
    | tail _ hmem => exact (ih hmem).trans (later_of_step step)

/-- What holds of a log and of the world that it has led to: it is enough that commits, settlements
and events that leave the store keep it. -/
theorem run_history {I : List ((system provider).Event ι) → World → Prop} (hidle : c₀.allIdle)
    (hinit : I [] c₀.world)
    (hquiet : ∀ log event w w', I log w → w'.snapshots = w.snapshots →
      (∀ kind, commitsOf kind event = false) → I (event :: log) w')
    (hcommit : ∀ log i line operation x, I log x.before →
      Operation.Committed provider line operation x.before x.after →
      I (.exchange i (.operate line operation) x :: log) x.after)
    (hsettle : ∀ log i line service revision id x, I log x.before →
      x.before.Settled revision id x.after → I (.exchange i (.serve line service) x :: log) x.after)
    (h : (system provider).Run guard c₀ log c) : I log c.world := by
  induction h with
  | start => exact hinit
  | @step log c c' event run step guarded ih =>
    cases step with
    | start call idle => exact hquiet _ _ _ _ ih rfl fun _ => rfl
    | finish busy => exact hquiet _ _ _ _ ih rfl fun _ => rfl
    | surroundings moved => exact hquiet _ _ _ _ ih (surroundings_snapshots moved) fun _ => rfl
    | exchange busy handled =>
      obtain ⟨_, _, hsame | ⟨line, operation, rfl, hcommitted⟩ | ⟨_, _, _, _, rfl, hsettled⟩⟩ :=
        exchange_store hidle run (.exchange busy handled)
      · refine hquiet _ _ _ _ ih hsame fun kind => ?_
        simp [commitsOf, World.durable_of_snapshots hsame]
      · exact hcommit _ _ _ _ _ ih hcommitted
      · exact hsettle _ _ _ _ _ _ _ ih hsettled

theorem run_surroundings {before after : World} (h : (system provider).Run guard c₀ log c)
    (hmem : .surroundings before after ∈ log) : after.durable = before.durable := by
  induction h with
  | start => cases hmem
  | step run step guarded ih =>
    cases hmem with
    | head =>
      cases step with
      | surroundings moved => exact surroundings_durable moved
    | tail _ hmem => exact ih hmem

theorem run_errors (hidle : c₀.allIdle) (h : (system provider).Run guard c₀ log c) {i : ι}
    {line : RuntimeLine} {operation : Operation} {error : Error} {world : World}
    {trace : List (Program.Exchange interface World)}
    (hadapt : ∀ e, (operation.adapt e).retryable = false → e.retryable = false)
    (hmem : .finish i (Call.operate line operation) trace (Except.error error) world ∈ log)
    (hterminal : error.retryable = false) : Still trace := by
  induction h with
  | start => cases hmem
  | step run step guarded ih =>
    cases hmem with
    | head =>
      cases step with
      | finish busy => exact perform_still hadapt (run_executes hidle run busy) hterminal
    | tail _ hmem => exact ih hmem

end

end LicoArc
