import LicoArc.Prekeys

/-!
# The accepted first packet again

A session keeps the digest of its first packet and the answer to it. As long as
the session lasts the same packet gets the same answer, any other packet is
refused, and neither changes anything.
-/

namespace LicoArc

open Backend

def prekeyConsumed : Error := .terminal .prekeyConsumed .validation

def Request.answers : (request : Request) → Reply request → Bool
  | .load, .ok _ => true
  | .now, .ok _ => true
  | _, _ => false

def answered : Outcomes (Program interface) :=
  @Program.outcomes interface fun request reply => Request.answers request reply = true

def anything : Outcomes (Program interface) := @Program.outcomes interface fun _ _ => True

section

variable {m : Type → Type} [Monad m] (o : Outcomes m) {self : Endpoint m}
  {initiatorIdentity : TrustedIdentity} {responderIdentity : IdentityPublic}
  {authority : FixedBytes 32} {packet : FirstPacket} {clock : Clock m} {current : Snapshot}
  {digest : FixedBytes 32} {accept : SessionAccept}

theorem Phase.accepted_eq_some {phase : Phase} :
    phase.accepted = some (digest, accept) ↔ ∃ session highWater capabilities,
      phase = .established session (some digest) (some accept) highWater capabilities := by
  constructor
  · intro h
    unfold Phase.accepted at h
    split at h
    · cases h
      exact ⟨_, _, _, rfl⟩
    · cases h
  · rintro ⟨_, _, _, rfl⟩
    rfl

theorem decided_replay (hstored : current.state.phase.accepted = some (digest, accept))
    {decision : Decision SessionAccept}
    (h : o.mayOk (self.decideAcceptFirstPacket initiatorIdentity responderIdentity authority packet
      clock current) decision) :
    decision = .answer accept none ∧ firstPacketDigest self.provider packet = .ok digest := by
  obtain ⟨_, _, _, hphase⟩ := Phase.accepted_eq_some.mp hstored
  obtain ⟨_, _, _, _, _, ⟨stored, rfl⟩ | ⟨acceptance, _⟩⟩ :=
    (Endpoint.mayOk_decideAcceptFirstPacket o).mp h
  · obtain ⟨_, _, _, _, _, hphase', hdigest⟩ := stored
    cases hphase.symm.trans hphase'
    exact ⟨rfl, hdigest⟩
  · cases hphase.symm.trans acceptance.phase

theorem firstPacketDigest_total (provider : Provider)
    (hshape : validateFirstPacketShape packet = .ok ()) :
    ∃ digest, firstPacketDigest provider packet = .ok digest := by
  obtain ⟨encoded, hencoded⟩ := first_packet_bijection.2 packet hshape
  exact ⟨_, Except.bind_eq_ok.mpr ⟨encoded, hencoded, rfl⟩⟩

/-- With arguments that are fit a decision on an accepted session fails for another packet only. -/
theorem refused_replay (hstored : current.state.phase.accepted = some (digest, accept))
    (hidentity : responderIdentity.mlDsa65Public.length = mlDsa65PublicKeyBytes)
    (hshape : validateFirstPacketShape packet = .ok ())
    (hprofile : initiatorIdentity.protectionProfileId = self.line.protectionProfileId)
    (hclock : ∀ e, ¬o.may clock.nowUnixSeconds (.error e)) {e : Error}
    (h : o.mayFail (self.decideAcceptFirstPacket initiatorIdentity responderIdentity
      authority packet clock current) e) :
    e = prekeyConsumed ∧ firstPacketDigest self.provider packet ≠ .ok digest := by
  obtain ⟨_, _, _, hphase⟩ := Phase.accepted_eq_some.mp hstored
  obtain ⟨digest', hdigest⟩ := firstPacketDigest_total self.provider hshape
  have hlive : ensureLive current.state = .ok () := by
    rw [ensureLive, hphase]
  have hidentity' : validateIdentityShape responderIdentity = .ok () :=
    validateIdentityShape_eq_ok.mpr hidentity
  have hline : initiatorIdentity.forLine self.line = .ok initiatorIdentity.identity := by
    rw [TrustedIdentity.forLine, hprofile, reject_of_not _ (not_not.mpr rfl)]
    rfl
  simp only [Endpoint.decideAcceptFirstPacket, hphase, hlive, hidentity', hshape, hline, hdigest,
    Outcomes.mayFail_bind, Outcomes.mayFail_lift, Outcomes.mayOk_lift, Outcomes.mayFail_pure,
    reduceCtorEq, and_false, exists_false, or_false, false_or, exists_const, Except.ok.injEq,
    exists_eq_left', reject_eq_error] at h
  obtain ⟨-, -, -, hfail | ⟨_, _, hne, rfl⟩⟩ := h
  · exact absurd hfail (hclock e)
  · refine ⟨rfl, fun heq => ?_⟩
    rw [hdigest] at heq
    exact hne (Except.ok.inj heq).symm

end

/-! ## A call on an accepted session -/

def Lasts (stored : FixedBytes 32 × SessionAccept) (w w' : World) : Prop :=
  w.durable.state.phase.accepted = some stored → w'.durable.state.phase.accepted = some stored

section

variable {provider : Provider} {line : RuntimeLine} {initiatorIdentity : TrustedIdentity}
  {responderIdentity : IdentityPublic} {authority digest : FixedBytes 32} {packet : FirstPacket}
  {accept : SessionAccept} {w w' : World} {trace : List (Program.Exchange interface World)}
  {result : Except Error SessionAccept}

theorem Lasts.refl (stored : FixedBytes 32 × SessionAccept) (w : World) : Lasts stored w w := id

theorem after_of_quiet {request : Request} {reply : Reply request} (hquiet : request.quiet)
    (h : handles provider w request reply w') : w' = w := by
  cases request <;> first | exact h.1 | cases hquiet

/-- What an acceptance reads of an accepted session decides its result, and it changes nothing. -/
theorem executes_replay (hstored : w.durable.state.phase.accepted = some (digest, accept))
    (hrun : Program.Executes (Lasts (digest, accept)) (handles provider)
      ((Operation.acceptFirstPacket initiatorIdentity responderIdentity authority packet).program
        (endpoint line provider)) w trace (.done result) w') :
    (∀ x ∈ trace, x.after = x.before) ∧
    (responderIdentity.mlDsa65Public.length = mlDsa65PublicKeyBytes →
      validateFirstPacketShape packet = .ok () →
      initiatorIdentity.protectionProfileId = line.protectionProfileId →
      (∀ x ∈ trace, Request.answers x.request x.reply = true) →
      (firstPacketDigest provider packet = .ok digest → result = .ok accept) ∧
      (firstPacketDigest provider packet ≠ .ok digest → result = .error prekeyConsumed)) := by
  rw [Operation.program_eq_perform, Endpoint.perform] at hrun
  obtain ⟨loaded, first, w₁, second, hfirst, hsecond, rfl⟩ :=
    Program.Executes.of_bind (Lasts.refl _) hrun
  obtain ⟨w₂, w₃, hlater, ⟨rfl, hloaded⟩, hlater', rfl⟩ := Program.Executes.of_perform hfirst
  cases loaded with
  | error e =>
    obtain ⟨_, rfl, _⟩ := Program.Executes.of_done hsecond
    refine ⟨fun x hx => ?_, fun _ _ _ hanswers => ?_⟩
    · rw [List.mem_singleton.mp hx]
    · cases hanswers _ (List.mem_singleton_self _)
  | ok current =>
    have hcurrent : current.state.phase.accepted = some (digest, accept) := by
      rw [hloaded current rfl]
      exact hlater hstored
    obtain ⟨decision, third, w₄, fourth, hthird, hfourth, rfl⟩ :=
      Program.Executes.of_bind (Lasts.refl _) hsecond
    have hquiet := Program.Executes.only (decide_quiet line provider
      (.acceptFirstPacket initiatorIdentity responderIdentity authority packet) current) hthird
    have hsame : ∀ x ∈ third, x.after = x.before :=
      fun x hx => after_of_quiet (hquiet x hx) (hthird.handled x hx)
    have hstays : ∀ x ∈ [⟨w₃, Request.load, Except.ok current, w₃⟩] ++ (third ++ []),
        x.after = x.before := by
      rw [List.append_nil]
      exact List.forall_mem_cons.mpr ⟨rfl, hsame⟩
    cases decision with
    | error e =>
      obtain ⟨rfl, rfl, _⟩ := Program.Executes.of_done hfourth
      refine ⟨hstays, fun hidentity hshape hprofile hanswers => ?_⟩
      have hfails : answered.mayFail ((endpoint line provider).decideAcceptFirstPacket
          initiatorIdentity responderIdentity authority packet clock current) e :=
        hthird.yields fun x hx =>
          hanswers x (List.mem_append_right _ (List.mem_append_left _ hx))
      have hclock (e : Error) : ¬answered.may clock.nowUnixSeconds (.error e) := by
        intro hclock
        cases (Program.outcomes_perform _ _ _).mp hclock
      obtain ⟨rfl, hne⟩ := refused_replay answered hcurrent hidentity hshape hprofile hclock hfails
      exact ⟨fun heq => absurd heq hne, fun _ => rfl⟩
    | ok decision =>
      have hdecided : anything.mayOk ((endpoint line provider).decideAcceptFirstPacket
          initiatorIdentity responderIdentity authority packet clock current) decision :=
        hthird.yields fun _ _ => trivial
      obtain ⟨rfl, hdigest⟩ := decided_replay anything hcurrent hdecided
      obtain ⟨rfl, rfl, _⟩ := Program.Executes.of_done hfourth
      exact ⟨hstays, fun _ _ _ _ => ⟨fun _ => rfl, fun hne => absurd hdigest hne⟩⟩

end

section

variable {ι : Type} [DecidableEq ι] {provider : Provider}
  {guard : (system provider).Config ι → (system provider).Event ι → Prop}
  {c₀ c c' : (system provider).Config ι} {log log' : List ((system provider).Event ι)}

theorem run_lasts (hidle : c₀.allIdle) (hgenesis : c₀.world.Genesis)
    (h : (system provider).Run guard c₀ log c) (hlater : (system provider).Run guard c log' c')
    (hlive : ∀ highWater, c'.world.durable.state.phase ≠ .deleted highWater)
    (stored : FixedBytes 32 × SessionAccept) : Lasts stored c.world c'.world := by
  intro hstored
  have hlast := (run_phased hidle hgenesis (h.append hlater)).stored_newest
    ((later_of_run hlater).snapshots.mem c.world.snapshots.newest_mem) hstored
  exact hlast.resolve_right fun ⟨highWater, hphase⟩ => hlive highWater hphase

/-- In every session that has accepted a first packet and is not deleted, the packet gets its first
answer again, any other packet is refused, and the call changes nothing. What may happen during the
call is what a run that does not delete the session does. -/
theorem accept_idempotent (hidle : c₀.allIdle) (hgenesis : c₀.world.Genesis)
    (h : (system provider).Run guard c₀ log c) {accepted : FirstPacket}
    (haccepted : (committedOperations log).filterMap Operation.accepted = [accepted])
    (hlive : ∀ highWater, c.world.durable.state.phase ≠ .deleted highWater) :
    ∃ stored, c.world.durable.state.phase.accepted = some stored ∧
      (∀ c' log', (system provider).Run guard c log' c' →
        (∀ highWater, c'.world.durable.state.phase ≠ .deleted highWater) →
        Lasts stored c.world c'.world) ∧
      (∀ i line initiatorIdentity responderIdentity authority trace answer w,
        .finish i (Call.operate line
          (.acceptFirstPacket initiatorIdentity responderIdentity authority accepted)) trace
          (Except.ok answer) w ∈ log → answer = stored.2) ∧
      ∀ line initiatorIdentity responderIdentity authority packet trace result w',
        Set.InjOn provider.sha256 (digested [accepted, packet]) →
        Program.Executes (Lasts stored) (handles provider)
          ((Operation.acceptFirstPacket initiatorIdentity responderIdentity authority
            packet).program (endpoint line provider)) c.world trace (.done result) w' →
        (∀ x ∈ trace, x.after = x.before) ∧
        (responderIdentity.mlDsa65Public.length = mlDsa65PublicKeyBytes →
          validateFirstPacketShape packet = .ok () →
          initiatorIdentity.protectionProfileId = line.protectionProfileId →
          (∀ x ∈ trace, Request.answers x.request x.reply = true) →
          result = if packet = accepted then .ok stored.2 else .error prekeyConsumed) := by
  have hphased := run_phased hidle hgenesis h
  have hmem : accepted ∈ (committedOperations log).filterMap Operation.accepted :=
    haccepted ▸ List.mem_singleton_self _
  rcases hphased.durable.accepts hmem with ⟨digest, accept, hstored, hdigest⟩ | ⟨highWater, hphase⟩
  · refine ⟨(digest, accept), hstored, fun c' log' hlater hstands => ?_, ?_, ?_⟩
    · exact run_lasts hidle hgenesis h hlater hstands _
    · intro i line initiatorIdentity responderIdentity authority trace answer w hfinish
      obtain ⟨hbacked, hlater⟩ := run_backed hidle h hfinish
      obtain ⟨snapshot, hsnapshot, digest', hstored', hdigest'⟩ := Operation.Backed.stored hbacked
      cases hphased.stored_unique (hlater.snapshots.mem hsnapshot) hstored'
        c.world.snapshots.newest_mem hstored
      rfl
    · intro line initiatorIdentity responderIdentity authority packet trace result w' hfree hrun
      obtain ⟨hstays, hresult⟩ := executes_replay hstored hrun
      refine ⟨hstays, fun hidentity hshape hprofile hanswers => ?_⟩
      obtain ⟨hsame, hother⟩ := hresult hidentity hshape hprofile hanswers
      by_cases hpacket : packet = accepted
      · subst hpacket
        rw [if_pos rfl]
        exact hsame hdigest
      · rw [if_neg hpacket]
        refine hother fun heq => hpacket ?_
        exact packet_of_digest hfree (by simp) (by simp) heq hdigest
  · exact absurd hphase (hlive highWater)

end

/-! ## A responder that is sent its first packet again -/

namespace Refused

theorem accepted_stored : (accepted.2.durable.state.phase.accepted).isSome = true := by
  decide +kernel

theorem accepted_committed {answer : SessionAccept} {w : World}
    {log : List ((system provider).Event Unit)} (haccepted : accepted = (.ok answer, w))
    (hrun : (system provider).Run (fun _ _ => True) (atRest provider Unit world) log
      (atRest provider Unit w)) (hhanded : ∀ handed ∈ log.filterMap eventPacket, handed = packet) :
    (∀ highWater, w.durable.state.phase ≠ .deleted highWater) ∧
    (committedOperations log).filterMap Operation.accepted = [packet] := by
  have hstored := accepted_stored
  rw [haccepted] at hstored
  obtain ⟨⟨digest, stored⟩, hphase⟩ := Option.isSome_iff_exists.mp hstored
  constructor
  · intro highWater hdeleted
    rw [hdeleted] at hphase
    cases hphase
  · obtain ⟨packet', hpacket', _⟩ :=
      (run_phased (atRest_allIdle world) world_genesis hrun).durable.accepted_packet rfl hphase
    rw [hpacket', hhanded packet' (mem_eventPackets_of_accepted
      (hpacket' ▸ List.mem_singleton_self _))]

def again : Except Error SessionAccept × World :=
  (accept.program (endpoint line provider)).run (serve provider 0) accepted.2

def againTrace : List Told :=
  ((Call.operate line accept).program provider).trace (serve provider 0) accepted.2

theorem againTrace_answered :
    (againTrace.all fun x => Request.answers x.request x.reply) = true := by
  decide +kernel

theorem packet_shape : (validateFirstPacketShape packet).toBool = true := by
  decide +kernel

/-- The first packet again gets the answer that it got. -/
theorem accept_idempotent_again :
    ∃ answer w, accepted = (.ok answer, w) ∧ again.1 = .ok answer := by
  obtain ⟨answer, w, haccepted⟩ := accepted_ok
  obtain ⟨trace, trace', result, hrun⟩ := accepted_run haccepted
  obtain ⟨hlive, hcommitted⟩ := accepted_committed haccepted hrun fun _ => handed_only
  obtain ⟨stored, _, _, hanswer, hagain⟩ :=
    accept_idempotent (atRest_allIdle world) world_genesis hrun hcommitted hlive
  have hfirst := hanswer () line ⟨identity, .zero 32⟩ identity (.zero 32) trace' answer w
    List.mem_cons_self
  have hplays : ((Call.operate line accept).program provider).Plays (serve provider 0) w
      againTrace again.1 again.2 := by
    rw [againTrace, again, haccepted]
    exact ⟨Prod.mk.eta.symm, rfl⟩
  have hshape : validateFirstPacketShape packet = .ok () := by
    cases hshape : validateFirstPacketShape packet with
    | ok => rfl
    | error e =>
      have hok := packet_shape
      rw [hshape] at hok
      cases hok
  obtain ⟨_, hresult⟩ := hagain line ⟨identity, .zero 32⟩ identity (.zero 32) packet againTrace
    again.1 again.2 (@digested_injOn _ _ packet (by simp))
    (hplays.executes (handles_serve provider 0) (Lasts.refl stored))
  refine ⟨answer, w, haccepted, ?_⟩
  rw [hresult List.length_replicate hshape rfl (List.all_eq_true.mp againTrace_answered),
    if_pos rfl, hfirst]

/-- A call whose own identity has the wrong shape. -/
def acceptMisshapen : Operation :=
  .acceptFirstPacket ⟨identity, .zero 32⟩ ⟨.zero 32, .zero 32, .zero 32, .zero 32, []⟩ (.zero 32)
    packet

theorem misshapen_fails : isOk
    ((acceptMisshapen.program (endpoint line provider)).run (serve provider 0) accepted.2).1 =
      false := by
  decide +kernel

/-- The first packet again gets no answer in a call that is otherwise unfit. -/
theorem misshapen_not_answered : ∃ log w answer,
    (system provider).Run (fun _ _ => True) (atRest provider Unit world) log
      (atRest provider Unit w) ∧
    (committedOperations log).filterMap Operation.accepted = [packet] ∧
    (∀ highWater, w.durable.state.phase ≠ .deleted highWater) ∧ accepted = (.ok answer, w) ∧
    ((acceptMisshapen.program (endpoint line provider)).run (serve provider 0) w).1 ≠
      .ok answer := by
  obtain ⟨answer, w, haccepted⟩ := accepted_ok
  obtain ⟨trace, trace', result, hrun⟩ := accepted_run haccepted
  obtain ⟨hlive, hcommitted⟩ := accepted_committed haccepted hrun fun _ => handed_only
  refine ⟨_, w, answer, hrun, hcommitted, hlive, haccepted, fun heq => ?_⟩
  have hfails := misshapen_fails
  rw [haccepted] at hfails
  simp only at hfails
  rw [heq] at hfails
  cases hfails

end Refused

end LicoArc
