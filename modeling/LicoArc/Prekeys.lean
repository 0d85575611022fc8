import LicoArc.Custody
import LicoArc.FirstPacketWire
import LicoArc.Moves
import LicoArc.Verdicts

/-!
# One-time prekeys

The phases of a run are a run of the committed operations on phases alone. In
every such run the admitted pair sequences increase, one first packet is
accepted at most and the high-water mark never falls.
-/

namespace LicoArc

open Backend

/-! ## Runs of phases -/

def Phase.prekeyHighWater : Phase → Option Nat
  | responderReady highWater _ => some highWater
  | established _ _ _ prekeyHighWater _ => prekeyHighWater
  | deleted prekeyHighWater => prekeyHighWater
  | initiatorNew | initiatorAwaiting _ _ _ _ _ => none

theorem deletion_highWater (phase : Phase) :
    (Endpoint.deletion phase).1 = phase.prekeyHighWater := by
  cases phase <;> rfl

/-- The second phase has a mark that is at least the mark of the first. -/
def Phase.KeepsMark (phase phase' : Phase) : Prop :=
  ∀ mark, phase.prekeyHighWater = some mark →
    ∃ mark', phase'.prekeyHighWater = some mark' ∧ mark ≤ mark'

def Phase.ready : Phase → Bool
  | responderReady _ _ => true
  | _ => false

def Phase.accepted : Phase → Option (FixedBytes 32 × SessionAccept)
  | established _ (some digest) (some accept) _ _ => some (digest, accept)
  | _ => none

def Operation.admitted : Operation → Option Nat
  | admitPrekey _ _ pairSequence _ _ _ _ => some pairSequence
  | _ => none

def Operation.accepted : Operation → Option FirstPacket
  | acceptFirstPacket _ _ _ packet => some packet
  | _ => none

/-- The phases that committed operations lead to, the newest operation first. -/
inductive PhaseRun (provider : Provider) (start : Phase) : List Operation → Phase → Prop
  | start : PhaseRun provider start [] start
  | move {operations : List Operation} {operation : Operation} {phase phase' : Phase}
      (run : PhaseRun provider start operations phase)
      (move : PhaseMove provider operation phase phase') :
      PhaseRun provider start (operation :: operations) phase'

section

variable {provider : Provider} {operation : Operation} {phase phase' start : Phase}
  {operations : List Operation}

theorem Phase.KeepsMark.refl (phase : Phase) : phase.KeepsMark phase :=
  fun mark hmark => ⟨mark, hmark, le_refl mark⟩

theorem Phase.KeepsMark.trans {phase'' : Phase} (h : phase.KeepsMark phase')
    (h' : phase'.KeepsMark phase'') : phase.KeepsMark phase'' := by
  intro mark hmark
  obtain ⟨mark', hmark', hle⟩ := h mark hmark
  obtain ⟨mark'', hmark'', hle'⟩ := h' mark' hmark'
  exact ⟨mark'', hmark'', le_trans hle hle'⟩

theorem Operation.not_admitted_of_inSession (h : operation.inSession = true) :
    operation.admitted = none ∧ operation.accepted = none := by
  cases operation <;> first | exact ⟨rfl, rfl⟩ | cases h

theorem PhaseMove.keepsMark (h : PhaseMove provider operation phase phase') :
    phase.KeepsMark phase' := by
  intro mark hmark
  cases h with
  | admits _ hfresh =>
    cases hmark
    exact ⟨_, rfl, le_of_lt hfresh⟩
  | creates => cases hmark
  | verifies => cases hmark
  | deletes =>
    refine ⟨mark, ?_, le_refl mark⟩
    rw [← hmark, Phase.prekeyHighWater, deletion_highWater]
  | _ => exact ⟨mark, hmark, le_refl mark⟩

theorem PhaseMove.admitted (h : PhaseMove provider operation phase phase') {pairSequence : Nat}
    (hadmitted : operation.admitted = some pairSequence) :
    phase'.prekeyHighWater = some pairSequence ∧
      ∃ mark < pairSequence, phase.prekeyHighWater = some mark := by
  cases h with
  | admits _ hfresh =>
    cases hadmitted
    exact ⟨rfl, _, hfresh, rfl⟩
  | continues hkind =>
    rw [(Operation.not_admitted_of_inSession hkind).1] at hadmitted
    cases hadmitted
  | _ => cases hadmitted

theorem PhaseMove.ready (h : PhaseMove provider operation phase phase')
    (hready : phase'.ready = true) : phase.ready = true := by
  cases h with
  | admits => rfl
  | _ => cases hready

theorem PhaseMove.accepted (h : PhaseMove provider operation phase phase') {packet : FirstPacket}
    (haccepted : operation.accepted = some packet) :
    phase.ready = true ∧ phase'.ready = false ∧ ∃ digest accept,
      phase'.accepted = some (digest, accept) ∧ firstPacketDigest provider packet = .ok digest := by
  cases h with
  | accepts _ hdigest =>
    cases haccepted
    exact ⟨rfl, rfl, _, _, rfl, hdigest⟩
  | continues hkind =>
    rw [(Operation.not_admitted_of_inSession hkind).2] at haccepted
    cases haccepted
  | _ => cases haccepted

/-- Only an acceptance or a deletion changes the stored answer. -/
theorem PhaseMove.keepsAccepted (h : PhaseMove provider operation phase phase')
    (hother : operation.accepted = none) :
    phase'.accepted = phase.accepted ∨ ∃ highWater, phase' = .deleted highWater := by
  cases h with
  | accepts => cases hother
  | @continues _ _ _ replay accept =>
    left
    cases replay with
    | none => rfl
    | some digest => cases accept <;> rfl
  | deletes => exact .inr ⟨_, rfl⟩
  | _ => exact .inl rfl

namespace PhaseRun

theorem trans {phase'' : Phase} {later : List Operation}
    (h : PhaseRun provider phase operations phase') (h' : PhaseRun provider phase' later phase'') :
    PhaseRun provider phase (later ++ operations) phase'' := by
  induction h' with
  | start => exact h
  | move _ move ih => exact ih.move move

theorem keepsMark (h : PhaseRun provider start operations phase) : start.KeepsMark phase := by
  induction h with
  | start => exact .refl _
  | move _ move ih => exact ih.trans move.keepsMark

theorem admitted (h : PhaseRun provider start operations phase) :
    (operations.filterMap Operation.admitted).Pairwise (· > ·) ∧
      ∀ pairSequence ∈ operations.filterMap Operation.admitted,
        ∃ mark, phase.prekeyHighWater = some mark ∧ pairSequence ≤ mark := by
  induction h with
  | start => exact ⟨.nil, fun _ h => absurd h List.not_mem_nil⟩
  | @move operations operation phase phase' run move ih =>
    obtain ⟨hdescending, hbelow⟩ := ih
    cases hoperation : operation.admitted with
    | none =>
      rw [List.filterMap_cons_none hoperation]
      refine ⟨hdescending, fun other hother => ?_⟩
      obtain ⟨mark, hmark, hle⟩ := hbelow other hother
      obtain ⟨mark', hmark', hle'⟩ := move.keepsMark mark hmark
      exact ⟨mark', hmark', le_trans hle hle'⟩
    | some pairSequence =>
      obtain ⟨hmark', mark, hlt, hmark⟩ := move.admitted hoperation
      have hless : ∀ other ∈ operations.filterMap Operation.admitted, other < pairSequence := by
        intro other hother
        obtain ⟨mark', hmark', hle⟩ := hbelow other hother
        cases hmark.symm.trans hmark'
        omega
      rw [List.filterMap_cons_some hoperation]
      refine ⟨List.pairwise_cons.mpr ⟨hless, hdescending⟩, fun other hother => ?_⟩
      refine ⟨pairSequence, hmark', ?_⟩
      rcases List.mem_cons.mp hother with rfl | hother
      · exact le_refl _
      · exact le_of_lt (hless other hother)

/-- One first packet is accepted at most, and none can be accepted afterwards. -/
theorem accepted_once (h : PhaseRun provider start operations phase) :
    operations.filterMap Operation.accepted = [] ∨
      (∃ packet, operations.filterMap Operation.accepted = [packet]) ∧ phase.ready = false := by
  induction h with
  | start => exact .inl rfl
  | @move operations operation phase phase' run move ih =>
    cases hoperation : operation.accepted with
    | none =>
      rw [List.filterMap_cons_none hoperation]
      refine ih.imp_right fun ⟨hpacket, hready⟩ => ⟨hpacket, ?_⟩
      by_contra hnot
      rw [move.ready (eq_true_of_ne_false hnot)] at hready
      cases hready
    | some packet =>
      obtain ⟨hready, hready', _⟩ := move.accepted hoperation
      rw [List.filterMap_cons_some hoperation]
      rcases ih with hnone | ⟨_, hnot⟩
      · exact .inr ⟨⟨packet, by rw [hnone]⟩, hready'⟩
      · rw [hready] at hnot
        cases hnot

theorem accepted_packet (h : PhaseRun provider start operations phase)
    (hstart : start.accepted = none) {digest : FixedBytes 32} {accept : SessionAccept}
    (haccepted : phase.accepted = some (digest, accept)) :
    ∃ packet, operations.filterMap Operation.accepted = [packet] ∧
      firstPacketDigest provider packet = .ok digest := by
  induction h with
  | start =>
    rw [hstart] at haccepted
    cases haccepted
  | @move operations operation phase phase' run move ih =>
    cases hoperation : operation.accepted with
    | none =>
      rw [List.filterMap_cons_none hoperation]
      rcases move.keepsAccepted hoperation with hsame | ⟨_, rfl⟩
      · exact ih (hsame.symm.trans haccepted)
      · cases haccepted
    | some packet =>
      obtain ⟨hready, _, _, _, hstored, hdigest⟩ := move.accepted hoperation
      cases haccepted.symm.trans hstored
      refine ⟨packet, ?_, hdigest⟩
      rw [List.filterMap_cons_some hoperation]
      rcases run.accepted_once with hnone | ⟨_, hnot⟩
      · rw [hnone]
      · rw [hready] at hnot
        cases hnot

theorem keepsAccepted (h : PhaseRun provider start operations phase)
    {stored : FixedBytes 32 × SessionAccept} (hstored : start.accepted = some stored) :
    phase.accepted = some stored ∨ ∃ highWater, phase = .deleted highWater := by
  induction h with
  | start => exact .inl hstored
  | @move operations operation phase phase' run move ih =>
    rcases ih with hsame | ⟨highWater, rfl⟩
    · cases hoperation : operation.accepted with
      | none => exact (move.keepsAccepted hoperation).imp_left fun heq => heq.trans hsame
      | some packet =>
        obtain ⟨hready, _⟩ := move.accepted hoperation
        cases phase with
        | responderReady => cases hsame
        | _ => cases hready
    · exact absurd rfl (move.live highWater)

theorem accepts (h : PhaseRun provider start operations phase) {packet : FirstPacket}
    (hpacket : packet ∈ operations.filterMap Operation.accepted) :
    (∃ digest accept, phase.accepted = some (digest, accept) ∧
      firstPacketDigest provider packet = .ok digest) ∨ ∃ highWater,
      phase = .deleted highWater := by
  induction h with
  | start => cases hpacket
  | @move operations operation phase phase' run move ih =>
    cases hoperation : operation.accepted with
    | none =>
      rw [List.filterMap_cons_none hoperation] at hpacket
      rcases ih hpacket with ⟨digest, accept, hstored, hdigest⟩ | ⟨highWater, rfl⟩
      · refine (move.keepsAccepted hoperation).imp_left fun heq => ?_
        exact ⟨digest, accept, heq.trans hstored, hdigest⟩
      · exact absurd rfl (move.live highWater)
    | some packet' =>
      obtain ⟨hready, _, hstored⟩ := move.accepted hoperation
      rw [List.filterMap_cons_some hoperation] at hpacket
      rcases List.mem_cons.mp hpacket with rfl | hpacket
      · exact .inl hstored
      · rcases run.accepted_once with hnone | ⟨_, hnot⟩
        · rw [hnone] at hpacket
          cases hpacket
        · rw [hready] at hnot
          cases hnot

end PhaseRun

end

/-! ## Runs of calls -/

section

variable {ι : Type} [DecidableEq ι] {provider : Provider}
  {guard : (system provider).Config ι → (system provider).Event ι → Prop}
  {c₀ c c' : (system provider).Config ι} {log : List ((system provider).Event ι)}

def committedOperation : (system provider).Event ι → Option Operation
  | .exchange _ (.operate _ operation) x =>
    if x.before.durable.revision = x.after.durable.revision then none else some operation
  | _ => none

def committedOperations (log : List ((system provider).Event ι)) : List Operation :=
  log.filterMap committedOperation

omit [DecidableEq ι] in
theorem committedOperation_quiet {event : (system provider).Event ι}
    (h : ∀ kind, commitsOf kind event = false) : committedOperation event = none := by
  unfold committedOperation
  split
  · have hall := h fun _ => true
    simp only [commitsOf, true_and, decide_eq_false_iff_not, not_not] at hall
    rw [if_pos hall]
  · rfl

omit [DecidableEq ι] in
theorem committedOperation_committed {i : ι} {line : RuntimeLine} {operation : Operation}
    {x : Program.Exchange interface World}
    (h : operation.Committed provider line x.before x.after) :
    committedOperation (.exchange i (.operate line operation) x : (system provider).Event ι) =
      some operation := by
  have hne : x.before.durable.revision ≠ x.after.durable.revision := by
    intro heq
    have hnext := h.revision
    rw [heq] at hnext
    omega
  exact if_neg hne

/-- The phases of a world as runs of operations: of the durable snapshot, of every older one, and
between any two. -/
structure Phased (provider : Provider) (start : Phase) (operations : List Operation) (w : World) :
    Prop where
  durable : PhaseRun provider start operations w.durable.state.phase
  earlier (snapshot : Snapshot) : snapshot ∈ w.snapshots.entries →
    ∃ earlier, earlier <:+ operations ∧ PhaseRun provider start earlier snapshot.state.phase
  ordered : w.snapshots.entries.Pairwise fun newer older =>
    ∃ between, PhaseRun provider older.state.phase between newer.state.phase

omit [DecidableEq ι] in
theorem Phased.advance {start : Phase} {operations later : List Operation} {w w' : World}
    (h : Phased provider start operations w)
    (hentries : w'.snapshots.entries = w'.durable :: w.snapshots.entries)
    (hlater : PhaseRun provider w.durable.state.phase later w'.durable.state.phase) :
    Phased provider start (later ++ operations) w' where
  durable := h.durable.trans hlater
  earlier snapshot hmem := by
    rw [hentries] at hmem
    rcases List.mem_cons.mp hmem with rfl | hmem
    · exact ⟨_, List.suffix_refl _, h.durable.trans hlater⟩
    · obtain ⟨earlier, hsuffix, hrun⟩ := h.earlier snapshot hmem
      exact ⟨earlier, hsuffix.trans (List.suffix_append _ _), hrun⟩
  ordered := by
    rw [hentries]
    refine List.pairwise_cons.mpr ⟨fun older holder => ?_, h.ordered⟩
    rcases List.mem_cons.mp holder with rfl | holder
    · exact ⟨_, hlater⟩
    · obtain ⟨between, hrun⟩ := (List.pairwise_cons.mp h.ordered).1 older holder
      exact ⟨_, hrun.trans hlater⟩

omit [DecidableEq ι] in
theorem Phased.stored_unique {start : Phase} {operations : List Operation} {w : World}
    (h : Phased provider start operations w) {snapshot other : Snapshot}
    (hsnapshot : snapshot ∈ w.snapshots.entries) {stored stored' : FixedBytes 32 × SessionAccept}
    (hstored : snapshot.state.phase.accepted = some stored)
    (hother : other ∈ w.snapshots.entries)
    (hstored' : other.state.phase.accepted = some stored') : stored = stored' := by
  have hordered : w.snapshots.entries.Pairwise fun newer older => ∀ first second,
      newer.state.phase.accepted = some first → older.state.phase.accepted = some second →
        first = second := by
    refine h.ordered.imp fun ⟨_, hrun⟩ first second hfirst hsecond => ?_
    rcases hrun.keepsAccepted hsecond with hsame | ⟨_, hdeleted⟩
    · exact Option.some.inj (hfirst.symm.trans hsame)
    · rw [hdeleted] at hfirst
      cases hfirst
  refine hordered.forall_of_forall_of_flip ?_ ?_ hsnapshot hother stored stored' hstored hstored'
  · exact fun _ _ first second hfirst hsecond => Option.some.inj (hfirst.symm.trans hsecond)
  · exact hordered.imp fun hsame first second hfirst hsecond =>
      (hsame second first hsecond hfirst).symm

omit [DecidableEq ι] in
theorem Phased.stored_newest {start : Phase} {operations : List Operation} {w : World}
    (h : Phased provider start operations w) {snapshot : Snapshot}
    (hsnapshot : snapshot ∈ w.snapshots.entries) {stored : FixedBytes 32 × SessionAccept}
    (hstored : snapshot.state.phase.accepted = some stored) :
    w.durable.state.phase.accepted = some stored ∨
      ∃ highWater, w.durable.state.phase = .deleted highWater := by
  rcases List.mem_cons.mp hsnapshot with rfl | hsnapshot
  · exact .inl hstored
  · obtain ⟨_, hrun⟩ := (List.pairwise_cons.mp h.ordered).1 snapshot hsnapshot
    exact hrun.keepsAccepted hstored

/-- The phases of a run are those of its committed operations. -/
theorem run_phased (hidle : c₀.allIdle) (hgenesis : c₀.world.Genesis)
    (h : (system provider).Run guard c₀ log c) :
    Phased provider c₀.world.durable.state.phase (committedOperations log) c.world := by
  refine run_history (I := fun log w => Phased provider c₀.world.durable.state.phase
    (committedOperations log) w) hidle ?_ ?_ ?_ ?_ h
  · have hentries : c₀.world.snapshots.entries = [c₀.world.durable] := by
      rcases hgenesis.entries with h | h
      · rw [h, World.durable, (List.cons.inj h).1]
      · rw [h, World.durable, (List.cons.inj h).1]
    refine ⟨.start, fun snapshot hmem => ?_, ?_⟩
    · rw [hentries, List.mem_singleton] at hmem
      rw [hmem]
      exact ⟨[], List.suffix_refl _, .start⟩
    · rw [hentries]
      exact List.pairwise_singleton _ _
  · intro log event w w' hphased hsame hquiet
    rw [committedOperations, List.filterMap_cons_none (committedOperation_quiet hquiet)]
    obtain ⟨hdurable, hearlier, hordered⟩ := hphased
    rw [← World.durable_of_snapshots hsame] at hdurable
    rw [← hsame] at hearlier hordered
    exact ⟨hdurable, hearlier, hordered⟩
  · intro log i line operation x hphased hcommitted
    rw [committedOperations,
      List.filterMap_cons_some (committedOperation_committed hcommitted)]
    refine hphased.advance ?_ (.move .start hcommitted.phaseMove)
    obtain ⟨_, _, _, _, _, hworld⟩ := hcommitted.planned
    rw [hworld]
    rfl
  · intro log i line service revision id x hphased hsettled
    have hentries : x.after.snapshots.entries =
        x.after.durable :: x.before.snapshots.entries := by
      rw [hsettled.advanced]
      rfl
    have hstate : PhaseRun provider x.before.durable.state.phase []
        x.after.durable.state.phase := by
      rw [hsettled.state]
      exact .start
    exact hphased.advance hentries hstate

/-- An answer to a first packet is the answer that some snapshot stores for its digest. -/
theorem Operation.Backed.stored {line : RuntimeLine} {initiator : TrustedIdentity}
    {responder : IdentityPublic} {authority : FixedBytes 32} {packet : FirstPacket}
    {accept : SessionAccept} {w : World}
    (h : Operation.Backed provider line (.acceptFirstPacket initiator responder authority packet)
      (.ok accept) w) :
    ∃ snapshot ∈ w.snapshots.entries, ∃ digest,
      snapshot.state.phase.accepted = some (digest, accept) ∧
        firstPacketDigest provider packet = .ok digest := by
  obtain ⟨current, hcurrent, ⟨unused, hanswer⟩ | ⟨plan, pending, hplans, rfl, hmem⟩⟩ := h
  · obtain ⟨_, _, _, _, _, ⟨stored, heq⟩ | ⟨_, heq⟩⟩ :=
      (Endpoint.mayOk_decideAcceptFirstPacket _).mp hanswer
    · cases heq
      exact ⟨current, hcurrent, stored.digest, by rw [stored.phase]; rfl, stored.digested⟩
    · cases heq
  · obtain ⟨unused, hdecided⟩ := hplans.decided
    obtain ⟨_, _, _, _, _, ⟨_, heq⟩ | ⟨acceptance, heq⟩⟩ :=
      (Endpoint.mayOk_decideAcceptFirstPacket _).mp hdecided
    · cases heq
    · cases heq
      exact ⟨_, hmem, _, rfl, acceptance.digested⟩

def Call.packet : Call → Option FirstPacket
  | operate _ operation => operation.accepted
  | serve _ _ => none

def eventPacket : (system provider).Event ι → Option FirstPacket
  | .exchange _ call _ | .finish _ call _ _ _ => call.packet
  | _ => none

omit [DecidableEq ι] in
theorem packet_of_callEvents {i : ι} {call : Call}
    {trace : List (Program.Exchange interface World)} {result : call.Result} {w : World}
    {packet : FirstPacket} (h : packet ∈ (callEvents i call trace result w :
      List ((system provider).Event ι)).filterMap eventPacket) : call.packet = some packet := by
  obtain ⟨event, hevent, hpacket⟩ := List.mem_filterMap.mp h
  rw [callEvents, List.mem_cons, List.mem_append, List.mem_reverse, List.mem_map,
    List.mem_singleton] at hevent
  rcases hevent with rfl | ⟨x, _, rfl⟩ | rfl
  · exact hpacket
  · exact hpacket
  · cases hpacket

/-- What is hashed for the digests of first packets. -/
def digested (packets : List FirstPacket) : Set Bytes :=
  {input | ∃ packet ∈ packets, ∃ encoded, encodeFirstPacket packet = .ok encoded ∧
    input = dHandshakeTranscript ++ encoded}

theorem digested_injOn {packets : List FirstPacket} {packet : FirstPacket}
    (h : ∀ handed ∈ packets, handed = packet) : Set.InjOn provider.sha256 (digested packets) := by
  rintro _ ⟨first, hfirst, encoded, hencoded, rfl⟩ _ ⟨second, hsecond, encoded', hencoded', rfl⟩ _
  rw [h first hfirst] at hencoded
  rw [h second hsecond] at hencoded'
  rw [Except.ok.inj (hencoded.symm.trans hencoded')]

omit [DecidableEq ι] in
theorem packet_of_digest {packets : List FirstPacket}
    (hfree : Set.InjOn provider.sha256 (digested packets)) {packet packet' : FirstPacket}
    (hpacket : packet ∈ packets) (hpacket' : packet' ∈ packets) {digest : FixedBytes 32}
    (h : firstPacketDigest provider packet = .ok digest)
    (h' : firstPacketDigest provider packet' = .ok digest) : packet = packet' := by
  obtain ⟨encoded, hencoded, hdigest⟩ := Except.bind_eq_ok.mp h
  obtain ⟨encoded', hencoded', hdigest'⟩ := Except.bind_eq_ok.mp h'
  have hhash := (Except.ok.inj hdigest).trans (Except.ok.inj hdigest').symm
  have hinput := hfree ⟨packet, hpacket, encoded, hencoded, rfl⟩
    ⟨packet', hpacket', encoded', hencoded', rfl⟩ hhash
  rw [List.append_cancel_left hinput] at hencoded
  have hdecoded := (first_packet_bijection.1 _ _).mpr hencoded
  have hdecoded' := (first_packet_bijection.1 _ _).mpr hencoded'
  exact Except.ok.inj (hdecoded.symm.trans hdecoded')

omit [DecidableEq ι] in
theorem mem_eventPackets_of_accepted {packet : FirstPacket}
    (h : packet ∈ (committedOperations log).filterMap Operation.accepted) :
    packet ∈ log.filterMap eventPacket := by
  obtain ⟨operation, hoperation, haccepted⟩ := List.mem_filterMap.mp h
  obtain ⟨event, hevent, hcommitted⟩ := List.mem_filterMap.mp hoperation
  refine List.mem_filterMap.mpr ⟨event, hevent, ?_⟩
  unfold committedOperation at hcommitted
  split at hcommitted
  · split at hcommitted
    · cases hcommitted
    · cases hcommitted
      exact haccepted
  · cases hcommitted

/-- Prekeys are one-time and never issued again, in every run of any number of instances. -/
theorem prekeys_one_time (hidle : c₀.allIdle) (hgenesis : c₀.world.Genesis)
    (hfree : Set.InjOn provider.sha256 (digested (log.filterMap eventPacket)))
    (h : (system provider).Run guard c₀ log c) :
    ((committedOperations log).filterMap Operation.admitted).Pairwise (· > ·) ∧
    (∀ highWater active, c.world.durable.state.phase = .responderReady highWater active →
      active.WellKept highWater) ∧
    ((committedOperations log).filterMap Operation.accepted).length ≤ 1 ∧
    ((committedOperations log).filterMap Operation.accepted ≠ [] →
      ∀ highWater active, c.world.durable.state.phase ≠ .responderReady highWater active) ∧
    (∀ i line initiator responder authority packet trace accept w,
      .finish i (Call.operate line (.acceptFirstPacket initiator responder authority packet)) trace
        (Except.ok accept) w ∈ log →
      (committedOperations log).filterMap Operation.accepted = [packet] ∧
      (∃ snapshot ∈ c.world.snapshots.entries, ∃ stored,
        snapshot.state.phase.accepted = some stored) ∧
      ∀ snapshot ∈ c.world.snapshots.entries, ∀ stored,
        snapshot.state.phase.accepted = some stored → stored.2 = accept) ∧
    c.world.snapshots.entries.Pairwise fun newer older =>
      older.state.phase.KeepsMark newer.state.phase := by
  have hphased := run_phased hidle hgenesis h
  have honce := hphased.durable.accepted_once
  refine ⟨hphased.durable.admitted.1, (run_conserved hidle hgenesis h).wellKept, ?_, ?_, ?_, ?_⟩
  · rcases honce with hnone | ⟨⟨packet, hone⟩, _⟩
    · rw [hnone]
      exact Nat.zero_le _
    · rw [hone]
      exact le_refl _
  · intro haccepted highWater active hphase
    rcases honce with hnone | ⟨_, hready⟩
    · exact haccepted hnone
    · rw [hphase] at hready
      cases hready
  · intro i line initiator responder authority packet trace accept w hmem
    obtain ⟨hbacked, hlater⟩ := run_backed hidle h hmem
    obtain ⟨snapshot, hsnapshot, digest, hstored, hdigest⟩ := Operation.Backed.stored hbacked
    replace hsnapshot := hlater.snapshots.mem hsnapshot
    obtain ⟨earlier, hsuffix, hrun⟩ := hphased.earlier snapshot hsnapshot
    have hstart : c₀.world.durable.state.phase.accepted = none := by
      rcases hgenesis.durable with heq | heq <;> rw [heq] <;> rfl
    obtain ⟨packet', hpacket', hdigest'⟩ := hrun.accepted_packet hstart hstored
    have hmem' : packet' ∈ (committedOperations log).filterMap Operation.accepted :=
      (hsuffix.sublist.filterMap _).subset (hpacket' ▸ List.mem_singleton_self _)
    have hpacket : packet ∈ log.filterMap eventPacket :=
      List.mem_filterMap.mpr ⟨_, hmem, rfl⟩
    cases packet_of_digest hfree hpacket (mem_eventPackets_of_accepted hmem') hdigest hdigest'
    refine ⟨?_, ⟨snapshot, hsnapshot, _, hstored⟩, fun other hother stored hother' => ?_⟩
    · rcases honce with hnone | ⟨⟨packet', hone⟩, _⟩
      · rw [hnone] at hmem'
        cases hmem'
      · rw [hone, List.mem_singleton] at hmem'
        rw [hone, hmem']
    · cases hphased.stored_unique hsnapshot hstored hother hother'
      rfl
  · exact hphased.ordered.imp fun ⟨_, hrun⟩ => hrun.keepsMark

end

/-! ## A responder that accepts a first packet -/

namespace Refused

def accepted : Except Error SessionAccept × World :=
  (accept.program (endpoint line provider)).run (serve provider 0) admitted

def isOk {α : Type} : Except Error α → Bool
  | .ok _ => true
  | .error _ => false

theorem accepted_isOk : isOk accepted.1 = true := by
  decide +kernel

theorem accept_packet : (Call.operate line accept).packet = some packet := rfl

theorem admit_packet : (Call.operate line admission).packet = none := rfl

theorem handed_only {trace trace' : List (Program.Exchange interface World)}
    {result : (Call.operate line admission).Result} {result' : (Call.operate line accept).Result}
    {w w' : World} {handed : FirstPacket}
    (h : handed ∈ (callEvents () (Call.operate line accept) trace' result' w' ++
      callEvents () (Call.operate line admission) trace result w :
        List ((system provider).Event Unit)).filterMap eventPacket) : handed = packet := by
  rw [List.filterMap_append, List.mem_append] at h
  rcases h with h | h
  · have hsame := packet_of_callEvents h
    rw [accept_packet] at hsame
    exact (Option.some.inj hsame).symm
  · have hnone := packet_of_callEvents h
    rw [admit_packet] at hnone
    cases hnone

theorem accepted_ok : ∃ answer w, accepted = (.ok answer, w) := by
  have hok := accepted_isOk
  cases haccepted : accepted with
  | mk result w =>
    rw [haccepted] at hok
    cases result with
    | error e => cases hok
    | ok answer => exact ⟨answer, w, rfl⟩

theorem accepted_run {answer : SessionAccept} {w : World} (h : accepted = (.ok answer, w)) :
    ∃ trace trace' result, (system provider).Run (fun _ _ => True) (atRest provider Unit world)
      (callEvents () (Call.operate line accept) trace' (Except.ok answer) w ++
        callEvents () (Call.operate line admission) trace result admitted)
        (atRest provider Unit w) := by
  have hadmits : ((Call.operate line admission).program provider).Plays (serve provider 0) world
      (((Call.operate line admission).program provider).trace (serve provider 0) world)
      ((admission.program (endpoint line provider)).run (serve provider 0) world).1 admitted :=
    ⟨Prod.mk.eta.symm, rfl⟩
  have haccepts : ((Call.operate line accept).program provider).Plays (serve provider 0)
      admitted (((Call.operate line accept).program provider).trace (serve provider 0) admitted)
      (.ok answer) w := ⟨h, rfl⟩
  exact ⟨_, _, _, run_calls () hadmits haccepts⟩

theorem world_genesis : world.Genesis :=
  World.stocked_genesis (.inr rfl) (by decide)

/-- The packet that is accepted is the one whose acceptance is committed. -/
theorem prekeys_one_time_accepted : ∃ log c trace answer w,
    (system provider).Run (fun _ _ => True) (atRest provider Unit world) log c ∧
    .finish () (Call.operate line accept) trace (Except.ok answer) w ∈ log ∧
    (committedOperations log).filterMap Operation.accepted = [packet] := by
  obtain ⟨answer, w, haccepted⟩ := accepted_ok
  obtain ⟨trace, trace', result, hrun⟩ := accepted_run haccepted
  refine ⟨_, _, trace', answer, w, hrun, List.mem_cons_self, ?_⟩
  exact ((prekeys_one_time (atRest_allIdle world) world_genesis
    (digested_injOn fun _ => handed_only) hrun).2.2.2.2.1 () line ⟨identity, .zero 32⟩ identity
    (.zero 32) packet trace' answer w List.mem_cons_self).1

end Refused

end LicoArc
