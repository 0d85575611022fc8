import LicoArc.Numbering
import LicoArc.Turns

/-!
# Record coordinates

Every record that is ever durable has a coordinate, its ratchet key with its
number, and no two records share one. A key is identified by its custody token:
the token of a sender is never taken up again, so the sender numbers its records
under changing keys.
-/

namespace LicoArc

open Backend

/-- An item that was pending at some time. -/
def World.Pended (w : World) (kind : PendingKind) : Prop :=
  ∃ snapshot ∈ w.snapshots.entries, ∃ item ∈ snapshot.pending, item.kind = kind

def World.Carried (w : World) (packet : Bytes) : Prop := w.Pended (.packet packet)

def packetsOf (kinds : List PendingKind) : List Bytes :=
  kinds.filterMap fun kind => match kind with
    | .packet packet => some packet
    | _ => none

theorem mem_packetsOf {kinds : List PendingKind} {packet : Bytes} :
    packet ∈ packetsOf kinds ↔ .packet packet ∈ kinds := by
  rw [packetsOf, List.mem_filterMap]
  constructor
  · rintro ⟨kind, hkind, heq⟩
    cases kind with
    | packet bytes =>
      cases heq
      exact hkind
    | _ => cases heq
  · exact fun hkind => ⟨_, hkind, rfl⟩

theorem packetsOf_sent (packet : Bytes) (effects : List Bytes) :
    packetsOf (.packet packet :: effects.map .effect) = [packet] := by
  induction effects with
  | nil => rfl
  | cons effect effects ih => exact ih

/-- A record with the token of its key and its number. -/
structure NumberedRecord where
  token : Nat
  number : Nat
  packet : Bytes

def NumberedRecord.coordinate (record : NumberedRecord) : Nat × Nat := (record.token, record.number)

def NumberedRecord.Framed (provider : Provider) (w : World) (record : NumberedRecord) : Prop :=
  ∃ publicKey pn, w.PublicOf provider record.token publicKey ∧
    recordHeader record.packet = .ok ⟨publicKey, pn, record.number⟩

/-- The durable ratchet is where its sender has got to. -/
structure Sender (provider : Provider) (w : World) (s : Numbering Nat) (ratchet : RatchetState) :
    Prop where
  ns : ratchet.ns < 2 ^ 32
  pn : ratchet.pn < 2 ^ 32
  current : ratchet.sending ≠ none →
    s.current = some (ratchet.localPrivate.custodyToken, ratchet.ns) ∧
      w.PublicOf provider ratchet.localPrivate.custodyToken ratchet.localPublic

/-- The records of a world, numbered by a run of its sender. -/
structure Numbered (provider : Provider) (w : World) (s : Numbering Nat)
    (records : List NumberedRecord) : Prop where
  run : Numbering.unused.Run (records.map NumberedRecord.coordinate) s
  used {token : Nat} : token ∈ s.used → w.Referenced token
  sender {ratchet : RatchetState} : w.durable.state.phase.ratchet = some ratchet →
    Sender provider w s ratchet
  framed {record : NumberedRecord} : record ∈ records → record.Framed provider w
  carried {packet : Bytes} : w.Carried packet → ∃ record ∈ records, record.packet = packet

section

variable {provider : Provider} {w w' : World} {s : Numbering Nat} {records : List NumberedRecord}
  {operation : Operation} {state : EndpointState} {pending : List PendingItem}
  {mutations : List KeyMutation} {made : List PendingKind}

theorem World.Pended.of_advance {kind : PendingKind}
    (h : (w.advance state pending mutations).Pended kind)
    (hqueues : Queues w.durable.pending made pending) : w.Pended kind ∨ kind ∈ made := by
  obtain ⟨snapshot, hsnapshot, item, hitem, hkind⟩ := h
  rw [World.advance_entries] at hsnapshot
  rcases List.mem_cons.mp hsnapshot with rfl | hold
  · rcases hqueues.mem hitem with hitem | hmade
    · exact .inl ⟨w.durable, History.newest_mem _, item, hitem, hkind⟩
    · exact .inr (hkind ▸ hmade)
  · exact .inl ⟨snapshot, hold, item, hitem, hkind⟩

theorem World.Pended.later {kind : PendingKind} (h : w.Pended kind) (hlater : w.Later w') :
    w'.Pended kind := by
  obtain ⟨snapshot, hsnapshot, hitem⟩ := h
  exact ⟨snapshot, hlater.snapshots.mem hsnapshot, hitem⟩

namespace Numbered

theorem advance (h : Numbered provider w s records) {s' : Numbering Nat}
    (new : List NumberedRecord)
    (hrun : Numbering.unused.Run ((new ++ records).map NumberedRecord.coordinate) s')
    (hqueues : Queues w.durable.pending made pending)
    (hnew : new.map NumberedRecord.packet = packetsOf made)
    (hframed : ∀ record ∈ new, record.Framed provider w)
    (hused : ∀ token ∈ s'.used, token ∈ s.used ∨
      ∃ ratchet, state.phase.ratchet = some ratchet ∧
        ratchet.localPrivate.custodyToken = token)
    (hsender : ∀ ratchet, state.phase.ratchet = some ratchet → Sender provider w s' ratchet) :
    Numbered provider (w.advance state pending mutations) s' (new ++ records) where
  run := hrun
  used {token} hmem := by
    rcases hused token hmem with hold | ⟨ratchet, hratchet, rfl⟩
    · exact (h.used hold).later (w.later_advance _ _ _)
    · exact ⟨_, List.mem_cons_self, .x25519Private, rfl, Phase.ratchet_references hratchet⟩
  sender hratchet :=
    ⟨(hsender _ hratchet).ns, (hsender _ hratchet).pn, (hsender _ hratchet).current⟩
  framed {record} hmem := by
    rcases List.mem_append.mp hmem with hmem | hmem
    · exact hframed record hmem
    · exact h.framed hmem
  carried {packet} hcarried := by
    rcases hcarried.of_advance hqueues with hcarried | hmade
    · obtain ⟨record, hmem, heq⟩ := h.carried hcarried
      exact ⟨record, List.mem_append_right _ hmem, heq⟩
    · rw [← mem_packetsOf, ← hnew] at hmade
      obtain ⟨record, hmem, heq⟩ := List.mem_map.mp hmade
      exact ⟨record, List.mem_append_left _ hmem, heq⟩

theorem silent (h : Numbered provider w s records) {s' : Numbering Nat}
    (hrun : Numbering.unused.Run (records.map NumberedRecord.coordinate) s')
    (hqueues : Queues w.durable.pending made pending) (hmade : packetsOf made = [])
    (hused : ∀ token ∈ s'.used, token ∈ s.used ∨
      ∃ ratchet, state.phase.ratchet = some ratchet ∧
        ratchet.localPrivate.custodyToken = token)
    (hsender : ∀ ratchet, state.phase.ratchet = some ratchet → Sender provider w s' ratchet) :
    ∃ s' new, Numbered provider (w.advance state pending mutations) s' (new ++ records) ∧
      new.map NumberedRecord.packet = packetsOf made :=
  ⟨s', [], h.advance [] hrun hqueues hmade.symm (fun _ hmem => absurd hmem List.not_mem_nil) hused
    hsender, hmade.symm⟩

theorem rekey (h : Numbered provider w s records) (ratchet : RatchetState)
    (hfresh : ¬w.Referenced ratchet.localPrivate.custodyToken)
    (hpublic : w.PublicOf provider ratchet.localPrivate.custodyToken ratchet.localPublic)
    (hns : ratchet.ns < 2 ^ 32) (hpn : ratchet.pn < 2 ^ 32) :
    ∃ s', Numbering.unused.Run (records.map NumberedRecord.coordinate) s' ∧
      (∀ token ∈ s'.used, token ∈ s.used ∨ ratchet.localPrivate.custodyToken = token) ∧
      Sender provider w s' ratchet := by
  refine ⟨⟨insert ratchet.localPrivate.custodyToken s.used,
    some (ratchet.localPrivate.custodyToken, ratchet.ns)⟩, ?_, ?_, hns, hpn, fun _ =>
    ⟨rfl, hpublic⟩⟩
  · exact h.run.step (.rekey fun hmem => hfresh (h.used hmem))
  · intro token hmem
    rcases Set.mem_insert_iff.mp hmem with rfl | hmem
    · exact .inr rfl
    · exact .inl hmem

theorem readied (h : Numbered provider w s records) {session ratchet : RatchetState}
    {bootstrap : Option (StagedSecretHandle .x25519Private)}
    (hsession : w.durable.state.phase.ratchet = some session)
    (hready : session.Readied (Program.outcomes (FreshReads provider w)) provider bootstrap
      ratchet) :
    ∃ s', Numbering.unused.Run (records.map NumberedRecord.coordinate) s' ∧
      (∀ token ∈ s'.used, token ∈ s.used ∨ ratchet.localPrivate.custodyToken = token) ∧
      Sender provider w s' ratchet := by
  have hsender := h.sender hsession
  cases bootstrap with
  | none =>
    cases hready
    exact ⟨s, h.run, fun _ hmem => .inl hmem, hsender⟩
  | some staged =>
    obtain ⟨_, publicKey, hread, hprivate, hpublic, hns, hpn⟩ :=
      RatchetState.mayOk_bootstrapResponder_sender _ hready
    obtain ⟨hof, hfresh⟩ := read_staged hread
    rw [← hprivate] at hof hfresh
    exact h.rekey ratchet hfresh (hpublic ▸ hof) (hns ▸ hsender.ns) (hpn ▸ hsender.pn)

theorem sends (h : Numbered provider w s records) {session ratchet next : RatchetState}
    {bootstrap : Option (StagedSecretHandle .x25519Private)} {plaintext packet : Bytes}
    {effects : List Bytes} (hsession : w.durable.state.phase.ratchet = some session)
    (hready : session.Readied (Program.outcomes (FreshReads provider w)) provider bootstrap
      ratchet)
    (hsend : ratchet.send provider plaintext = .ok (next, packet))
    (hstate : state.phase.ratchet = some next)
    (hqueues : Queues w.durable.pending (.packet packet :: effects.map .effect) pending) :
    ∃ s' new, Numbered provider (w.advance state pending mutations) s' (new ++ records) ∧
      new.map NumberedRecord.packet = packetsOf (.packet packet :: effects.map .effect) := by
  obtain ⟨s', hrun, hused, hsender⟩ := h.readied hsession hready
  obtain ⟨hheader, hprivate, hpublic, hns, hpn⟩ := RatchetState.send_sender hsend hsender.pn
  obtain ⟨_, _, _, _, _, hchain, hbound, _⟩ := RatchetState.send_eq_ok.mp hsend
  obtain ⟨hcurrent, hof⟩ := hsender.current (by rw [hchain]; exact Option.some_ne_none _)
  let record : NumberedRecord := ⟨ratchet.localPrivate.custodyToken, ratchet.ns, packet⟩
  have hnew := (packetsOf_sent packet effects).symm
  refine ⟨⟨s'.used, some (record.token, record.number + 1)⟩, [record],
    h.advance [record] (hrun.step (.number hcurrent)) hqueues hnew ?_ ?_ ?_, hnew⟩
  · intro other hother
    cases List.mem_singleton.mp hother
    exact ⟨ratchet.localPublic, ratchet.pn, hof, hheader⟩
  · intro token hmem
    refine (hused token hmem).imp_right fun htoken => ⟨next, hstate, ?_⟩
    rw [hprivate, htoken]
  · intro other hother
    cases hstate.symm.trans hother
    refine ⟨by omega, by rw [hpn]; exact hsender.pn, fun _ => ?_⟩
    rw [hprivate, hpublic, hns]
    exact ⟨rfl, hof⟩

theorem receives (h : Numbered provider w s records) {session next : RatchetState}
    {fresh : Option (StagedSecretHandle .x25519Private)} {packet plaintext : Bytes}
    (hsession : w.durable.state.phase.ratchet = some session)
    (hreceive : (@Program.outcomes interface (FreshReads provider w)).mayOk
      (session.receive provider custody packet fresh) (next, plaintext))
    (hstate : state.phase.ratchet = some next)
    (hqueues : Queues w.durable.pending [.plaintext plaintext] pending) :
    ∃ s' new, Numbered provider (w.advance state pending mutations) s' (new ++ records) ∧
      new.map NumberedRecord.packet = packetsOf [.plaintext plaintext] := by
  have hsender := h.sender hsession
  rcases RatchetState.mayOk_receive_sender _ hreceive with
    hsame | ⟨staged, publicKey, _, hread, hprivate, hpublic, hns, hpn⟩
  · refine h.silent h.run hqueues rfl (fun _ hmem => .inl hmem) fun other hother => ?_
    cases hstate.symm.trans hother
    refine ⟨by rw [hsame.ns]; exact hsender.ns, by rw [hsame.pn]; exact hsender.pn, ?_⟩
    rw [hsame.sending, hsame.localPrivate, hsame.localPublic, hsame.ns]
    exact hsender.current
  · obtain ⟨hof, hfresh⟩ := read_staged hread
    rw [← hprivate] at hof hfresh
    obtain ⟨s', hrun, hused, hnext⟩ := h.rekey next hfresh (hpublic ▸ hof)
      (by rw [hns]; decide) (hpn ▸ hsender.ns)
    refine h.silent hrun hqueues rfl ?_ fun other hother => ?_
    · exact fun token hmem => (hused token hmem).imp_right fun htoken => ⟨next, hstate, htoken⟩
    · cases hstate.symm.trans hother
      exact hnext

/-- Every turn keeps the records numbered. -/
theorem turn (h : Numbered provider w s records)
    (hturn : Turn (Program.outcomes (FreshReads provider w)) provider operation
      w.durable.state.phase.ratchet made state.phase.ratchet)
    (hqueues : Queues w.durable.pending made pending) :
    ∃ s' new, Numbered provider (w.advance state pending mutations) s' (new ++ records) ∧
      new.map NumberedRecord.packet = packetsOf made := by
  generalize hbefore : w.durable.state.phase.ratchet = before at hturn
  generalize hafter : state.phase.ratchet = after at hturn
  cases hturn with
  | @offers staged next publicKey localPrivate pn ns =>
    obtain ⟨hof, hfresh⟩ := read_staged publicKey
    rw [← localPrivate] at hof hfresh
    obtain ⟨s', hrun, hused, hsender⟩ := h.rekey next hfresh hof
      (by rw [ns]; decide) (by rw [pn]; decide)
    refine h.silent hrun hqueues rfl ?_ fun other hother => ?_
    · exact fun token hmem => (hused token hmem).imp_right fun htoken => ⟨next, hafter, htoken⟩
    · cases hafter.symm.trans hother
      exact hsender
  | @answers next sending pn ns =>
    refine h.silent h.run hqueues rfl (fun _ hmem => .inl hmem) fun other hother => ?_
    cases hafter.symm.trans hother
    exact ⟨by rw [ns]; decide, by rw [pn]; decide, fun hsome => absurd sending hsome⟩
  | keeps =>
    refine h.silent h.run hqueues rfl (fun _ hmem => .inl hmem) fun other hother => ?_
    exact h.sender (hbefore.trans (hafter.symm.trans hother))
  | sends carries ready sent => exact h.sends hbefore ready sent hafter hqueues
  | receives delivered opened => exact h.receives hbefore opened hafter hqueues
  | stops =>
    refine h.silent h.run hqueues rfl (fun _ hmem => .inl hmem) fun other hother => ?_
    cases hafter.symm.trans hother

theorem settled (h : Numbered provider w s records) {revision : Revision} {id : PendingId}
    (hsettled : w.Settled revision id w') : Numbered provider w' s records := by
  have hqueues := hsettled.queues
  rw [hsettled.advanced] at hqueues ⊢
  exact h.advance [] h.run hqueues rfl (fun _ hmem => absurd hmem List.not_mem_nil)
    (fun _ hmem => .inl hmem) fun _ hratchet => h.sender hratchet

theorem move (h : Numbered provider w s records) (hsnapshots : w'.snapshots = w.snapshots)
    (hlater : w.Later w') : Numbered provider w' s records where
  run := h.run
  used hmem := (h.used hmem).later hlater
  sender {ratchet} hratchet := by
    rw [World.durable_of_snapshots hsnapshots] at hratchet
    obtain ⟨hns, hpn, hcurrent⟩ := h.sender hratchet
    exact ⟨hns, hpn, fun hsending => (hcurrent hsending).imp_right (·.later hlater)⟩
  framed hmem := by
    obtain ⟨publicKey, pn, hof, hheader⟩ := h.framed hmem
    exact ⟨publicKey, pn, hof.later hlater, hheader⟩
  carried {packet} hcarried := by
    obtain ⟨snapshot, hsnapshot, hitem⟩ := hcarried
    exact h.carried ⟨snapshot, hsnapshots ▸ hsnapshot, hitem⟩

theorem of_genesis (h : w.Genesis) : Numbered provider w .unused [] where
  run := .start
  used hmem := by cases hmem
  sender hratchet := by
    rcases h.durable with heq | heq <;> rw [heq] at hratchet <;> cases hratchet
  framed hmem := by cases hmem
  carried {packet} hcarried := by
    obtain ⟨snapshot, hsnapshot, item, hitem, _⟩ := hcarried
    rcases h.entries with heq | heq <;> rw [heq] at hsnapshot <;>
      cases List.mem_singleton.mp hsnapshot <;> cases hitem

end Numbered

end

/-! ## Runs -/

section

variable {ι : Type} [DecidableEq ι] {provider : Provider}
  {guard : (system provider).Config ι → (system provider).Event ι → Prop}
  {c₀ c c' : (system provider).Config ι} {log : List ((system provider).Event ι)}

def appendedBy : (system provider).Event ι → List PendingKind
  | .exchange _ _ x =>
    (x.after.durable.pending.drop x.before.durable.pending.length).map PendingItem.kind
  | _ => []

omit [DecidableEq ι] in
theorem appendedBy_queues {i : ι} {call : Call} {x : Program.Exchange interface World}
    {made : List PendingKind} (h : Queues x.before.durable.pending made x.after.durable.pending) :
    appendedBy (.exchange i call x : (system provider).Event ι) = made :=
  h.drop_length

/-- The packets that a run has appended to the pending items, the newest first. -/
def sentPackets (log : List ((system provider).Event ι)) : List Bytes :=
  log.flatMap fun event => packetsOf (appendedBy event)

def Recorded (provider : Provider) (w : World) (packets : List Bytes) : Prop :=
  ∃ s records, Numbered provider w s records ∧ records.map NumberedRecord.packet = packets

omit [DecidableEq ι] in
theorem Recorded.silent {w w' : World} {packets : List Bytes} {i : ι} {call : Call}
    {x : Program.Exchange interface World} (h : Recorded provider w packets)
    (hbefore : x.before = w) (hafter : x.after = w') (hsnapshots : w'.snapshots = w.snapshots)
    (hlater : w.Later w') :
    Recorded provider w'
      (packetsOf (appendedBy (.exchange i call x : (system provider).Event ι)) ++ packets) := by
  obtain ⟨s, records, hnumbered, hpackets⟩ := h
  refine ⟨s, records, hnumbered.move hsnapshots hlater, ?_⟩
  have hqueues : Queues x.before.durable.pending [] x.after.durable.pending := by
    rw [hbefore, hafter, World.durable_of_snapshots hsnapshots]
    exact .refl _
  rw [appendedBy_queues hqueues]
  exact hpackets

theorem run_recorded (hidle : c₀.allIdle) (hgenesis : c₀.world.Genesis)
    (hcustody : ∀ {c i call x}, guard c (.exchange i call x) → ChecksStaged x)
    (h : (system provider).Run guard c₀ log c) :
    Recorded provider c.world (sentPackets log) := by
  induction h with
  | start => exact ⟨_, [], .of_genesis hgenesis, rfl⟩
  | @step log c c' event run step guarded ih =>
    rw [sentPackets, List.flatMap_cons]
    have hlater := later_of_step step
    cases event with
    | start i call =>
      cases step with
      | start => exact ih
    | finish =>
      cases step with
      | finish => exact ih
    | surroundings before after =>
      cases step with
      | surroundings moved =>
        obtain ⟨s, records, hnumbered, hpackets⟩ := ih
        exact ⟨s, records, hnumbered.move (surroundings_snapshots moved) hlater, hpackets⟩
    | exchange i call x =>
      obtain ⟨hbefore, hafter, _⟩ := exchange_store hidle run step
      cases exchange_moves_fresh hidle hgenesis hcustody run step with
      | stays hsame => exact ih.silent hbefore hafter (congrArg World.snapshots hsame) hlater
      | gives hgiven => exact ih.silent hbefore hafter (hgiven ▸ rfl) hlater
      | commits hcommitted =>
        obtain ⟨s, records, hnumbered, hpackets⟩ := ih
        obtain ⟨plan, unused, pending, hdecided, hpending, _, _, hadvanced⟩ := hcommitted.planned
        obtain ⟨made, hqueues, hturn⟩ := Operation.turn hdecided hpending
        obtain ⟨s', new, hnew, hmade⟩ := hnumbered.turn hturn hqueues
        have happended : Queues x.before.durable.pending made x.after.durable.pending := by
          rw [hbefore, hafter, hadvanced]
          exact hqueues
        refine ⟨s', new ++ records, hadvanced ▸ hnew, ?_⟩
        rw [List.map_append, hmade, hpackets, appendedBy_queues happended]
        rfl
      | @settles _ _ revision id _ _ hsettled =>
        obtain ⟨s, records, hnumbered, hpackets⟩ := ih
        have happended : Queues x.before.durable.pending [] x.after.durable.pending := by
          rw [hbefore, hafter]
          exact hsettled.queues
        refine ⟨s, records, hnumbered.settled hsettled, ?_⟩
        rw [hpackets, appendedBy_queues happended]
        rfl

/-- Different X25519 keys have different public keys. -/
def World.DistinctPublics (provider : Provider) (w : World) : Prop :=
  ∀ token token' publicKey, w.PublicOf provider token publicKey →
    w.PublicOf provider token' publicKey → token = token'

def recordCoordinate (packet : Bytes) : Except Error (FixedBytes 32 × Nat) := do
  let header ← recordHeader packet
  return (header.dh, header.n)

/-- In every run each packet that was ever pending was sent once, and no two sends use the same
coordinate. -/
theorem coordinates_never_reused (hidle : c₀.allIdle) (hgenesis : c₀.world.Genesis)
    (hcustody : ∀ {c i call x}, guard c (.exchange i call x) → ChecksStaged x)
    (hdistinct : c.world.DistinctPublics provider) (h : (system provider).Run guard c₀ log c) :
    (∀ packet, c.world.Carried packet → packet ∈ sentPackets log) ∧
    (∀ packet ∈ sentPackets log, ∃ coordinate, recordCoordinate packet = .ok coordinate) ∧
    ((sentPackets log).map recordCoordinate).Nodup := by
  obtain ⟨s, records, hnumbered, hpackets⟩ := run_recorded hidle hgenesis hcustody h
  have hframed : ∀ record ∈ records, ∃ publicKey,
      c.world.PublicOf provider record.token publicKey ∧
        recordCoordinate record.packet = .ok (publicKey, record.number) := by
    intro record hrecord
    obtain ⟨publicKey, pn, hof, hheader⟩ := hnumbered.framed hrecord
    refine ⟨publicKey, hof, ?_⟩
    rw [recordCoordinate, hheader]
    rfl
  refine ⟨fun packet hcarried => ?_, fun packet hpacket => ?_, ?_⟩
  · obtain ⟨record, hrecord, rfl⟩ := hnumbered.carried hcarried
    exact hpackets ▸ List.mem_map_of_mem hrecord
  · rw [← hpackets] at hpacket
    obtain ⟨record, hrecord, rfl⟩ := List.mem_map.mp hpacket
    obtain ⟨publicKey, _, hcoordinate⟩ := hframed record hrecord
    exact ⟨_, hcoordinate⟩
  · rw [← hpackets, List.map_map]
    refine List.pairwise_map.mpr ((List.pairwise_map.mp hnumbered.run.nodup).imp_of_mem ?_)
    intro first second hfirst hsecond hne heq
    obtain ⟨publicKey, hof, hcoordinate⟩ := hframed first hfirst
    obtain ⟨publicKey', hof', hcoordinate'⟩ := hframed second hsecond
    obtain ⟨rfl, hnumber⟩ := Prod.mk.inj (Except.ok.inj (hcoordinate.symm.trans (heq.trans
      hcoordinate')))
    exact hne (Prod.ext (hdistinct _ _ _ hof hof') hnumber)

end

end LicoArc
