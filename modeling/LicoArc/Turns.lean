import LicoArc.StagedReads

/-!
# Turns of the durable ratchet

What one commit does to the ratchet of the durable phase and to the pending
items. Every later argument about a session looks at a commit only through its
turn.
-/

namespace LicoArc

open Backend

def Phase.ratchet : Phase → Option RatchetState
  | initiatorAwaiting _ _ _ _ ratchet => some ratchet
  | established session _ _ _ _ => some session
  | _ => none

theorem Phase.ratchet_references {phase : Phase} {ratchet : RatchetState}
    (h : phase.ratchet = some ratchet) :
    (Purpose.x25519Private, ratchet.localPrivate.custodyToken) ∈ phase.references := by
  cases phase with
  | initiatorAwaiting =>
    cases h
    exact List.mem_singleton_self _
  | established =>
    cases h
    exact List.mem_singleton_self _
  | _ => cases h

def Operation.payload : Operation → Option Bytes
  | sendRecord plaintext _ => some plaintext
  | applyCompleteCapabilityFlow flow => flow.message.encode.toOption
  | _ => none

def RatchetState.Readied (o : Outcomes (Program interface)) (provider : Provider)
    (session : RatchetState) : Option (StagedSecretHandle .x25519Private) → RatchetState → Prop
  | none, ratchet => ratchet = session
  | some staged, ratchet => o.mayOk (session.bootstrapResponder provider custody staged) ratchet

/-- What a commit of an operation does: the ratchet before it, the items that it makes and the
ratchet after it. -/
inductive Turn (o : Outcomes (Program interface)) (provider : Provider) (operation : Operation) :
    Option RatchetState → List PendingKind → Option RatchetState → Prop
  | offers {staged : StagedSecretHandle .x25519Private} {next : RatchetState}
      (publicKey : o.may (custody.x25519Public (.staged staged)) (.ok next.localPublic))
      (localPrivate : next.localPrivate = staged.adoptedHandle) (pn : next.pn = 0)
      (ns : next.ns = 0) : Turn o provider operation none [] (some next)
  | answers {next : RatchetState} (sending : next.sending = none) (pn : next.pn = 0)
      (ns : next.ns = 0) : Turn o provider operation none [] (some next)
  | keeps {session : RatchetState} : Turn o provider operation (some session) [] (some session)
  | sends {session ratchet next : RatchetState}
      {bootstrap : Option (StagedSecretHandle .x25519Private)} {plaintext packet : Bytes}
      {effects : List Bytes} (carries : operation.payload = some plaintext)
      (ready : session.Readied o provider bootstrap ratchet)
      (sent : ratchet.send provider plaintext = .ok (next, packet)) :
      Turn o provider operation (some session) (.packet packet :: effects.map .effect) (some next)
  | receives {session next : RatchetState} {fresh : Option (StagedSecretHandle .x25519Private)}
      {packet plaintext : Bytes} (delivered : operation = .receiveRecord packet fresh)
      (opened : o.mayOk (session.receive provider custody packet fresh) (next, plaintext)) :
      Turn o provider operation (some session) [.plaintext plaintext] (some next)
  | stops {before : Option RatchetState} : Turn o provider operation before [] none

theorem Turn.silent {o : Outcomes (Program interface)} {provider : Provider}
    {operation : Operation} {before after : Option RatchetState} {made : List PendingKind}
    (h : Turn o provider operation before made after) (hsends : operation.payload = none)
    (hreceives : ∀ packet fresh, operation ≠ .receiveRecord packet fresh) : made = [] := by
  cases h with
  | sends carries => cases hsends.symm.trans carries
  | receives delivered => exact absurd delivered (hreceives _ _)
  | _ => rfl

/-- What becomes of the pending items: new ones are appended, or old ones are dropped. -/
inductive Queues (before : List PendingItem) : List PendingKind → List PendingItem → Prop
  | appends (items : List PendingItem) :
      Queues before (items.map PendingItem.kind) (before ++ items)
  | drops {after : List PendingItem} (kept : after.Sublist before) : Queues before [] after

namespace Queues

variable {before after : List PendingItem} {made : List PendingKind}

theorem refl (pending : List PendingItem) : Queues pending [] pending := .drops (.refl _)

theorem mem (h : Queues before made after) {item : PendingItem} (hitem : item ∈ after) :
    item ∈ before ∨ item.kind ∈ made := by
  cases h with
  | appends items => exact (List.mem_append.mp hitem).imp_right (List.mem_map_of_mem ·)
  | drops kept => exact .inl (kept.subset hitem)

theorem drop_length (h : Queues before made after) :
    (after.drop before.length).map PendingItem.kind = made := by
  cases h with
  | appends items => rw [List.drop_left]
  | drops kept => rw [List.drop_eq_nil_of_le kept.length_le, List.map_nil]

end Queues

theorem World.Settled.queues {w w' : World} {revision : Revision} {id : PendingId}
    (h : w.Settled revision id w') : Queues w.durable.pending [] w'.durable.pending := by
  rw [h.advanced]
  exact .drops List.eraseP_sublist

section

variable {o : Outcomes (Program interface)} {provider : Provider} {line : RuntimeLine}
  {operation : Operation} {current : Snapshot} {pending : List PendingItem}

theorem Operation.turn {plan : Plan operation.Value}
    {unused : Option (StagedSecretHandle .x25519Private)}
    (h : o.mayOk (operation.decide (endpoint line provider) current) (.commit plan unused))
    (hpending : plan.pending = .ok pending) :
    ∃ made, Queues current.pending made pending ∧
      Turn o provider operation current.state.phase.ratchet made plan.next.phase.ratchet := by
  cases operation with
  | admitPrekey =>
    obtain ⟨_, heq⟩ := Endpoint.mayOk_decideAdmitPrekey _ h
    cases heq
    cases hpending
    exact ⟨[], .refl _, .stops⟩
  | acceptFirstPacket =>
    obtain ⟨_, _, _, _, _, ⟨_, heq⟩ | ⟨acceptance, heq⟩⟩ :=
      (Endpoint.mayOk_decideAcceptFirstPacket _).mp h
    · cases heq
    · cases heq
      cases hpending
      obtain ⟨_, _, _, hmade⟩ := RatchetState.responder_eq_ok.mp acceptance.answers
      refine ⟨[], .refl _, ?_⟩
      rw [acceptance.phase]
      exact .answers (by rw [hmade]) (by rw [hmade]) (by rw [hmade])
  | createFirstPacket =>
    obtain ⟨_, _, _, _, _, ⟨_, heq⟩ | ⟨hphase, creation, heq⟩⟩ :=
      (Endpoint.mayOk_decideCreateFirstPacket _).mp h
    · cases heq
    · cases heq
      cases hpending
      obtain ⟨_, _, _, hmade⟩ := RatchetState.initiator_eq_ok.mp creation.offers
      refine ⟨[], .refl _, ?_⟩
      rw [hphase]
      exact .offers (hmade ▸ creation.x25519Read) creation.localPrivate (by rw [hmade])
        (by rw [hmade])
  | verifySessionAccept =>
    obtain ⟨verification, heq⟩ := (Endpoint.mayOk_decideVerifySessionAccept _).mp h
    cases heq
    cases hpending
    refine ⟨[], .refl _, ?_⟩
    rw [verification.phase]
    exact .keeps
  | sendRecord plaintext bootstrap =>
    obtain ⟨_, sending, heq⟩ := Endpoint.mayOk_decideSendRecord _ h
    cases heq
    cases hpending
    refine ⟨_, .appends _, ?_⟩
    rw [sending.phase]
    have hratchet := sending.readied
    cases bootstrap with
    | none =>
      have hsame := (Outcomes.mayOk_pure _ _ _).mp hratchet
      exact @Turn.sends _ _ (.sendRecord plaintext none) _ _ _ none _ _ [] rfl hsame sending.sent
    | some staged =>
      exact @Turn.sends _ _ (.sendRecord plaintext (some staged)) _ _ _ (some staged) _ _ [] rfl
        hratchet sending.sent
  | receiveRecord packet fresh =>
    obtain ⟨_, receipt, heq⟩ := Endpoint.mayOk_decideReceiveRecord _ h
    cases heq
    obtain ⟨item, hitem, heq⟩ := Except.bind_eq_ok.mp hpending
    cases heq
    cases PendingItem.bounded_eq_ok hitem
    refine ⟨_, .appends _, ?_⟩
    rw [receipt.phase]
    exact .receives rfl receipt.received
  | bootstrapCapabilities =>
    obtain ⟨established, heq⟩ := Endpoint.mayOk_decideBootstrapCapabilities _ h
    cases heq
    cases hpending
    refine ⟨[], .refl _, ?_⟩
    rw [established.phase]
    exact .keeps
  | applyCompleteCapabilityFlow flow =>
    obtain ⟨_, application, heq⟩ := Endpoint.mayOk_decideApplyCompleteCapabilityFlow _ h
    cases heq
    cases hpending
    obtain ⟨plaintext, hencode, hsend⟩ := application.reduction.sends
    refine ⟨_, .appends _, ?_⟩
    rw [application.phase]
    have hpayload : (Operation.applyCompleteCapabilityFlow flow).payload = some plaintext := by
      rw [Operation.payload, hencode]
      rfl
    exact @Turn.sends _ _ (.applyCompleteCapabilityFlow flow) _ _ _ none _ _ [application.effect]
      hpayload rfl hsend
  | deleteSession =>
    obtain ⟨_, heq⟩ := Endpoint.mayOk_decideDeleteSession _ h
    cases heq
    cases hpending
    exact ⟨[], .drops (List.nil_sublist _), .stops⟩

end

end LicoArc
