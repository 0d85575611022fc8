import LicoArc.RecordExchange
import LicoArc.RecordFraming
import LicoArc.SkippedKeys

/-!
# Runs of one ratchet state

A run of `send`, `bootstrap_responder` and `receive` on one state, with whatever
packets the peer makes. The number of message keys of a `receive` is counted by
a copy of it whose count can be erased.
-/

namespace LicoArc

section

variable {m : Type → Type} [Monad m]

/-! ## The message keys of one record -/

def messageStepCounted (provider : Provider) (chain : Secret) (number : Nat) :
    ExceptT Error (StateT Nat m) MessageStep := do
  tick
  uncounted (lift (messageStep provider chain number))

def retainSkippedCounted (provider : Provider) (dh : FixedBytes 32) :
    (count number : Nat) → Secret → SkippedKeys →
      ExceptT Error (StateT Nat m) (Secret × SkippedKeys)
  | 0, _, chain, skipped => pure (chain, skipped)
  | count + 1, number, chain, skipped => do
    let step ← messageStepCounted provider chain number
    retainSkippedCounted provider dh count (number + 1) step.next
      (skipped.insert (dh, number) (step.key, step.nonce))

namespace RatchetState

def retainPreviousCounted (self : RatchetState) (provider : Provider) (distance : Nat) :
    ExceptT Error (StateT Nat m) SkippedKeys :=
  if distance ≠ 0 then do
    let previousChain ← uncounted (lift (okOr (recordError .staleRatchet) self.receiving))
    let (_, skipped) ← retainSkippedCounted provider self.peerPublic distance self.nr previousChain
      self.skipped
    return skipped
  else return self.skipped

def receiveDhTransitionCounted (self : RatchetState) (provider : Provider) (custody : KeyCustody m)
    (header : RatchetHeader) (freshPrivate : Option (StagedSecretHandle .x25519Private)) :
    ExceptT Error (StateT Nat m) RatchetState := do
  uncounted (lift (reject (header.pn < self.nr ∨ header.pn - self.nr > maxSkipPerRecord)
    (recordError .staleRatchet)))
  let previousDistance := header.pn - self.nr
  uncounted (lift (reject (self.skipped.size + previousDistance > maxSkippedKeys)
    (recordError .skipBound)))
  let freshPrivate ← uncounted (lift (okOr (recordError .invalidTransition) freshPrivate))
  let freshPublic ← uncounted (attempt (custody.x25519Public (.staged freshPrivate))
    fun _ => recordError .recordAuthentication)
  let skipped ← self.retainPreviousCounted provider previousDistance
  let (rootAfterReceive, receiving) ← uncounted (dhStep provider custody self.root
    (.adopted self.localPrivate) header.dh self.sendDirection.opposite self.sessionContext)
  let (rootAfterSend, sending) ← uncounted (dhStep provider custody rootAfterReceive
    (.staged freshPrivate) header.dh self.sendDirection self.sessionContext)
  return { self with
    root := rootAfterSend, peerPublic := header.dh, localPrivate := freshPrivate.adoptedHandle,
    localPublic := freshPublic, receiving := some receiving, sending := some sending,
    pn := self.ns, ns := 0, nr := 0, skipped }

def receiveInChainCounted (self : RatchetState) (provider : Provider) (header : RatchetHeader)
    (headerBytes body : Bytes) : ExceptT Error (StateT Nat m) (RatchetState × Bytes) := do
  if header.n < self.nr then
    uncounted (lift do
      let (key, nonce) ← okOr (recordError .replay) self.skipped[(header.dh, header.n)]?
      let plaintext ← self.openRecord provider key nonce headerBytes body
      return ({ self with skipped := self.skipped.erase (header.dh, header.n) }, plaintext))
  else
    let distance := header.n - self.nr
    uncounted (lift (reject (distance > maxSkipPerRecord ∨
      self.skipped.size + distance > maxSkippedKeys) (recordError .skipBound)))
    let chain ← uncounted (lift (okOr (recordError .staleRatchet) self.receiving))
    let (chain, skipped) ← retainSkippedCounted provider header.dh distance self.nr chain
      self.skipped
    let step ← messageStepCounted provider chain header.n
    uncounted (lift do
      let nextNr ← nextCounter header.n
      let plaintext ← self.openRecord provider step.key step.nonce headerBytes body
      return ({ self with skipped, receiving := some step.next, nr := nextNr }, plaintext))

def receiveCounted (self : RatchetState) (provider : Provider) (custody : KeyCustody m)
    (packet : Bytes) (freshPrivate : Option (StagedSecretHandle .x25519Private)) :
    ExceptT Error (StateT Nat m) (RatchetState × Bytes) := do
  uncounted (lift (reject (packet.length > maxProtectedPacketBytes) (recordError .boundExceeded)))
  let headerLength ← uncounted (lift (ratchetHeaderLength packet))
  let headerBytes := packet.take headerLength
  let body := packet.drop headerLength
  let header ← uncounted (lift (RatchetHeader.decode headerBytes))
  match self.skipped[(header.dh, header.n)]? with
  | some (key, nonce) =>
    let plaintext ← uncounted (lift (self.openRecord provider key nonce headerBytes body))
    return ({ self with skipped := self.skipped.erase (header.dh, header.n) }, plaintext)
  | none =>
    let tentative ←
      if header.dh ≠ self.peerPublic then
        self.receiveDhTransitionCounted provider custody header freshPrivate
      else pure self
    tentative.receiveInChainCounted provider header headerBytes body

end RatchetState

variable {o : Outcomes m} {provider : Provider} {custody : KeyCustody m} {state : RatchetState}

theorem messageStep_counts (chain : Secret) (number : Nat) :
    Counts o 1 (messageStepCounted provider chain number)
      (lift (messageStep provider chain number)) :=
  Counts.tick_bind (Counts.of_uncounted _)

theorem retainSkipped_counts (dh : FixedBytes 32) (count : Nat) :
    ∀ (number : Nat) (chain : Secret) (skipped : SkippedKeys),
      Counts o count (retainSkippedCounted provider dh count number chain skipped)
        (lift (retainSkipped provider dh count number chain skipped)) := by
  induction count with
  | zero => exact fun _ _ _ => Counts.pure _
  | succ count ih =>
    intro number chain skipped
    refine ((messageStep_counts chain number).bind_lift fun step _ => ih _ _ _).mono ?_
    omega

namespace RatchetState

theorem retainPrevious_counts (distance : Nat) :
    Counts o distance (state.retainPreviousCounted provider distance)
      (lift (state.retainPrevious provider distance)) := by
  rw [retainPreviousCounted, retainPrevious]
  split
  · refine ((Counts.of_uncounted _).bind_lift fun chain _ => ?_).mono (Nat.zero_add distance).le
    exact (retainSkipped_counts _ distance _ _ _).bind_lift fun _ _ => Counts.pure _
  · exact (Counts.pure _).mono (by omega)

theorem receiveDhTransition_counts (header : RatchetHeader)
    (fresh : Option (StagedSecretHandle .x25519Private)) :
    Counts o maxSkipPerRecord (state.receiveDhTransitionCounted provider custody header fresh)
      (state.receiveDhTransition provider custody header fresh) := by
  refine ((Counts.of_uncounted _).bind fun _ hstale => ?_).mono (Nat.zero_add _).le
  have hdistance : header.pn - state.nr ≤ maxSkipPerRecord := by
    have hnot := reject_eq_ok.mp ((o.mayOk_lift _ _).mp hstale)
    omega
  refine ((Counts.of_uncounted _).bind fun _ _ => ?_).mono (Nat.zero_add _).le
  refine ((Counts.of_uncounted _).bind fun staged _ => ?_).mono (Nat.zero_add _).le
  refine ((Counts.of_uncounted _).bind fun freshPublic _ => ?_).mono (Nat.zero_add _).le
  refine ((retainPrevious_counts (header.pn - state.nr)).bind fun skipped _ => ?_).mono
    (show header.pn - state.nr + 0 ≤ maxSkipPerRecord from hdistance)
  refine ((Counts.of_uncounted _).bind fun received _ => ?_).mono (Nat.zero_add 0).le
  exact ((Counts.of_uncounted _).bind fun sent _ => Counts.pure _).mono (Nat.zero_add 0).le

theorem receiveInChain_counts (header : RatchetHeader) (headerBytes body : Bytes) :
    Counts o (maxSkipPerRecord + 1) (state.receiveInChainCounted provider header headerBytes body)
      (lift (state.receiveInChain provider header headerBytes body)) := by
  rw [receiveInChainCounted, receiveInChain]
  split
  · exact (Counts.of_uncounted _).mono (by omega)
  · refine ((Counts.of_uncounted _).bind_lift fun _ hbound => ?_).mono (Nat.zero_add _).le
    have hdistance : header.n - state.nr ≤ maxSkipPerRecord := by
      have hnot := reject_eq_ok.mp hbound
      omega
    refine ((Counts.of_uncounted _).bind_lift fun chain _ => ?_).mono (Nat.zero_add _).le
    refine ((retainSkipped_counts _ _ _ _ _).bind_lift fun retained _ => ?_).mono
      (Nat.add_le_add_right hdistance 1)
    exact (messageStep_counts _ _).bind_lift fun step _ => Counts.of_uncounted _

/-- One `receive` derives at most 513 message keys. -/
theorem receive_counts (packet : Bytes) (fresh : Option (StagedSecretHandle .x25519Private)) :
    Counts o 513 (state.receiveCounted provider custody packet fresh)
      (state.receive provider custody packet fresh) := by
  refine ((Counts.of_uncounted _).bind fun _ _ => ?_).mono (Nat.zero_add _).le
  refine ((Counts.of_uncounted _).bind fun length _ => ?_).mono (Nat.zero_add _).le
  refine ((Counts.of_uncounted _).bind fun header _ => ?_).mono (Nat.zero_add _).le
  cases state.skipped[(header.dh, header.n)]? with
  | some retained =>
    exact ((Counts.of_uncounted _).bind fun plaintext _ => Counts.pure _).mono (by decide)
  | none =>
    by_cases hdh : header.dh ≠ state.peerPublic
    · simp only [if_pos hdh]
      exact ((receiveDhTransition_counts header fresh).bind fun _ _ =>
        receiveInChain_counts _ _ _).mono (by decide)
    · simp only [if_neg hdh]
      exact ((Counts.pure _).bind fun _ _ => receiveInChain_counts _ _ _).mono (by decide)

end RatchetState

/-! ## Runs -/

/-- A run on one state, with the public keys that its peer has had, the latest first, and the
coordinates of the records it has accepted. -/
inductive Run (o : Outcomes m) (provider : Provider) (custody : KeyCustody m) :
    RatchetState → List (FixedBytes 32) → List Coordinate → Prop
  | initiator {hybrid : HybridSecrets} {context : FixedBytes 32}
      {localPrivate : SecretHandle .x25519Private} {localPublic peerPublic : FixedBytes 32}
      {state : RatchetState}
      (hstart : RatchetState.initiator provider hybrid context localPrivate localPublic peerPublic =
        .ok state) : Run o provider custody state [state.peerPublic] []
  | responder {hybrid : HybridSecrets} {context : FixedBytes 32}
      {localPrivate : SecretHandle .x25519Private} {localPublic peerPublic : FixedBytes 32}
      {state : RatchetState}
      (hstart : RatchetState.responder provider hybrid context localPrivate localPublic peerPublic =
        .ok state) : Run o provider custody state [state.peerPublic] []
  | send {state next : RatchetState} {peers : List (FixedBytes 32)} {accepted : List Coordinate}
      {plaintext packet : Bytes} (run : Run o provider custody state peers accepted)
      (hsend : state.send provider plaintext = .ok (next, packet)) :
      Run o provider custody next peers accepted
  | bootstrap {state next : RatchetState} {peers : List (FixedBytes 32)}
      {accepted : List Coordinate} {fresh : StagedSecretHandle .x25519Private}
      (run : Run o provider custody state peers accepted)
      (hbootstrap : o.mayOk (state.bootstrapResponder provider custody fresh) next) :
      Run o provider custody next peers accepted
  | receive {state next : RatchetState} {peers : List (FixedBytes 32)} {accepted : List Coordinate}
      {packet plaintext : Bytes} {fresh : Option (StagedSecretHandle .x25519Private)}
      {header : RatchetHeader} (run : Run o provider custody state peers accepted)
      (hheader : recordHeader packet = .ok header)
      (hreceive : o.mayOk (state.receive provider custody packet fresh) (next, plaintext)) :
      Run o provider custody next
        (if next.peerPublic = state.peerPublic then peers else next.peerPublic :: peers)
        ((header.dh, header.n) :: accepted)

/-- What keeps the coordinates apart: those that were retained or accepted belong to a key that the
peer has had, and for its present key lie below the receiving counter. -/
structure Once (state : RatchetState) (peers : List (FixedBytes 32)) (accepted : List Coordinate) :
    Prop where
  current : state.peerPublic ∈ peers
  known : ∀ coordinate, coordinate ∈ state.skipped ∨ coordinate ∈ accepted → coordinate.1 ∈ peers
  below : ∀ coordinate, coordinate ∈ state.skipped ∨ coordinate ∈ accepted →
    coordinate.1 = state.peerPublic → coordinate.2 < state.nr
  apart : ∀ coordinate ∈ state.skipped, coordinate ∉ accepted
  nodup : accepted.Nodup

namespace Once

variable {next : RatchetState} {peers : List (FixedBytes 32)} {accepted : List Coordinate}
  {header : RatchetHeader} {headerBytes body plaintext : Bytes}

theorem start {state : RatchetState} (h : state.skipped = ∅) :
    Once state [state.peerPublic] [] where
  current := List.mem_singleton_self _
  known coordinate hmem := by simp [h] at hmem
  below coordinate hmem := by simp [h] at hmem
  apart coordinate hmem := by simp [h] at hmem
  nodup := List.nodup_nil

/-- An operation that touches neither the peer's key, nor the counter, nor the skipped keys. -/
theorem frame (h : Once state peers accepted) (hpeer : next.peerPublic = state.peerPublic)
    (hnr : next.nr = state.nr) (hskipped : next.skipped = state.skipped) :
    Once next peers accepted := by
  obtain ⟨hcurrent, hknown, hbelow, hapart, hnodup⟩ := h
  constructor
  · rwa [hpeer]
  · rwa [hskipped]
  · rwa [hskipped, hpeer, hnr]
  · rwa [hskipped]
  · exact hnodup

theorem retained (h : Once state peers accepted) {coordinate : Coordinate}
    (hkept : coordinate ∈ state.skipped) :
    Once { state with skipped := state.skipped.erase coordinate } peers
      (coordinate :: accepted) := by
  have hold : ∀ other, other ∈ state.skipped.erase coordinate ∨ other ∈ coordinate :: accepted →
      other ∈ state.skipped ∨ other ∈ accepted := by
    intro other hother
    rcases hother with hmem | hmem
    · exact .inl (Std.ExtTreeMap.mem_of_mem_erase hmem)
    · rcases List.mem_cons.mp hmem with rfl | hmem
      · exact .inl hkept
      · exact .inr hmem
  constructor
  · exact h.current
  · exact fun other hother => h.known other (hold other hother)
  · exact fun other hother => h.below other (hold other hother)
  · intro other hmem hother
    obtain ⟨hne, hmem⟩ := Std.ExtTreeMap.mem_erase.mp hmem
    rcases List.mem_cons.mp hother with rfl | hother
    · exact hne Std.ReflCmp.compare_self
    · exact h.apart other hmem hother
  · exact List.nodup_cons.mpr ⟨h.apart coordinate hkept, h.nodup⟩

/-- A record on the receiving chain is beyond everything that was retained or accepted for the
present key. -/
theorem inChain (h : Once state peers accepted) (hdh : header.dh = state.peerPublic)
    (hn : state.nr ≤ header.n)
    (hchain : state.receiveInChain provider header headerBytes body = .ok (next, plaintext)) :
    Once next peers ((header.dh, header.n) :: accepted) := by
  obtain ⟨hpeer, hnr, _, hskipped⟩ := RatchetState.receiveInChain_spec hn hchain
  have hfresh : ∀ k, state.nr ≤ k → (header.dh, k) ∉ accepted := by
    intro k hk hmem
    have hlt := h.below _ (.inr hmem) hdh
    simp only at hlt
    omega
  constructor
  · rw [hpeer]
    exact h.current
  · intro coordinate hmem
    rcases hmem with hmem | hmem
    · rcases (hskipped coordinate).mp hmem with hold | ⟨heq, _⟩
      · exact h.known coordinate (.inl hold)
      · rw [heq, hdh]
        exact h.current
    · rcases List.mem_cons.mp hmem with rfl | hmem
      · rw [hdh]
        exact h.current
      · exact h.known coordinate (.inr hmem)
  · intro coordinate hmem hcurrent
    rw [hpeer] at hcurrent
    rw [hnr]
    rcases hmem with hmem | hmem
    · rcases (hskipped coordinate).mp hmem with hold | ⟨_, _, hlt⟩
      · have hlt := h.below coordinate (.inl hold) hcurrent
        omega
      · omega
    · rcases List.mem_cons.mp hmem with rfl | hmem
      · exact Nat.lt_succ_self _
      · have hlt := h.below coordinate (.inr hmem) hcurrent
        omega
  · intro coordinate hmem hother
    rcases (hskipped coordinate).mp hmem with hold | ⟨heq, hlow, hhigh⟩
    · rcases List.mem_cons.mp hother with rfl | hother
      · have hlt := h.below _ (.inl hold) hdh
        simp only at hlt
        omega
      · exact h.apart coordinate hold hother
    · obtain ⟨dh, k⟩ := coordinate
      simp only at heq hlow hhigh
      subst heq
      rcases List.mem_cons.mp hother with hsame | hother
      · cases hsame
        omega
      · exact hfresh k hlow hother
  · exact List.nodup_cons.mpr ⟨hfresh header.n hn, h.nodup⟩

/-- A transition to a key that the peer has not had begins a chain of which nothing was accepted. -/
theorem transition (h : Once state peers accepted)
    {fresh : Option (StagedSecretHandle .x25519Private)} (hnew : header.dh ∉ peers)
    (htransition : o.mayOk (state.receiveDhTransition provider custody header fresh) next) :
    Once next (header.dh :: peers) accepted := by
  obtain ⟨hpeer, hnr, _, hskipped⟩ := RatchetState.receiveDhTransition_spec o htransition
  have hknown : ∀ coordinate, coordinate ∈ next.skipped ∨ coordinate ∈ accepted →
      coordinate.1 ∈ peers := by
    intro coordinate hmem
    rcases hmem with hmem | hmem
    · rcases hskipped coordinate hmem with hold | ⟨heq, _⟩
      · exact h.known coordinate (.inl hold)
      · rw [heq]
        exact h.current
    · exact h.known coordinate (.inr hmem)
  constructor
  · rw [hpeer]
    exact List.mem_cons_self
  · exact fun coordinate hmem => List.mem_cons_of_mem _ (hknown coordinate hmem)
  · intro coordinate hmem hcurrent
    rw [hpeer] at hcurrent
    exact absurd (hcurrent ▸ hknown coordinate hmem) hnew
  · intro coordinate hmem hother
    rcases hskipped coordinate hmem with hold | ⟨heq, hlow⟩
    · exact h.apart coordinate hold hother
    · have hlt := h.below coordinate (.inr hother) heq
      omega
  · exact h.nodup

end Once

variable {next : RatchetState} {peers : List (FixedBytes 32)} {accepted : List Coordinate}

theorem mayReceive_of_recordHeader {packet plaintext : Bytes} {header : RatchetHeader}
    {fresh : Option (StagedSecretHandle .x25519Private)}
    (hheader : recordHeader packet = .ok header)
      (h : o.mayOk (state.receive provider custody packet fresh) (next, plaintext)) :
    ∃ headerBytes body, RatchetState.MayReceive o provider custody state header headerBytes body
      fresh next plaintext := by
  obtain ⟨_, length, header', hlength, hdecode, hmay⟩ := (RatchetState.mayOk_receive o).mp h
  rw [recordHeader, hlength, Except.ok_bind, hdecode] at hheader
  cases hheader
  exact ⟨_, _, hmay⟩

theorem receive_skipped_size {packet plaintext : Bytes} {header : RatchetHeader}
    {fresh : Option (StagedSecretHandle .x25519Private)}
    (hheader : recordHeader packet = .ok header)
      (h : o.mayOk (state.receive provider custody packet fresh) (next, plaintext))
    (hsize : state.skipped.size ≤ maxSkippedKeys) : next.skipped.size ≤ maxSkippedKeys := by
  obtain ⟨headerBytes, body, hmay⟩ := mayReceive_of_recordHeader hheader h
  rcases hmay with ⟨_, _, _, rfl⟩ | ⟨_, tentative, htentative, hchain⟩
  · exact (RatchetState.size_erase_le _ _).trans hsize
  · rcases Nat.lt_or_ge header.n tentative.nr with hn | hn
    · obtain ⟨_, _, _, rfl⟩ := (RatchetState.receiveInChain_of_lt hn).mp hchain
      refine (RatchetState.size_erase_le _ _).trans ?_
      rcases htentative with ⟨_, rfl⟩ | ⟨_, htransition⟩
      · exact hsize
      · exact (RatchetState.receiveDhTransition_spec o htransition).2.2.1 hsize
    · exact (RatchetState.receiveInChain_spec hn hchain).2.2.1

theorem Once.receive {packet plaintext : Bytes} {header : RatchetHeader}
    {fresh : Option (StagedSecretHandle .x25519Private)}
    (hheader : recordHeader packet = .ok header)
      (hreceive : o.mayOk (state.receive provider custody packet fresh) (next, plaintext))
    (h : Once state peers accepted)
    (hnew : next.peerPublic ≠ state.peerPublic → next.peerPublic ∉ peers) :
    Once next (if next.peerPublic = state.peerPublic then peers else next.peerPublic :: peers)
      ((header.dh, header.n) :: accepted) := by
  obtain ⟨headerBytes, body, hmay⟩ := mayReceive_of_recordHeader hheader hreceive
  rcases hmay with ⟨kept, hkept, _, rfl⟩ | ⟨hnone, tentative, htentative, hchain⟩
  · rw [if_pos rfl]
    exact h.retained (Std.ExtTreeMap.mem_iff_isSome_getElem?.mpr (by rw [hkept]; rfl))
  rcases htentative with ⟨hdh, rfl⟩ | ⟨hdh, htransition⟩
  · rcases Nat.lt_or_ge header.n tentative.nr with hn | hn
    · obtain ⟨kept, hkept, _⟩ := (RatchetState.receiveInChain_of_lt hn).mp hchain
      rw [hnone] at hkept
      cases hkept
    · rw [if_pos (RatchetState.receiveInChain_spec hn hchain).1]
      exact h.inChain hdh hn hchain
  · obtain ⟨hpeer, hnr, _⟩ := RatchetState.receiveDhTransition_spec o htransition
    have hn : tentative.nr ≤ header.n := by omega
    have hnext : next.peerPublic = header.dh :=
      (RatchetState.receiveInChain_spec hn hchain).1.trans hpeer
    rw [hnext] at hnew ⊢
    rw [if_neg hdh]
    exact (h.transition (hnew hdh) htransition).inChain hpeer.symm hn hchain

theorem Run.once (run : Run o provider custody state peers accepted) (hpeers : peers.Nodup) :
    Once state peers accepted := by
  induction run with
  | initiator hstart | responder hstart =>
    simp only [RatchetState.initiator_eq_ok, RatchetState.responder_eq_ok] at hstart
    obtain ⟨_, _, _, rfl⟩ := hstart
    exact Once.start rfl
  | send run hsend ih =>
    obtain ⟨_, rfl⟩ := RatchetState.send_next hsend
    exact (ih hpeers).frame rfl rfl rfl
  | bootstrap run hbootstrap ih =>
    obtain ⟨_, _, _, rfl⟩ := RatchetState.bootstrapResponder_next o hbootstrap
    exact (ih hpeers).frame rfl rfl rfl
  | @receive state next peers accepted packet plaintext fresh header run hheader hreceive ih =>
    by_cases hsame : next.peerPublic = state.peerPublic
    · rw [if_pos hsame] at hpeers
      exact (ih hpeers).receive hheader hreceive fun hne => absurd hsame hne
    · rw [if_neg hsame] at hpeers
      obtain ⟨hnew, hpeers⟩ := List.nodup_cons.mp hpeers
      exact (ih hpeers).receive hheader hreceive fun _ => hnew

theorem Run.skipped_size (run : Run o provider custody state peers accepted) :
    state.skipped.size ≤ maxSkippedKeys := by
  induction run with
  | initiator hstart | responder hstart =>
    simp only [RatchetState.initiator_eq_ok, RatchetState.responder_eq_ok] at hstart
    obtain ⟨_, _, _, rfl⟩ := hstart
    exact Nat.zero_le _
  | send run hsend ih =>
    obtain ⟨_, rfl⟩ := RatchetState.send_next hsend
    exact ih
  | bootstrap run hbootstrap ih =>
    obtain ⟨_, _, _, rfl⟩ := RatchetState.bootstrapResponder_next o hbootstrap
    exact ih
  | receive run hheader hreceive ih => exact receive_skipped_size hheader hreceive ih

/-- The skipped keys of every run stay bounded, and a coordinate is accepted once as long as the
peer's keys do not repeat. -/
theorem skipped_keys_bounded_once (run : Run o provider custody state peers accepted) :
    state.skipped.size ≤ 1024 ∧
    (∀ (packet : Bytes) (fresh : Option (StagedSecretHandle .x25519Private)),
      Counts o 513 (state.receiveCounted provider custody packet fresh)
        (state.receive provider custody packet fresh)) ∧
    (peers.Nodup → accepted.Nodup) :=
  ⟨run.skipped_size, RatchetState.receive_counts, fun hpeers => (run.once hpeers).nodup⟩

end

namespace FirstRecord

def hybrid : HybridSecrets :=
  ⟨.replicate 32 1, .replicate 32 2, .replicate 12 3, .replicate 32 4⟩

def custody : KeyCustody Id := .ofKeys Widest.provider fun _ => .replicate 32 0

def state : RatchetState :=
  { sessionContext := .replicate 32 1, root := .replicate 32 0, localPrivate := ⟨3⟩,
    localPublic := .replicate 32 4, peerPublic := .replicate 32 5, sending := none,
    receiving := some (.replicate 32 0), sendDirection := .responderToInitiator, pn := 0, ns := 0,
    nr := 0, skipped := ∅ }

theorem start : RatchetState.responder Widest.provider hybrid (.replicate 32 1) ⟨3⟩
    (.replicate 32 4) (.replicate 32 5) = .ok state := rfl

def header (n : Nat) : RatchetHeader := ⟨.replicate 32 5, 0, n⟩

/-- After the record of number 1, with the key of number 0 retained. -/
def ahead : RatchetState :=
  { state with
    receiving := some (.replicate 32 0), nr := 2
    skipped := (∅ : SkippedKeys).insert (.replicate 32 5, 0) (.replicate 32 0, .replicate 12 0) }

def caughtUp : RatchetState := { ahead with skipped := ahead.skipped.erase (.replicate 32 5, 0) }

theorem framed {n : Nat} (hn : n < 2 ^ 32) : ∃ headerBytes, (header n).encode = .ok headerBytes ∧
    (headerBytes ++ ([7] ++ Widest.tag)).length ≤ maxProtectedPacketBytes := by
  obtain ⟨headerBytes, hheader, _, hhigh⟩ :=
    @RatchetHeader.encode_ok (header n) (Nat.two_pow_pos 32) hn
  refine ⟨headerBytes, hheader, ?_⟩
  rw [List.length_append]
  simp only [maxProtectedPacketBytes, Widest.tag, List.length_append, List.length_replicate,
    List.length_singleton]
  omega

theorem receives {before after : RatchetState} {n : Nat} (hn : n < 2 ^ 32)
    (h : ∀ headerBytes, RatchetState.MayReceive Outcomes.value Widest.provider custody before
      (header n) headerBytes ([7] ++ Widest.tag) none after [7]) :
    ∃ packet, recordHeader packet = .ok (header n) ∧
      Outcomes.value.mayOk (before.receive Widest.provider custody packet none) (after, [7]) := by
  obtain ⟨headerBytes, hheader, hsize⟩ := framed hn
  exact ⟨_, recordHeader_framed _ (Nat.two_pow_pos 32) hn hheader,
    (RatchetState.mayOk_receive_framed _ (Nat.two_pow_pos 32) hn hheader hsize).mpr (h headerBytes)⟩

theorem received_ahead : ∃ packet, recordHeader packet = .ok (header 1) ∧
    Outcomes.value.mayOk (state.receive Widest.provider custody packet none) (ahead, [7]) :=
  receives (by decide) fun _ => .inr ⟨Std.ExtTreeMap.getElem?_empty, state, .inl ⟨rfl, rfl⟩,
    (RatchetState.receiveInChain_of_le (Nat.zero_le _)).mpr ⟨by decide, by decide, by decide, _, _,
      _, _, rfl, rfl, rfl, RatchetState.openRecord_eq_ok.mpr rfl, rfl⟩⟩

theorem received_late : ∃ packet, recordHeader packet = .ok (header 0) ∧
    Outcomes.value.mayOk (ahead.receive Widest.provider custody packet none) (caughtUp, [7]) :=
  receives (by decide) fun _ => .inl ⟨_, Std.ExtTreeMap.getElem?_insert_self,
    RatchetState.openRecord_eq_ok.mpr rfl, rfl⟩

end FirstRecord

open FirstRecord in
/-- Two records that arrive in the other order. -/
theorem skipped_keys_bounded_once_reordered : ∃ peers,
    Run Outcomes.value Widest.provider custody caughtUp peers
      [((header 0).dh, 0), ((header 1).dh, 1)] ∧ caughtUp.skipped.size ≤ 1024 ∧
    (∀ packet fresh, Counts Outcomes.value 513
      (caughtUp.receiveCounted Widest.provider custody packet fresh)
      (caughtUp.receive Widest.provider custody packet fresh)) ∧
    [((header 0).dh, 0), ((header 1).dh, 1)].Nodup := by
  obtain ⟨_, hheader, hreceive⟩ := received_ahead
  obtain ⟨_, hheader', hreceive'⟩ := received_late
  have run := ((Run.responder start).receive hheader hreceive).receive hheader' hreceive'
  obtain ⟨hsize, hcounts, honce⟩ := skipped_keys_bounded_once run
  exact ⟨_, run, hsize, hcounts, honce (List.nodup_singleton _)⟩

end LicoArc
