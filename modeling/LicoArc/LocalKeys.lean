import LicoArc.KeySeparation

/-!
# The local key of a ratchet

Which operations of a ratchet keep its local key and its sending chain, and
what a rotation puts in their place.
-/

namespace LicoArc

namespace RatchetState

variable {m : Type → Type} [Monad m] (o : Outcomes m) {provider : Provider}
  {custody : KeyCustody m} {state next : RatchetState}

/-- Two ratchets with the same local key, at the same place of the same sending chain. -/
structure SameSender (state next : RatchetState) : Prop where
  localPrivate : next.localPrivate = state.localPrivate
  localPublic : next.localPublic = state.localPublic
  sending : next.sending = state.sending
  ns : next.ns = state.ns
  pn : next.pn = state.pn

theorem receiveInChain_sameSender {header : RatchetHeader} {headerBytes body plaintext : Bytes}
    (h : state.receiveInChain provider header headerBytes body = .ok (next, plaintext)) :
    SameSender state next := by
  by_cases hn : header.n < state.nr
  · obtain ⟨_, _, _, rfl⟩ := (receiveInChain_of_lt hn).mp h
    exact ⟨rfl, rfl, rfl, rfl, rfl⟩
  · obtain ⟨_, _, _, _, _, rfl⟩ := receiveInChain_next (not_lt.mp hn) h
    exact ⟨rfl, rfl, rfl, rfl, rfl⟩

/-- A receive keeps the sender, or puts a new chain under the fresh key that it was given. -/
theorem mayOk_receive_sender {packet plaintext : Bytes}
    {fresh : Option (StagedSecretHandle .x25519Private)}
    (h : o.mayOk (state.receive provider custody packet fresh) (next, plaintext)) :
    SameSender state next ∨
      ∃ staged freshPublic, fresh = some staged ∧
        o.may (custody.x25519Public (.staged staged)) (.ok freshPublic) ∧
        next.localPrivate = staged.adoptedHandle ∧ next.localPublic = freshPublic ∧
        next.ns = 0 ∧ next.pn = state.ns := by
  obtain ⟨_, _, header, _, _, hreceive⟩ := (mayOk_receive o).mp h
  rcases hreceive with ⟨_, _, _, rfl⟩ | ⟨_, tentative, htentative, hchain⟩
  · exact .inl ⟨rfl, rfl, rfl, rfl, rfl⟩
  · have hsame := receiveInChain_sameSender hchain
    rcases htentative with ⟨_, rfl⟩ | ⟨_, htransition⟩
    · exact .inl hsame
    · obtain ⟨staged, freshPublic, _, _, _, _, hfresh, hpublic, _, _, rfl⟩ :=
        receiveDhTransition_next o htransition
      exact .inr ⟨staged, freshPublic, hfresh, hpublic, hsame.localPrivate, hsame.localPublic,
        hsame.ns, hsame.pn⟩

theorem mayOk_bootstrapResponder_sender {fresh : StagedSecretHandle .x25519Private}
    (h : o.mayOk (state.bootstrapResponder provider custody fresh) next) :
    state.sending = none ∧ ∃ freshPublic,
      o.may (custody.x25519Public (.staged fresh)) (.ok freshPublic) ∧
      next.localPrivate = fresh.adoptedHandle ∧ next.localPublic = freshPublic ∧
      next.ns = state.ns ∧ next.pn = state.pn := by
  obtain ⟨hsending, _, freshPublic, _, _, _, hpublic, _, _, rfl⟩ :=
    (mayOk_bootstrapResponder o).mp h
  exact ⟨hsending, freshPublic, hpublic, rfl, rfl, rfl, rfl⟩

theorem send_localPrivate {plaintext packet : Bytes}
    (h : state.send provider plaintext = .ok (next, packet)) :
    next.localPrivate = state.localPrivate := by
  obtain ⟨_, rfl⟩ := send_next h
  rfl

theorem send_sender {plaintext packet : Bytes}
    (h : state.send provider plaintext = .ok (next, packet)) (hpn : state.pn < 2 ^ 32) :
    recordHeader packet = .ok ⟨state.localPublic, state.pn, state.ns⟩ ∧
      next.localPrivate = state.localPrivate ∧ next.localPublic = state.localPublic ∧
      next.ns = state.ns + 1 ∧ next.pn = state.pn := by
  obtain ⟨_, _, _, header, body, _, hns, _, hheader, _, _, rfl, rfl⟩ := send_eq_ok.mp h
  have hn : state.ns < 2 ^ 32 := by omega
  exact ⟨recordHeader_framed body hpn hn hheader, rfl, rfl, rfl, rfl⟩

end RatchetState

end LicoArc
