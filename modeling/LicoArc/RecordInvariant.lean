import LicoArc.RecordExchange

/-!
# The invariant of the record exchange

The ledger of a run stays linked, and the ratchet of each party stays at its
place in the ledger, whichever party takes the next step.
-/

namespace LicoArc

/-! ## Changes of the ledger -/

namespace Ledger

variable (ledger : Ledger) (e : Nat) (record : Bytes × Bytes) (c : Chain)

@[simp] theorem append_last : (ledger.append e record).last = ledger.last := rfl

theorem append_chain_ne {e' : Nat} (h : e' ≠ e) :
    (ledger.append e record).chain e' = ledger.chain e' :=
  Function.update_of_ne h _ _

theorem append_chain_self : (ledger.append e record).chain e =
    { ledger.chain e with records := (ledger.chain e).records ++ [record] } :=
  Function.update_self ..

theorem append_chain (e' : Nat) : ∃ records, (ledger.append e record).chain e' =
    { ledger.chain e' with records } := by
  by_cases h : e' = e
  · rw [h, append_chain_self]
    exact ⟨_, rfl⟩
  · rw [append_chain_ne _ _ _ h]
    exact ⟨_, rfl⟩

@[simp] theorem append_dh (e' : Nat) :
    ((ledger.append e record).chain e').dh = (ledger.chain e').dh := by
  obtain ⟨_, h⟩ := ledger.append_chain e record e'
  rw [h]

@[simp] theorem append_root (e' : Nat) :
    ((ledger.append e record).chain e').root = (ledger.chain e').root := by
  obtain ⟨_, h⟩ := ledger.append_chain e record e'
  rw [h]

@[simp] theorem append_start (e' : Nat) :
    ((ledger.append e record).chain e').start = (ledger.chain e').start := by
  obtain ⟨_, h⟩ := ledger.append_chain e record e'
  rw [h]

@[simp] theorem append_pn (e' : Nat) :
    ((ledger.append e record).chain e').pn = (ledger.chain e').pn := by
  obtain ⟨_, h⟩ := ledger.append_chain e record e'
  rw [h]

@[simp] theorem append_privateKey (e' : Nat) :
    ((ledger.append e record).chain e').privateKey = (ledger.chain e').privateKey := by
  obtain ⟨_, h⟩ := ledger.append_chain e record e'
  rw [h]

theorem append_records_self :
    ((ledger.append e record).chain e).records = (ledger.chain e).records ++ [record] := by
  rw [append_chain_self]

theorem append_records_prefix (e' : Nat) :
    (ledger.chain e').records <+: ((ledger.append e record).chain e').records := by
  by_cases h : e' = e
  · rw [h, append_records_self]
    exact List.prefix_append _ _
  · rw [append_chain_ne _ _ _ h]

@[simp] theorem extend_last : (ledger.extend c).last = ledger.last + 1 := rfl

theorem extend_chain_of_le {e' : Nat} (h : e' ≤ ledger.last) :
    (ledger.extend c).chain e' = ledger.chain e' :=
  Function.update_of_ne (by omega) _ _

@[simp] theorem extend_chain_last : (ledger.extend c).chain (ledger.last + 1) = c :=
  Function.update_self ..

theorem limit_le (horizon nr e' : Nat)
    (h : e' + 1 = horizon → nr ≤ (ledger.chain e').records.length) :
    ledger.limit horizon nr e' ≤ (ledger.chain e').records.length := by
  unfold limit
  split_ifs with hlt heq
  · exact le_rfl
  · exact h heq
  · exact Nat.zero_le _

variable {provider : Provider} {hybrid : HybridSecrets} {context : FixedBytes 32}
  {ledger e record c}

theorem Linked.append (linked : ledger.Linked provider hybrid context) (he : e ≤ ledger.last)
    (hlast : ledger.last < e + 2) (hshort : (ledger.chain e).records.length + 1 < 2 ^ 32)
    (hframe : (ledger.chain e).Frames provider context (ledger.chain e).records.length record) :
    (ledger.append e record).Linked provider hybrid context where
  first := by simpa using linked.first
  firstPn := by simpa using linked.firstPn
  secondPn := by simpa using linked.secondPn
  agreed h := by simpa using linked.agreed h
  dh h := by simpa using linked.dh h
  distinct h h' := by simpa using linked.distinct h h'
  pn {e'} h := by
    rw [append_last] at h
    rw [append_pn, linked.pn h, append_chain_ne _ _ _ (by omega)]
  short {e'} h := by
    by_cases heq : e' = e
    · rw [heq, append_records_self, List.length_append]
      exact hshort
    · rw [append_chain_ne _ _ _ heq]
      exact linked.short h
  framed {e' n record'} h hrecord := by
    by_cases heq : e' = e
    · rw [heq, append_chain_self] at hrecord ⊢
      rcases Nat.lt_or_ge n (ledger.chain e).records.length with hlt | hge
      · rw [List.getElem?_append_left hlt] at hrecord
        exact linked.framed he hrecord
      · rw [List.getElem?_append_right hge, List.getElem?_singleton] at hrecord
        split at hrecord
        · cases hrecord
          obtain rfl : n = (ledger.chain e).records.length := by omega
          exact hframe
        · cases hrecord
    · rw [append_chain_ne _ _ _ heq] at hrecord ⊢
      exact linked.framed h hrecord

/-- A chain that a Diffie-Hellman step may add. -/
structure Extends (provider : Provider) (context : FixedBytes 32) (ledger : Ledger) (c : Chain) :
    Prop where
  agreed : ∃ shared, provider.x25519 c.privateKey (ledger.chain ledger.last).dh = .ok shared ∧
    dhKeys provider (ledger.chain ledger.last).root shared (owner (ledger.last + 1)).direction
      context = .ok (c.root, c.start)
  dh : c.dh = provider.x25519Public c.privateKey
  fresh {e : Nat} : e ≤ ledger.last → (ledger.chain e).dh ≠ c.dh
  firstPn : ledger.last = 0 → c.pn = 0
  pn {e : Nat} : ledger.last = e + 1 → c.pn = (ledger.chain e).records.length
  records : c.records = []

theorem Linked.extend (linked : ledger.Linked provider hybrid context)
    (new : ledger.Extends provider context c) :
    (ledger.extend c).Linked provider hybrid context where
  first := by
    rw [extend_chain_of_le _ _ (Nat.zero_le _)]
    exact linked.first
  firstPn := by
    rw [extend_chain_of_le _ _ (Nat.zero_le _)]
    exact linked.firstPn
  secondPn _ := by
    rcases Nat.eq_zero_or_pos ledger.last with h | h
    · rw [show 1 = ledger.last + 1 by omega, extend_chain_last]
      exact new.firstPn h
    · rw [extend_chain_of_le _ _ h]
      exact linked.secondPn h
  agreed {e} h := by
    rcases Nat.lt_or_eq_of_le (Nat.lt_succ_iff.mp h) with hlt | rfl
    · rw [extend_chain_of_le _ _ hlt, extend_chain_of_le _ _ (Nat.le_of_lt hlt)]
      exact linked.agreed hlt
    · rw [extend_chain_last, extend_chain_of_le _ _ le_rfl]
      exact new.agreed
  dh {e} h := by
    rcases Nat.le_succ_iff.mp h with hle | rfl
    · rw [extend_chain_of_le _ _ hle]
      exact linked.dh hle
    · rw [extend_chain_last]
      exact new.dh
  distinct {e e'} h h' heq := by
    rcases Nat.le_succ_iff.mp h with hle | rfl <;> rcases Nat.le_succ_iff.mp h' with hle' | rfl
    · rw [extend_chain_of_le _ _ hle, extend_chain_of_le _ _ hle'] at heq
      exact linked.distinct hle hle' heq
    · rw [extend_chain_of_le _ _ hle, extend_chain_last] at heq
      exact absurd heq (new.fresh hle)
    · rw [extend_chain_of_le _ _ hle', extend_chain_last] at heq
      exact absurd heq.symm (new.fresh hle')
    · rfl
  pn {e} h := by
    rw [extend_last] at h
    rcases Nat.lt_or_eq_of_le h with hlt | heq
    · rw [extend_chain_of_le _ _ (by omega), extend_chain_of_le _ _ (by omega)]
      exact linked.pn (by omega)
    · rw [heq, extend_chain_last, extend_chain_of_le _ _ (by omega)]
      exact new.pn (Nat.succ.inj heq.symm)
  short {e} h := by
    rcases Nat.le_succ_iff.mp h with hle | rfl
    · rw [extend_chain_of_le _ _ hle]
      exact linked.short hle
    · rw [extend_chain_last, new.records]
      decide
  framed {e n record} h hrecord := by
    rcases Nat.le_succ_iff.mp h with hle | rfl
    · rw [extend_chain_of_le _ _ hle] at hrecord ⊢
      exact linked.framed hle hrecord
    · rw [extend_chain_last, new.records] at hrecord
      cases hrecord

theorem Linked.take (linked : ledger.Linked provider hybrid context) (coordinate : Nat × Nat) :
    (ledger.take coordinate).Linked provider hybrid context where
  first := linked.first
  firstPn := linked.firstPn
  secondPn := linked.secondPn
  agreed := linked.agreed
  dh := linked.dh
  distinct := linked.distinct
  pn := linked.pn
  short := linked.short
  framed := linked.framed

/-! ## What the keys of the ledger determine -/

theorem Linked.pn_lt (linked : ledger.Linked provider hybrid context) (he : e ≤ ledger.last) :
    (ledger.chain e).pn < 2 ^ 32 := by
  match e, he with
  | 0, _ =>
    rw [linked.firstPn]
    decide
  | 1, he =>
    rw [linked.secondPn he]
    decide
  | e + 2, he =>
    rw [linked.pn he]
    exact linked.short (by omega)

/-- No Diffie-Hellman step repeats the root of an earlier one. -/
theorem Linked.root_injective (kdf : KdfSeparation provider)
    (derived : ∃ salt ikm label, provider.hkdfSha256 salt ikm label 32 = .ok hybrid.hybridRoot)
    (linked : ledger.Linked provider hybrid context) :
    ∀ {e e' : Nat}, e ≤ ledger.last → e' ≤ ledger.last →
      (ledger.chain e).root = (ledger.chain e').root → e = e' := by
  obtain ⟨salt, ikm, label, hroot⟩ := derived
  have hfirst : ∀ {k : Nat}, k < ledger.last →
      (ledger.chain (k + 1)).root ≠ (ledger.chain 0).root := by
    intro k hk heq
    obtain ⟨shared, _, hkeys⟩ := linked.agreed hk
    have hnext := (dhKeys_eq_ok.mp hkeys).1
    rw [heq] at hnext
    exact kdf.separate hroot (initialKeys_eq_ok.mp linked.first).1 hnext
  intro e
  induction e with
  | zero =>
    intro e' _ he' heq
    cases e' with
    | zero => rfl
    | succ k => exact absurd heq.symm (hfirst he')
  | succ e ih =>
    intro e' he he' heq
    cases e' with
    | zero => exact absurd heq (hfirst he)
    | succ k =>
      obtain ⟨shared, _, hkeys⟩ := linked.agreed he
      obtain ⟨shared', _, hkeys'⟩ := linked.agreed he'
      rw [heq] at hkeys
      rw [ih (Nat.le_of_lt he) (Nat.le_of_lt he') (kdf.dhKeys_root hkeys hkeys')]

/-- A Diffie-Hellman step that derives a chain of the ledger is the one that created it. -/
theorem Linked.created_by (kdf : KdfSeparation provider)
    (derived : ∃ salt ikm label, provider.hkdfSha256 salt ikm label 32 = .ok hybrid.hybridRoot)
    (linked : ledger.Linked provider hybrid context) (he : e ≤ ledger.last)
    {root shared nextRoot : FixedBytes 32} {direction : Direction}
    (h : dhKeys provider root shared direction context = .ok (nextRoot, (ledger.chain e).start)) :
    ∃ k, e = k + 1 ∧ root = (ledger.chain k).root ∧ nextRoot = (ledger.chain e).root ∧
      direction = (owner e).direction := by
  cases e with
  | zero =>
    obtain ⟨salt, ikm, label, hroot⟩ := derived
    exact absurd (dhKeys_eq_ok.mp h).2
      (kdf.separate hroot (initialKeys_eq_ok.mp linked.first).2)
  | succ k =>
    obtain ⟨shared', _, hkeys⟩ := linked.agreed he
    obtain ⟨rfl, rfl, rfl⟩ := kdf.dhKeys_chain h hkeys
    refine ⟨k, rfl, rfl, ?_, rfl⟩
    rw [h] at hkeys
    cases hkeys
    rfl

theorem Linked.packet_unique (linked : ledger.Linked provider hybrid context)
    {e e' n n' : Nat} {packet plaintext plaintext' : Bytes} (he : e ≤ ledger.last)
    (he' : e' ≤ ledger.last) (h : (ledger.chain e).records[n]? = some (packet, plaintext))
    (h' : (ledger.chain e').records[n']? = some (packet, plaintext')) : e = e' ∧ n = n' := by
  obtain ⟨_, header, body, _, hheader, _, hpacket, _⟩ := linked.framed he h
  obtain ⟨_, header', body', _, hheader', _, hpacket', _⟩ := linked.framed he' h'
  simp only at hpacket hpacket'
  obtain ⟨hn, _⟩ := List.getElem?_eq_some_iff.mp h
  have hshort := linked.short he
  have hdecode := RatchetHeader.decode_encode (linked.pn_lt he) (by simp only; omega) hheader
  have hsame := RatchetHeader.prefix_unique hheader' hdecode (hpacket.symm.trans hpacket')
  rw [hsame] at hheader
  have heq := RatchetHeader.encode_injective hheader hheader'
  simp only [RatchetHeader.mk.injEq] at heq
  exact ⟨linked.distinct he he' heq.1, heq.2.2⟩

end Ledger

/-! ## Sides under the other party's steps -/

section

variable {provider : Provider} {privateKey : Nat → FixedBytes 32} {hybrid : HybridSecrets}
  {context : FixedBytes 32} {ledger ledger' : Ledger} {party : Party} {state next : RatchetState}
  {horizon e n : Nat} {record : Bytes × Bytes} {c : Chain}

theorem Retains.congr {skipped : SkippedKeys} {limit limit' : Nat → Nat}
    (h : Retains provider ledger party skipped limit)
    (hlimit : ∀ e, owner e ≠ party → limit' e = limit e)
    (hchain : ∀ e, owner e ≠ party → 0 < limit e →
      (ledger'.chain e).dh = (ledger.chain e).dh ∧ (ledger'.chain e).start = (ledger.chain e).start)
    (htaken : ∀ e n, owner e ≠ party → ((e, n) ∈ ledger'.taken ↔ (e, n) ∈ ledger.taken)) :
    Retains provider ledger' party skipped limit' := by
  intro coordinate keys
  rw [h coordinate keys]
  refine exists_congr fun e => exists_congr fun n => exists_congr fun step =>
    and_congr_right fun howner => ?_
  rw [hlimit e howner, htaken e n howner]
  refine and_congr_right fun hn => ?_
  rw [(hchain e howner (by omega)).1, (hchain e howner (by omega)).2]

theorem View.horizon_le (h : View provider privateKey ledger party state horizon) :
    horizon ≤ ledger.last ∨ horizon = 1 ∧ ledger.last = 0 := by
  cases h with
  | ahead => exact .inl le_rfl
  | behind _ last => exact .inl (by omega)
  | waiting first => exact .inr ⟨rfl, first⟩

theorem View.le_last (h : View provider privateKey ledger party state horizon) (he : e < horizon) :
    e ≤ ledger.last := by
  rcases h.horizon_le with h | ⟨h, _⟩ <;> omega

/-- A party has no receiving chain yet, or it receives in a chain of its peer. -/
theorem View.receiving (h : View provider privateKey ledger party state horizon) :
    (horizon = 0 ∧ party = .initiator ∧ state.receiving = none ∧ state.nr = 0 ∧
      ∀ k ≤ ledger.last, owner k = .responder → state.peerPublic ≠ (ledger.chain k).dh) ∨
    ∃ r, horizon = r + 1 ∧ owner r ≠ party ∧ Receiving provider ledger state r := by
  have hactive : ∀ {e : Nat}, owner e = party → Active provider privateKey ledger state e →
      (e = 0 ∧ party = .initiator ∧ state.receiving = none ∧ state.nr = 0 ∧
        ∀ k ≤ ledger.last, owner k = .responder → state.peerPublic ≠ (ledger.chain k).dh) ∨
      ∃ r, e = r + 1 ∧ owner r ≠ party ∧ Receiving provider ledger state r := by
    intro e howner active
    cases e with
    | zero => exact .inl ⟨rfl, howner.symm, active.opening rfl⟩
    | succ r => exact .inr ⟨r, rfl, howner ▸ (owner_succ_ne r).symm, active.receiving rfl⟩
  cases h with
  | ahead owns active => exact hactive owns active
  | behind owns _ active => exact hactive owns active
  | waiting _ isResponder waiting =>
    exact .inr ⟨0, rfl, by rw [isResponder]; decide, waiting.receiving⟩

theorem View.limit_le (h : View provider privateKey ledger party state horizon) (e : Nat) :
    ledger.limit horizon state.nr e ≤ (ledger.chain e).records.length := by
  refine ledger.limit_le _ _ _ fun he => ?_
  rcases h.receiving with ⟨hzero, _⟩ | ⟨r, hr, _, receiving⟩
  · omega
  · obtain rfl : e = r := by omega
    exact receiving.nr_le

theorem Ledger.lt_horizon_of_limit {nr : Nat} (h : n < ledger.limit horizon nr e) :
    e < horizon := by
  unfold Ledger.limit at h
  split_ifs at h <;> omega

theorem Receiving.append (h : Receiving provider ledger state n) :
    Receiving provider (ledger.append e record) state n where
  chain := by simpa using h.chain
  peerPublic := by simpa using h.peerPublic
  nr_le := le_trans h.nr_le (ledger.append_records_prefix e record n).length_le

theorem Active.append (h : Active provider privateKey ledger state n) (hne : n ≠ e) :
    Active provider privateKey (ledger.append e record) state n where
  root := by simpa using h.root
  chain := by simpa using h.chain
  ns := by rw [ledger.append_chain_ne e record hne]; exact h.ns
  localPublic := by simpa using h.localPublic
  localPrivate := by simpa using h.localPrivate
  pn := by simpa using h.pn
  receiving hr := (h.receiving hr).append
  opening hzero := by simpa using h.opening hzero

theorem View.append (h : View provider privateKey ledger party state horizon)
    (hne : owner e ≠ party) :
    View provider privateKey (ledger.append e record) party state horizon := by
  cases h with
  | ahead owns active =>
    exact .ahead owns (active.append fun heq => hne (heq ▸ owns))
  | behind owns last active =>
    exact .behind owns last (active.append fun heq => hne (heq ▸ owns))
  | waiting first isResponder waiting =>
    exact .waiting first isResponder
      ⟨by simpa using waiting.root, waiting.sending, waiting.pn, waiting.ns,
        waiting.receiving.append⟩

theorem Side.append (h : Side provider privateKey context ledger party state horizon)
    (hne : owner e ≠ party) (hlast : ledger.last < e + 2) :
    Side provider privateKey context (ledger.append e record) party state horizon := by
  have hlimit : ∀ e', (ledger.append e record).limit horizon state.nr e' =
      ledger.limit horizon state.nr e' := by
    intro e'
    by_cases heq : e' = e
    · have hpassed : ¬e' + 1 < horizon := by
        have := h.view.horizon_le
        omega
      simp only [Ledger.limit, if_neg hpassed]
    · unfold Ledger.limit
      rw [ledger.append_chain_ne e record heq]
  exact {
    context := h.context
    direction := h.direction
    view := h.view.append hne
    retains := h.retains.congr (fun e' _ => hlimit e')
      (fun e' _ _ => ⟨ledger.append_dh e record e', ledger.append_start e record e'⟩)
      fun _ _ _ => Iff.rfl
    taken := fun {e' n'} htaken howner => by
      rw [hlimit]
      exact h.taken htaken howner }

theorem Receiving.extend (h : Receiving provider ledger state n) (hn : n ≤ ledger.last) :
    Receiving provider (ledger.extend c) state n where
  chain := by rw [ledger.extend_chain_of_le c hn]; exact h.chain
  peerPublic := by rw [ledger.extend_chain_of_le c hn]; exact h.peerPublic
  nr_le := by rw [ledger.extend_chain_of_le c hn]; exact h.nr_le

theorem Active.extend (h : Active provider privateKey ledger state n) (hn : n ≤ ledger.last)
    (hfresh : state.peerPublic ≠ c.dh) :
    Active provider privateKey (ledger.extend c) state n where
  root := by rw [ledger.extend_chain_of_le c hn]; exact h.root
  chain := by rw [ledger.extend_chain_of_le c hn]; exact h.chain
  ns := by rw [ledger.extend_chain_of_le c hn]; exact h.ns
  localPublic := by rw [ledger.extend_chain_of_le c hn]; exact h.localPublic
  localPrivate := by rw [ledger.extend_chain_of_le c hn]; exact h.localPrivate
  pn := by rw [ledger.extend_chain_of_le c hn]; exact h.pn
  receiving hr := (h.receiving hr).extend (by omega)
  opening hzero := by
    obtain ⟨hreceiving, hnr, hpeer⟩ := h.opening hzero
    refine ⟨hreceiving, hnr, fun k hk howner => ?_⟩
    rcases Nat.le_succ_iff.mp hk with hle | rfl
    · rw [ledger.extend_chain_of_le c hle]
      exact hpeer k hle howner
    · rw [ledger.extend_chain_last]
      exact hfresh

theorem Ledger.limit_extend {nr : Nat} (hhorizon : horizon ≤ ledger.last + 1) (e : Nat) :
    (ledger.extend c).limit horizon nr e = ledger.limit horizon nr e := by
  unfold Ledger.limit
  by_cases h : e + 1 < horizon
  · rw [if_pos h, if_pos h, ledger.extend_chain_of_le c (by omega)]
  · rw [if_neg h, if_neg h]

theorem Side.extend (h : Side provider privateKey context ledger party state horizon)
    (hne : owner (ledger.last + 1) ≠ party) (hfresh : state.peerPublic ≠ c.dh) :
    Side provider privateKey context (ledger.extend c) party state horizon := by
  have hlimit : ∀ e, (ledger.extend c).limit horizon state.nr e =
      ledger.limit horizon state.nr e :=
    Ledger.limit_extend (by have := h.view.horizon_le; omega)
  have hview : View provider privateKey (ledger.extend c) party state horizon := by
    cases h.view with
    | ahead owns active => exact .behind owns rfl (active.extend le_rfl hfresh)
    | behind owns last _ =>
      rw [last] at hne
      exact absurd (owns ▸ Party.eq_of_ne_of_ne (owner_succ_ne (_ + 1)) (owner_succ_ne _).symm) hne
    | waiting first isResponder _ =>
      rw [first, isResponder] at hne
      exact absurd rfl hne
  exact {
    context := h.context
    direction := h.direction
    view := hview
    retains := h.retains.congr (fun e _ => hlimit e)
      (fun e _ hpos => by
        rw [ledger.extend_chain_of_le c (h.view.le_last (Ledger.lt_horizon_of_limit hpos))]
        exact ⟨rfl, rfl⟩)
      fun _ _ _ => Iff.rfl
    taken := fun {e n} htaken howner => by
      rw [hlimit]
      exact h.taken htaken howner }

theorem View.take (h : View provider privateKey ledger party state horizon)
    (coordinate : Nat × Nat) :
    View provider privateKey (ledger.take coordinate) party state horizon := by
  have hactive : ∀ {e : Nat}, Active provider privateKey ledger state e →
      Active provider privateKey (ledger.take coordinate) state e := fun active =>
    ⟨active.root, active.chain, active.ns, active.localPublic, active.localPrivate, active.pn,
      fun hr => ⟨(active.receiving hr).chain, (active.receiving hr).peerPublic,
        (active.receiving hr).nr_le⟩, active.opening⟩
  cases h with
  | ahead owns active => exact .ahead owns (hactive active)
  | behind owns last active => exact .behind owns last (hactive active)
  | waiting first isResponder waiting =>
    exact .waiting first isResponder ⟨waiting.root, waiting.sending, waiting.pn, waiting.ns,
      waiting.receiving.chain, waiting.receiving.peerPublic, waiting.receiving.nr_le⟩

theorem Side.take (h : Side provider privateKey context ledger party state horizon)
    (howner : owner e = party) :
    Side provider privateKey context (ledger.take (e, n)) party state horizon where
  context := h.context
  direction := h.direction
  view := h.view.take _
  retains := h.retains.congr (fun _ _ => rfl) (fun _ _ _ => ⟨rfl, rfl⟩) fun e' n' hne => by
    have hother : (e', n') ≠ (e, n) := fun heq => hne ((Prod.mk.inj heq).1 ▸ howner)
    simp [Ledger.take, hother]
  taken htaken hne := by
    rcases List.mem_cons.mp htaken with heq | htaken
    · exact absurd ((Prod.mk.inj heq).1 ▸ howner) hne
    · exact h.taken htaken hne

end

end LicoArc
