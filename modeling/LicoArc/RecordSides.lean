import LicoArc.RecordInvariant

/-!
# A party's own step in the ledger

What `send`, `bootstrapResponder`, the Diffie-Hellman transition and the
acceptance of a record do to the side that takes the step.
-/

namespace LicoArc

variable {provider : Provider} {privateKey : Nat → FixedBytes 32} {hybrid : HybridSecrets}
  {context : FixedBytes 32} {ledger : Ledger} {party : Party} {state next : RatchetState}
  {horizon e n r : Nat} {c : Chain} {custody : KeyCustody Id}

/-! ## Skipped keys -/

theorem Retains.retain {skipped retained : SkippedKeys} {limit : Nat → Nat} {count : Nat}
    {chain last : Secret} (h : Retains provider ledger party skipped limit)
    (hdistinct : ∀ e, 0 < limit e → (ledger.chain e).dh = (ledger.chain r).dh → e = r)
    (howner : owner r ≠ party) (htaken : ∀ n, limit r ≤ n → (r, n) ∉ ledger.taken)
    (hchain : chainAt provider (ledger.chain r).start (limit r) = .ok chain)
    (hretain : retainSkipped provider (ledger.chain r).dh count (limit r) chain skipped =
      .ok (last, retained)) :
    Retains provider ledger party retained (Function.update limit r (limit r + count)) := by
  obtain ⟨_, hother, hkept, _⟩ := retainSkipped_ok hchain hretain
  intro coordinate keys
  by_cases hnew : ∃ k, limit r ≤ k ∧ k < limit r + count ∧ coordinate = ((ledger.chain r).dh, k)
  · obtain ⟨k, hk, hlt, rfl⟩ := hnew
    obtain ⟨step, hstep, hkeys⟩ := hkept k hk hlt
    rw [hkeys]
    constructor
    · intro heq
      exact ⟨r, k, step, howner, by simpa using hlt, htaken k hk, rfl, hstep,
        (Option.some.inj heq).symm⟩
    · rintro ⟨e, n, step', _, hn, _, hcoordinate, hstep', rfl⟩
      obtain ⟨hdh, rfl⟩ := Prod.mk.inj hcoordinate
      obtain rfl : e = r := by
        by_contra hne
        rw [Function.update_of_ne hne] at hn
        exact hne (hdistinct e (by omega) hdh.symm)
      cases hstep.symm.trans hstep'
      rfl
  · rw [hother coordinate fun k hk hlt heq => hnew ⟨k, hk, hlt, heq⟩, h coordinate keys]
    refine exists_congr fun e => exists_congr fun n => exists_congr fun step =>
      and_congr_right fun _ => ?_
    by_cases he : e = r
    · subst he
      rw [Function.update_self]
      constructor
      · rintro ⟨hn, hrest⟩
        exact ⟨by omega, hrest⟩
      · rintro ⟨hn, htaken, hcoordinate, hrest⟩
        refine ⟨?_, htaken, hcoordinate, hrest⟩
        by_contra hge
        exact hnew ⟨n, by omega, hn, hcoordinate⟩
    · rw [Function.update_of_ne he]

/-- The record after the retained ones is accepted without a skipped key. -/
theorem Retains.take_next {skipped : SkippedKeys} {limit : Nat → Nat}
    (h : Retains provider ledger party skipped limit) :
    Retains provider (ledger.take (r, limit r)) party skipped
      (Function.update limit r (limit r + 1)) := by
  intro coordinate keys
  rw [h coordinate keys]
  refine exists_congr fun e => exists_congr fun n => exists_congr fun step =>
    and_congr_right fun _ => ?_
  by_cases he : e = r
  · subst he
    simp only [Ledger.take, Function.update_self, List.mem_cons, Prod.mk.injEq, true_and, not_or]
    constructor
    · rintro ⟨hn, htaken, hrest⟩
      exact ⟨by omega, ⟨by omega, htaken⟩, hrest⟩
    · rintro ⟨hn, ⟨hne, htaken⟩, hrest⟩
      exact ⟨by omega, htaken, hrest⟩
  · simp [Ledger.take, he]

theorem Retains.take_erase {skipped : SkippedKeys} {limit : Nat → Nat}
    (h : Retains provider ledger party skipped limit)
    (hdistinct : ∀ e', 0 < limit e' → (ledger.chain e').dh = (ledger.chain e).dh → e' = e) :
    Retains provider (ledger.take (e, n)) party (skipped.erase ((ledger.chain e).dh, n)) limit := by
  intro coordinate keys
  rw [Std.ExtTreeMap.getElem?_erase]
  split
  · next heq =>
    have heq := Std.LawfulEqCmp.eq_of_compare heq
    constructor
    · intro hnone
      cases hnone
    · rintro ⟨e', n', _, _, hn, htaken, hcoordinate, _⟩
      obtain ⟨hdh, rfl⟩ := Prod.mk.inj (heq.trans hcoordinate)
      obtain rfl := hdistinct e' (by omega) hdh.symm
      exact absurd List.mem_cons_self htaken
  · next hne =>
    rw [h coordinate keys]
    refine exists_congr fun e' => exists_congr fun n' => exists_congr fun step =>
      and_congr_right fun _ => and_congr_right fun _ => ?_
    constructor
    · rintro ⟨htaken, rfl, hrest⟩
      refine ⟨?_, rfl, hrest⟩
      intro hmem
      rcases List.mem_cons.mp hmem with heq | hmem
      · obtain ⟨rfl, rfl⟩ := Prod.mk.inj heq
        exact hne Std.ReflCmp.compare_self
      · exact htaken hmem
    · rintro ⟨htaken, hrest⟩
      exact ⟨fun hmem => htaken (List.mem_cons_of_mem _ hmem), hrest⟩

theorem Ledger.limit_next (ledger : Ledger) (nr nr' r : Nat) :
    ledger.limit (r + 1) nr' = Function.update (ledger.limit (r + 1) nr) r nr' := by
  funext e
  by_cases he : e = r
  · subst he
    simp [Ledger.limit]
  · rw [Function.update_of_ne he]
    simp [Ledger.limit, he]

@[simp] theorem Ledger.limit_self (ledger : Ledger) (nr r : Nat) :
    ledger.limit (r + 1) nr r = nr := by
  simp [Ledger.limit]

/-! ## Views -/

theorem View.withSkipped (h : View provider privateKey ledger party state horizon)
    (skipped : SkippedKeys) :
    View provider privateKey ledger party { state with skipped } horizon := by
  have hactive : ∀ {e : Nat}, Active provider privateKey ledger state e →
      Active provider privateKey ledger { state with skipped } e := fun active =>
    ⟨active.root, active.chain, active.ns, active.localPublic, active.localPrivate, active.pn,
      fun hr => ⟨(active.receiving hr).chain, (active.receiving hr).peerPublic,
        (active.receiving hr).nr_le⟩, active.opening⟩
  cases h with
  | ahead owns active => exact .ahead owns (hactive active)
  | behind owns last active => exact .behind owns last (hactive active)
  | waiting first isResponder waiting =>
    exact .waiting first isResponder ⟨waiting.root, waiting.sending, waiting.pn, waiting.ns,
      waiting.receiving.chain, waiting.receiving.peerPublic, waiting.receiving.nr_le⟩

theorem View.advance (h : View provider privateKey ledger party state horizon)
    (hr : horizon = r + 1) {key : Secret} {nr : Nat}
    (hchain : chainAt provider (ledger.chain r).start nr = .ok key)
    (hnr : nr ≤ (ledger.chain r).records.length) :
    View provider privateKey ledger party { state with receiving := some key, nr } horizon := by
  have hreceiving : ∀ {r' : Nat}, horizon = r' + 1 → Receiving provider ledger state r' →
      Receiving provider ledger { state with receiving := some key, nr } r' := by
    intro r' hr' receiving
    obtain rfl : r' = r := by omega
    exact ⟨⟨key, rfl, hchain⟩, receiving.peerPublic, hnr⟩
  cases h with
  | ahead owns active =>
    exact .ahead owns ⟨active.root, active.chain, active.ns, active.localPublic,
      active.localPrivate, active.pn, fun hr' => hreceiving hr' (active.receiving hr'),
      fun hzero => by omega⟩
  | behind owns last active =>
    exact .behind owns last ⟨active.root, active.chain, active.ns, active.localPublic,
      active.localPrivate, active.pn, fun hr' => hreceiving hr' (active.receiving hr'),
      fun hzero => by omega⟩
  | waiting first isResponder waiting =>
    exact .waiting first isResponder ⟨waiting.root, waiting.sending, waiting.pn, waiting.ns,
      hreceiving rfl waiting.receiving⟩

/-! ## Sending -/

theorem Active.send {step : MessageStep} {record : Bytes × Bytes}
    (h : Active provider privateKey ledger state e)
    (hstep : stepAt provider (ledger.chain e).start state.ns = .ok step) :
    Active provider privateKey (ledger.append e record)
      { state with sending := some step.next, ns := state.ns + 1 } e where
  root := by simpa using h.root
  chain := ⟨_, rfl, by simpa using chainAt_succ hstep⟩
  ns := by simp [ledger.append_records_self, h.ns]
  localPublic := by simpa using h.localPublic
  localPrivate := by simpa using h.localPrivate
  pn := by simpa using h.pn
  receiving hr := ⟨by simpa using (h.receiving hr).chain, by simpa using (h.receiving
    hr).peerPublic, le_trans (h.receiving hr).nr_le
    (ledger.append_records_prefix e record _).length_le⟩
  opening hzero := by simpa using h.opening hzero

theorem Side.send {plaintext packet : Bytes}
    (side : Side provider privateKey context ledger party state horizon)
    (hsend : state.send provider plaintext = .ok (next, packet)) :
    ∃ e, owner e = party ∧ e ≤ ledger.last ∧ ledger.last < e + 2 ∧
      (ledger.chain e).records.length + 1 < 2 ^ 32 ∧
      (ledger.chain e).Frames provider context (ledger.chain e).records.length
        (packet, plaintext) ∧
      Side provider privateKey context (ledger.append e (packet, plaintext)) party next
        horizon := by
  obtain ⟨_, chain, step, header, body, hchain, hn, hstep, hheader, hbody, hsize, rfl, rfl⟩ :=
    RatchetState.send_eq_ok.mp hsend
  have hactive : ∀ {e : Nat}, owner e = party → Active provider privateKey ledger state e →
      (ledger.chain e).records.length + 1 < 2 ^ 32 ∧
      (ledger.chain e).Frames provider context (ledger.chain e).records.length
        (header ++ body, plaintext) ∧
      Active provider privateKey (ledger.append e (header ++ body, plaintext))
        { state with sending := some step.next, ns := state.ns + 1 } e := by
    intro e _ active
    obtain ⟨key, hkey, hat⟩ := active.chain
    cases hchain.symm.trans hkey
    rw [← stepAt_of_chainAt hat] at hstep
    rw [← active.ns]
    refine ⟨hn, ⟨step, header, body, hstep, ?_, ?_, rfl, hsize⟩, active.send hstep⟩
    · rw [← active.localPublic, ← active.pn]
      exact hheader
    · rw [← side.context]
      exact hbody
  have hside : ∀ {e : Nat}, owner e = party →
      View provider privateKey (ledger.append e (header ++ body, plaintext)) party
        { state with sending := some step.next, ns := state.ns + 1 } horizon →
      Side provider privateKey context (ledger.append e (header ++ body, plaintext)) party
        { state with sending := some step.next, ns := state.ns + 1 } horizon := by
    intro e howner view
    have hlimit : ∀ e', owner e' ≠ party →
        (ledger.append e (header ++ body, plaintext)).limit horizon state.nr e' =
          ledger.limit horizon state.nr e' := by
      intro e' hne
      have he : e' ≠ e := by
        rintro rfl
        exact hne howner
      unfold Ledger.limit
      rw [ledger.append_chain_ne e _ he]
    exact {
      context := side.context
      direction := side.direction
      view := view
      retains := side.retains.congr hlimit
        (fun e' _ _ => ⟨ledger.append_dh e _ e', ledger.append_start e _ e'⟩) fun _ _ _ => Iff.rfl
      taken := fun htaken hne => by
        rw [hlimit _ hne]
        exact side.taken htaken hne }
  cases hview : side.view with
  | ahead owns active =>
    obtain ⟨hshort, hframe, hnext⟩ := hactive owns active
    exact ⟨_, owns, le_rfl, by omega, hshort, hframe, hside owns (.ahead owns hnext)⟩
  | behind owns last active =>
    obtain ⟨hshort, hframe, hnext⟩ := hactive owns active
    exact ⟨_, owns, by omega, by omega, hshort, hframe, hside owns (.behind owns last hnext)⟩
  | waiting _ _ waiting =>
    rw [waiting.sending] at hchain
    cases hchain

/-! ## The responder's first chain -/

theorem Side.bootstrap {staged : StagedSecretHandle .x25519Private}
    (side : Side provider privateKey context ledger party state horizon)
    (faithful : custody.Faithful provider privateKey)
    (hfresh : ∀ e ≤ ledger.last,
      (ledger.chain e).dh ≠ Exchange.publicOf provider privateKey staged.custodyToken)
    (hbootstrap : (state.bootstrapResponder provider custody staged).run.run = .ok next) :
    owner (ledger.last + 1) = party ∧ ∃ c, ledger.Extends provider context c ∧
      c.dh = next.localPublic ∧
      c.dh = Exchange.publicOf provider privateKey staged.custodyToken ∧
      Side provider privateKey context (ledger.extend c) party next horizon := by
  obtain ⟨hsending, _, freshPublic, shared, root, chain, hpublic, hshared, hkeys, rfl⟩ :=
    (RatchetState.mayOk_bootstrapResponder Outcomes.value).mp (Outcomes.mayOk_value.mpr hbootstrap)
  cases hview : side.view with
  | ahead _ active =>
    obtain ⟨_, hsome, _⟩ := active.chain
    rw [hsending] at hsome
    cases hsome
  | behind _ _ active =>
    obtain ⟨_, hsome, _⟩ := active.chain
    rw [hsending] at hsome
    cases hsome
  | waiting first isResponder waiting =>
    have howner : owner (ledger.last + 1) = party := by rw [first, isResponder]; rfl
    have hpublic := faithful.x25519Public hpublic.symm
    have hshared := faithful.x25519 hshared.symm
    let c : Chain := { privateKey := privateKey staged.custodyToken, dh := freshPublic, root,
                       start := chain, pn := 0, records := [] }
    have hlimit : ∀ e, (ledger.extend c).limit 1 state.nr e = ledger.limit 1 state.nr e :=
      Ledger.limit_extend (by omega)
    refine ⟨howner, c, ?_, rfl, hpublic, ?_⟩
    · exact {
        agreed := by
          refine ⟨shared, ?_, ?_⟩
          · rw [first, ← waiting.receiving.peerPublic]
            exact hshared
          · rw [howner, ← side.direction, ← side.context, first, ← waiting.root]
            exact hkeys
        dh := hpublic
        fresh := fun {e} he => by
          rw [show c.dh = _ from hpublic]
          exact hfresh e he
        firstPn := fun _ => rfl
        pn := fun h => by omega
        records := rfl }
    · let next := { state with root, localPrivate := staged.adoptedHandle,
                               localPublic := freshPublic, sending := some chain }
      have hreceiving : Receiving provider (ledger.extend c) next ledger.last := by
        rw [first]
        have := waiting.receiving.extend (c := c) (Nat.zero_le _)
        exact ⟨this.chain, this.peerPublic, this.nr_le⟩
      have hactive : Active provider privateKey (ledger.extend c) next (ledger.last + 1) := {
        root := by rw [ledger.extend_chain_last]
        chain := by
          rw [ledger.extend_chain_last]
          exact ⟨chain, rfl, by rw [show next.ns = 0 from waiting.ns]; rfl⟩
        ns := by
          rw [ledger.extend_chain_last]
          exact waiting.ns
        localPublic := by rw [ledger.extend_chain_last]
        localPrivate := by
          rw [ledger.extend_chain_last]
          rfl
        pn := by
          rw [ledger.extend_chain_last]
          exact waiting.pn
        receiving := fun hr => Nat.succ.inj hr ▸ hreceiving
        opening := fun h => by omega }
      have hview : View provider privateKey (ledger.extend c) party next (ledger.last + 1) :=
        .ahead howner hactive
      rw [first] at hview
      exact {
        context := side.context
        direction := side.direction
        view := hview
        retains := side.retains.congr (fun e _ => hlimit e)
          (fun e _ hpos => by
            rw [ledger.extend_chain_of_le c (side.view.le_last (Ledger.lt_horizon_of_limit hpos))]
            exact ⟨rfl, rfl⟩)
          fun _ _ _ => Iff.rfl
        taken := fun htaken hne => by
          rw [hlimit]
          exact side.taken htaken hne }

/-! ## Accepting a record -/

theorem Ledger.Linked.limit_distinct (linked : ledger.Linked provider hybrid context)
    (view : View provider privateKey ledger party state horizon) (he : e ≤ ledger.last) {nr : Nat} :
    ∀ e', 0 < ledger.limit horizon nr e' → (ledger.chain e').dh = (ledger.chain e).dh → e' = e :=
  fun _ hpos hdh =>
    linked.distinct (view.le_last (Ledger.lt_horizon_of_limit hpos)) he hdh

/-- A record whose key was retained. -/
theorem Side.acceptRetained (linked : ledger.Linked provider hybrid context)
    (side : Side provider privateKey context ledger party state horizon)
    (hn : n < ledger.limit horizon state.nr e) :
    Side provider privateKey context (ledger.take (e, n)) party
      { state with skipped := state.skipped.erase ((ledger.chain e).dh, n) } horizon where
  context := side.context
  direction := side.direction
  view := (side.view.withSkipped _).take _
  retains := side.retains.take_erase (linked.limit_distinct side.view
    (side.view.le_last (Ledger.lt_horizon_of_limit hn)))
  taken htaken hne := by
    rcases List.mem_cons.mp htaken with heq | htaken
    · obtain ⟨rfl, rfl⟩ := Prod.mk.inj heq
      exact hn
    · exact side.taken htaken hne

/-- A record of the receiving chain, with the keys of those before it retained. -/
theorem Side.acceptNext (linked : ledger.Linked provider hybrid context)
    (side : Side provider privateKey context ledger party state horizon) (hr : horizon = r + 1)
    (howner : owner r ≠ party) (hn : state.nr ≤ n) (hlt : n < (ledger.chain r).records.length)
    {first last : Secret} {retained : SkippedKeys} {step : MessageStep}
    (hfirst : chainAt provider (ledger.chain r).start state.nr = .ok first)
    (hretain : retainSkipped provider (ledger.chain r).dh (n - state.nr) state.nr first
      state.skipped = .ok (last, retained))
    (hstep : messageStep provider last n = .ok step) :
    Side provider privateKey context (ledger.take (r, n)) party
      { state with skipped := retained, receiving := some step.next, nr := n + 1 } horizon := by
  have hlast := (retainSkipped_ok hfirst hretain).1
  rw [Nat.add_sub_cancel' hn] at hlast
  rw [← stepAt_of_chainAt hlast] at hstep
  have hretains := side.retains
  rw [hr] at hretains
  have htaken : ∀ {n : Nat}, (r, n) ∈ ledger.taken → n < state.nr := by
    intro n htaken
    have := side.taken htaken howner
    rwa [hr, Ledger.limit_self] at this
  have hkept : Retains provider ledger party retained (ledger.limit (r + 1) n) := by
    have := hretains.retain (r := r)
      (hr ▸ linked.limit_distinct side.view (side.view.le_last (by omega))) howner
      (by
        intro n hge hmem
        rw [Ledger.limit_self] at hge
        have := htaken hmem
        omega)
      (by rwa [Ledger.limit_self]) (by rwa [Ledger.limit_self])
    rwa [Ledger.limit_self, Nat.add_sub_cancel' hn, ← Ledger.limit_next] at this
  have htook := hkept.take_next (r := r)
  rw [Ledger.limit_self, ← Ledger.limit_next] at htook
  exact {
    context := side.context
    direction := side.direction
    view := (((side.view.withSkipped retained).advance hr (chainAt_succ hstep) hlt).take _)
    retains := by
      rw [hr]
      exact htook
    taken := by
      intro e' n' hmem hne
      rw [hr]
      change n' < ledger.limit (r + 1) (n + 1) e'
      rw [Ledger.limit_next ledger state.nr]
      rcases List.mem_cons.mp hmem with heq | hold
      · obtain ⟨rfl, rfl⟩ := Prod.mk.inj heq
        rw [Function.update_self]
        exact Nat.lt_succ_self _
      · by_cases he : e' = r
        · subst he
          rw [Function.update_self]
          have := htaken hold
          omega
        · rw [Function.update_of_ne he, ← hr]
          exact side.taken hold hne }

/-! ## The Diffie-Hellman transition -/

theorem RatchetState.retainPrevious_eq_ok {key : Secret} {distance : Nat} {retained : SkippedKeys}
    (hreceiving : state.receiving = some key) :
    state.retainPrevious provider distance = .ok retained ↔
      ∃ last, retainSkipped provider state.peerPublic distance state.nr key state.skipped =
        .ok (last, retained) := by
  rw [retainPrevious, hreceiving]
  cases distance with
  | zero => simp [retainSkipped]
  | succ distance => simp [okOr, Except.bind_eq_ok]

theorem RatchetState.retainPrevious_zero :
    state.retainPrevious provider 0 = .ok state.skipped := rfl

/-- At the transition to the peer's next chain, the rest of the superseded chain is retained. -/
theorem Side.retainPrevious (linked : ledger.Linked provider hybrid context)
    (side : Side provider privateKey context ledger party state e) (owns : owner e = party)
    (hlast : ledger.last = e + 1) {retained : SkippedKeys}
    (hretain : state.retainPrevious provider ((ledger.chain ledger.last).pn - state.nr) =
      .ok retained) :
    Retains provider ledger party retained (ledger.limit (e + 2) 0) := by
  have hne : ∀ {e'}, owner e' ≠ party → e' ≠ e := by
    rintro e' hne rfl
    exact hne owns
  rcases side.view.receiving with ⟨rfl, _, hreceiving, hnr, _⟩ | ⟨r, rfl, howner, receiving⟩
  · rw [hlast, linked.secondPn (by omega), Nat.zero_sub,
      RatchetState.retainPrevious_zero] at hretain
    cases hretain
    refine side.retains.congr (fun e' howner => ?_) (fun _ _ _ => ⟨rfl, rfl⟩) fun _ _ _ => Iff.rfl
    have := hne howner
    simp only [Ledger.limit]
    split_ifs <;> first | rfl | omega
  · obtain ⟨key, hkey, hchain⟩ := receiving.chain
    obtain ⟨last, hretain⟩ := (RatchetState.retainPrevious_eq_ok hkey).mp hretain
    have hpn : (ledger.chain ledger.last).pn = (ledger.chain r).records.length := by
      rw [hlast]
      exact linked.pn (by omega)
    rw [receiving.peerPublic, hpn] at hretain
    have hkept := side.retains.retain (r := r)
      (linked.limit_distinct side.view (side.view.le_last (by omega))) howner
      (by
        intro n hge hmem
        have := side.taken hmem howner
        omega)
      (by rwa [Ledger.limit_self]) (by rwa [Ledger.limit_self])
    rw [Ledger.limit_self, Nat.add_sub_cancel' receiving.nr_le] at hkept
    refine hkept.congr (fun e' howner => ?_) (fun _ _ _ => ⟨rfl, rfl⟩) fun _ _ _ => Iff.rfl
    have := hne howner
    by_cases he : e' = r
    · subst he
      rw [Function.update_self]
      simp [Ledger.limit]
    · rw [Function.update_of_ne he]
      simp only [Ledger.limit]
      split_ifs <;> first | rfl | omega

/-- A transition that derives a chain of the ledger moves to the newest one, which the peer owns,
and creates the next. -/
theorem Side.transition (kdf : KdfSeparation provider)
    (derived : ∃ salt ikm label, provider.hkdfSha256 salt ikm label 32 = .ok hybrid.hybridRoot)
    (linked : ledger.Linked provider hybrid context)
    (side : Side provider privateKey context ledger party state horizon)
    (faithful : custody.Faithful provider privateKey) (he : e ≤ ledger.last)
    {staged : Option (StagedSecretHandle .x25519Private)}
    (hfresh : ∀ handle, staged = some handle → ∀ k ≤ ledger.last,
      (ledger.chain k).dh ≠ Exchange.publicOf provider privateKey handle.custodyToken)
    (htransition : (state.receiveDhTransition provider custody
      ⟨(ledger.chain e).dh, (ledger.chain e).pn, n⟩ staged).run.run = .ok next)
    (hstart : next.receiving = some (ledger.chain e).start) :
    e = ledger.last ∧ owner (ledger.last + 1) = party ∧ next.nr = 0 ∧ ∃ c,
      ledger.Extends provider context c ∧ c.dh = next.localPublic ∧
      (∃ handle, staged = some handle ∧
        c.dh = Exchange.publicOf provider privateKey handle.custodyToken) ∧
      Side provider privateKey context (ledger.extend c) party next (ledger.last + 1) := by
  obtain ⟨_, _, _, handle, freshPublic, retained, peerShared, rootAfterReceive, receiving,
    freshShared, rootAfterSend, sending, hstaged, hpublic, hretain, _, hreceive,
    hfreshShared, hsend, rfl⟩ := (RatchetState.mayOk_receiveDhTransition Outcomes.value).mp
      (Outcomes.mayOk_value.mpr htransition)
  cases hstart
  rw [side.context, side.direction, Party.direction_opposite] at hreceive
  obtain ⟨k, rfl, hroot, rfl, hdirection⟩ := linked.created_by kdf derived he hreceive
  have howner := Party.direction_injective hdirection
  have hbehind : ledger.last = k + 1 ∧ horizon = k ∧ Active provider privateKey ledger state k := by
    cases hview : side.view with
    | ahead owns active =>
      have := linked.root_injective kdf derived le_rfl (Nat.le_of_lt he)
        (active.root.symm.trans hroot)
      omega
    | behind owns last active =>
      obtain rfl := linked.root_injective kdf derived (by omega) (Nat.le_of_lt he)
        (active.root.symm.trans hroot)
      exact ⟨last, rfl, active⟩
    | waiting first _ _ => omega
  obtain ⟨hlast, rfl, active⟩ := hbehind
  have hnext : owner (ledger.last + 1) = party := by
    rw [hlast]
    change (owner (horizon + 1)).other = party
    rw [← howner]
    cases party <;> rfl
  have owns : owner horizon = party := by
    rw [← hnext, hlast]
    exact Party.eq_of_ne_of_ne (owner_succ_ne _).symm (owner_succ_ne _)
  have hpublic := faithful.x25519Public hpublic.symm
  have hfreshShared := faithful.x25519 hfreshShared.symm
  rw [← hlast] at hretain hfreshShared hsend ⊢
  have hkept := side.retainPrevious linked owns hlast hretain
  let c : Chain := { privateKey := privateKey handle.custodyToken, dh := freshPublic,
                     root := rootAfterSend, start := sending, pn := state.ns, records := [] }
  refine ⟨rfl, hnext, rfl, c, ?_, rfl, ⟨handle, hstaged, hpublic⟩, ?_⟩
  · exact {
      agreed := by
        refine ⟨freshShared, hfreshShared, ?_⟩
        rw [hnext, ← side.direction, ← side.context]
        exact hsend
      dh := hpublic
      fresh := fun {k} hk => by
        rw [show c.dh = _ from hpublic]
        exact hfresh handle hstaged k hk
      firstPn := fun h => by omega
      pn := fun {k} h => by
        obtain rfl : k = horizon := by omega
        exact active.ns
      records := rfl }
  · have hlimit : ∀ e, (ledger.extend c).limit (ledger.last + 1) 0 e =
        ledger.limit (ledger.last + 1) 0 e := Ledger.limit_extend le_rfl
    have hactive : Active provider privateKey (ledger.extend c)
        { state with
          root := rootAfterSend, peerPublic := (ledger.chain ledger.last).dh,
          localPrivate := handle.adoptedHandle, localPublic := freshPublic,
          receiving := some (ledger.chain ledger.last).start, sending := some sending,
          pn := state.ns, ns := 0, nr := 0, skipped := retained } (ledger.last + 1) := {
      root := by rw [ledger.extend_chain_last]
      chain := by
        rw [ledger.extend_chain_last]
        exact ⟨sending, rfl, rfl⟩
      ns := by rw [ledger.extend_chain_last]; rfl
      localPublic := by rw [ledger.extend_chain_last]
      localPrivate := by rw [ledger.extend_chain_last]; rfl
      pn := by rw [ledger.extend_chain_last]
      receiving := fun {r} hr => by
        obtain rfl : r = ledger.last := by omega
        rw [← ledger.extend_chain_of_le c le_rfl]
        exact ⟨⟨_, rfl, rfl⟩, rfl, Nat.zero_le _⟩
      opening := fun h => by omega }
    exact {
      context := side.context
      direction := side.direction
      view := .ahead hnext hactive
      retains := hkept.congr
        (fun e' _ => by rw [hlimit, hlast])
        (fun e' _ hpos => by
          have := Ledger.lt_horizon_of_limit hpos
          rw [ledger.extend_chain_of_le c (by omega)]
          exact ⟨rfl, rfl⟩)
        fun _ _ _ => Iff.rfl
      taken := fun {e' n'} hmem hne => by
        have hbound := side.taken hmem hne
        have he' : e' ≠ horizon := by
          rintro rfl
          exact hne owns
        have := Ledger.lt_horizon_of_limit hbound
        change n' < (ledger.extend c).limit (ledger.last + 1) 0 e'
        rw [hlimit, Ledger.limit, if_pos (by omega)]
        exact lt_of_lt_of_le hbound (side.view.limit_le e') }

end LicoArc
