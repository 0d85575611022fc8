import LicoArc.CallLaws
import LicoArc.Interaction.Solo
import LicoArc.Custody
import LicoArc.Verdicts

/-!
# Tear-down of an admitted responder

A custody that keeps its keys by purpose may give one token to an X25519 key and
to an ML-KEM key. An admission compares the tokens of its own pair only, while
a deletion and an acceptance name the keys of every active prekey in one commit.
-/

namespace LicoArc

open Backend

/-- A store with a custody that keeps its keys by purpose and token. -/
structure Shelf where
  durable : Snapshot
  live : Purpose → Nat → Option Lifecycle

def KeyMutation.after (mutation : KeyMutation) : Option Lifecycle :=
  match mutation.lifecycle with
  | .staged => some .adopted
  | .adopted => none

namespace Shelf

def put (shelf : Shelf) (purpose : Purpose) (token : Nat) (lifecycle : Option Lifecycle) : Shelf :=
  { shelf with
    live := Function.update shelf.live purpose
      (Function.update (shelf.live purpose) token lifecycle) }

def permits (shelf : Shelf) (mutation : KeyMutation) : Bool :=
  shelf.live mutation.purpose mutation.custodyToken = some mutation.lifecycle

def mutate (shelf : Shelf) (mutation : KeyMutation) : Shelf :=
  shelf.put mutation.purpose mutation.custodyToken mutation.after

def advance (shelf : Shelf) (commit : Commit EndpointState) : Shelf :=
  { commit.keyMutations.foldl mutate shelf with
    durable := ⟨⟨shelf.durable.revision.value + 1⟩, commit.nextState, commit.pending⟩ }

def drop (shelf : Shelf) (purpose : Purpose) (token : Nat) : Shelf :=
  if shelf.live purpose token = some .staged then shelf.put purpose token none else shelf

structure Swapped (shelf : Shelf) (expected : Revision) (commit : Commit EndpointState)
    (after : Shelf) : Prop where
  current : expected = shelf.durable.revision
  bounded : expected.value < maxSafeInteger
  permitted : ∀ mutation ∈ commit.keyMutations, shelf.permits mutation
  advanced : after = shelf.advance commit

/-- One exchange under the contract. The reads may return anything. -/
def handles (shelf : Shelf) (request : Request) (reply : Reply request) (after : Shelf) : Prop :=
  match request, reply with
  | .load, reply => after = shelf ∧ ∀ snapshot, reply = .ok snapshot → snapshot = shelf.durable
  | .compareAndSwap expected commit, reply =>
    (after = shelf ∨ shelf.Swapped expected commit after) ∧
      (reply = .ok ⟨expected.value + 1⟩ → shelf.Swapped expected commit after)
  | .settle revision id, _ => after = shelf ∨ shelf.Swapped revision
    ⟨shelf.durable.state, [], shelf.durable.pending.eraseP fun item => item.id = id⟩ after
  | .abortX25519 staged, _ => after = shelf.drop .x25519Private staged.custodyToken
  | .abortMlKem768 staged, _ => after = shelf.drop .mlKem768Private staged.custodyToken
  | _, _ => after = shelf

theorem put_live (shelf : Shelf) (purpose other : Purpose) (token token' : Nat)
    (lifecycle : Option Lifecycle) : (shelf.put purpose token lifecycle).live other token' =
      if other = purpose ∧ token' = token then lifecycle else shelf.live other token' := by
  change Function.update shelf.live purpose (Function.update (shelf.live purpose) token lifecycle)
    other token' = _
  by_cases hpurpose : other = purpose
  · subst hpurpose
    rw [Function.update_self, Function.update_apply]
    simp
  · rw [Function.update_of_ne hpurpose, if_neg fun h => hpurpose h.1]

theorem drop_durable (shelf : Shelf) (purpose : Purpose) (token : Nat) :
    (shelf.drop purpose token).durable = shelf.durable := by
  rw [drop]
  split <;> rfl

theorem drop_adopted {shelf : Shelf} {purpose other : Purpose} {token token' : Nat}
    (h : shelf.live other token' = some .adopted) :
    (shelf.drop purpose token).live other token' = some .adopted := by
  rw [drop]
  split
  · rename_i hstaged
    rw [put_live, if_neg, h]
    rintro ⟨rfl, rfl⟩
    rw [h] at hstaged
    cases hstaged
  · exact h

end Shelf

/-- The stores that admissions reach, one after another, from a new responder. In between the
caller stages keys under tokens that are free for their purpose, and drops staged ones. -/
inductive Admitted (provider : Provider) (line : RuntimeLine) : Shelf → Prop
  | new {shelf : Shelf} (durable : shelf.durable = .initial .responder)
      (unowned : ∀ purpose token, shelf.live purpose token = some .adopted →
        purpose ≠ .x25519Private ∧ purpose ≠ .mlKem768Private) : Admitted provider line shelf
  | stage {shelf : Shelf} {purpose : Purpose} {token : Nat} (before : Admitted provider line shelf)
      (free : shelf.live purpose token = none) :
      Admitted provider line (shelf.put purpose token (some .staged))
  | discard {shelf : Shelf} {purpose : Purpose} {token : Nat}
      (before : Admitted provider line shelf) : Admitted provider line (shelf.drop purpose token)
  | admitPrekey {shelf after : Shelf} {identity : IdentityPublic} {signing : IdentitySigningHandles}
      {pairSequence : Nat} {x25519Private : StagedSecretHandle .x25519Private}
      {mlKemPrivate : StagedSecretHandle .mlKem768Private} {validFrom validUntil : Nat}
      {bundle : PrekeyBundle} {trace : List (Program.Exchange interface Shelf)}
      (before : Admitted provider line shelf)
      (admits : @Program.Executes interface _ _ Eq Shelf.handles
        ((endpoint line provider).admitPrekey identity signing pairSequence x25519Private
          mlKemPrivate validFrom validUntil) shelf trace (.done (.ok bundle)) after) :
      Admitted provider line after

section Admission

variable {provider : Provider} {line : RuntimeLine} {shelf after : Shelf}

theorem Shelf.commits {next : EndpointState} {mutations : List KeyMutation}
    {pending : List PendingItem} :
    @Program.Meets interface _ _ Eq Shelf.handles (fun _ _ => True)
      (fun result after => result = .ok () →
        Commit.bounded next mutations pending maxEndpointKeyMutations 16 =
          .ok ⟨next, mutations, pending⟩ ∧
        shelf.Swapped shelf.durable.revision ⟨next, mutations, pending⟩ after)
      (commitReplacingPending store shelf.durable next mutations pending).run shelf := by
  by_cases hbounds : ∃ successor commit, shelf.durable.revision.successor = .ok successor ∧
      Commit.bounded next mutations pending maxEndpointKeyMutations 16 = .ok commit
  · obtain ⟨successor, commit, hsuccessor, hcommit⟩ := hbounds
    obtain ⟨_, rfl⟩ := Revision.successor_eq_ok.mp hsuccessor
    obtain ⟨_, _, _, _, rfl⟩ := Commit.bounded_eq_ok.mp hcommit
    rw [commitReplacingPending_run hsuccessor hcommit]
    rintro _ rfl
    refine ⟨trivial, fun reply after hhandled => ?_⟩
    cases reply with
    | ok revision =>
      rintro _ rfl hok
      rw [reject_eq_ok, not_not] at hok
      subst hok
      exact ⟨hcommit, hhandled.2 rfl⟩
    | error error =>
      rintro _ rfl
      refine ⟨trivial, fun reply last hload => ?_⟩
      obtain ⟨rfl, hload⟩ := hload
      rintro _ rfl hok
      refine ⟨hcommit, hhandled.1.resolve_left ?_⟩
      cases reply with
      | error e => cases hok
      | ok observed =>
        have hplanned := reconcile_eq_ok.mp hok
        rintro rfl
        rw [hload observed rfl] at hplanned
        have hrevision := congrArg (·.revision.value) hplanned
        simp at hrevision
  · obtain ⟨stage, hrun⟩ := commitReplacingPending_refused hbounds
    rw [hrun]
    rintro _ rfl hok
    cases hok

def anyReply : Outcomes (Program interface) := Program.outcomes fun _ _ => True

theorem Shelf.quiet : @Program.Quiet interface Shelf Eq Shelf.handles (fun _ _ => True)
    Request.quiet (fun _ _ _ => True) where
  permitted _ := trivial
  stays {request} _ _ _ hquiet hhandled := by
    cases request <;> first | exact ⟨hhandled, trivial⟩ | cases hquiet
  lasts _ _ := trivial

structure Shelf.Admits (shelf : Shelf) (x25519Private : StagedSecretHandle .x25519Private)
    (mlKemPrivate : StagedSecretHandle .mlKem768Private) (after : Shelf) : Prop where
  swapped : ∃ highWater active pairSequence bundle,
    shelf.durable.state.phase = .responderReady highWater active ∧
    highWater < pairSequence ∧ active.size < maxActivePrekeyPairs ∧
    shelf.Swapped shelf.durable.revision
      ⟨⟨.responderReady pairSequence (active.insert pairSequence
          ⟨bundle, x25519Private.adoptedHandle, mlKemPrivate.adoptedHandle⟩)⟩,
        [.adoptX25519 x25519Private, .adoptMlKem768 mlKemPrivate], shelf.durable.pending⟩ after
  apart : x25519Private.custodyToken ≠ mlKemPrivate.custodyToken

def Shelf.AdmitsIfOk (shelf : Shelf) (x25519Private : StagedSecretHandle .x25519Private)
    (mlKemPrivate : StagedSecretHandle .mlKem768Private) (result : Except Error PrekeyBundle)
    (after : Shelf) : Prop :=
  ∀ bundle, result = .ok bundle → shelf.Admits x25519Private mlKemPrivate after

theorem Shelf.abandons {x25519Private : StagedSecretHandle .x25519Private}
    {mlKemPrivate : StagedSecretHandle .mlKem768Private} {w : Shelf} (error : Error)
    (abandon : Program interface Unit) :
    @Program.Meets interface _ _ Eq Shelf.handles (fun _ _ => True)
      (shelf.AdmitsIfOk x25519Private mlKemPrivate) (abandon >>= fun _ => pure (.error error))
      w := by
  induction abandon generalizing w with
  | done u =>
    rintro _ rfl bundle hbundle
    cases hbundle
  | ask request next ih => exact fun _ _ => ⟨trivial, fun reply _ _ => ih reply⟩

theorem Shelf.admits {identity : IdentityPublic} {signing : IdentitySigningHandles}
    {pairSequence : Nat} {x25519Private : StagedSecretHandle .x25519Private}
    {mlKemPrivate : StagedSecretHandle .mlKem768Private} {validFrom validUntil : Nat} :
    @Program.Meets interface _ _ Eq Shelf.handles (fun _ _ => True)
      (shelf.AdmitsIfOk x25519Private mlKemPrivate)
      ((endpoint line provider).admitPrekey identity signing pairSequence x25519Private
        mlKemPrivate validFrom validUntil) shelf := by
  rintro _ rfl
  refine ⟨trivial, fun reply after hload => ?_⟩
  obtain ⟨rfl, hload⟩ := hload
  cases reply with
  | error e => exact Shelf.abandons e _
  | ok current =>
    cases hload current rfl
    have hreads : OnlyAsks Request.quiet ((endpoint line provider).decideAdmitPrekey identity
        signing pairSequence x25519Private mlKemPrivate validFrom validUntil after.durable) :=
      decide_quiet line provider (.admitPrekey identity signing pairSequence x25519Private
        mlKemPrivate validFrom validUntil) after.durable
    change @Program.Meets interface _ _ Eq Shelf.handles (fun _ _ => True)
      (after.AdmitsIfOk x25519Private mlKemPrivate)
      (((endpoint line provider).decideAdmitPrekey identity signing pairSequence x25519Private
        mlKemPrivate validFrom validUntil after.durable).run >>= fun decision => _) after
    refine Program.Meets.bind (fun _ => rfl) (Program.Meets.of_quiet Shelf.quiet
      (fun _ _ _ h h' => h.trans h') hreads ?_)
    rintro decision _ rfl hdecision
    cases decision with
    | error e => exact Shelf.abandons e _
    | ok decision =>
      obtain ⟨admission, rfl⟩ := Endpoint.mayOk_decideAdmitPrekey anyReply hdecision
      refine Program.Meets.bind (fun _ => rfl) (Shelf.commits.imp ?_)
      intro result w hresult
      cases result with
      | error e =>
        cases hretry : e.retryable with
        | true =>
          simp only [hretry, not_true_eq_false, if_false]
          rintro _ rfl _ hbundle
          cases hbundle
        | false =>
          simp only [hretry, Bool.false_eq_true, not_false_eq_true, if_true]
          exact Shelf.abandons _ _
      | ok u =>
        obtain ⟨hbounded, hswapped⟩ := hresult rfl
        rintro _ rfl _ _
        refine ⟨⟨admission.highWater, admission.active, pairSequence, admission.bundle,
          admission.phase, admission.fresh, admission.room, hswapped⟩, ?_⟩
        have hnodup := (Commit.bounded_eq_ok.mp hbounded).2.2.2.1
        simpa [KeyMutation.custodyToken] using hnodup

/-- What holds of a store that admissions reach: every active prekey has keys of its own. -/
structure Shelf.Standing (shelf : Shelf) : Prop where
  pending : shelf.durable.pending = []
  ready : ∃ highWater active, shelf.durable.state.phase = .responderReady highWater active ∧
    active.size ≤ maxActivePrekeyPairs ∧
    ∀ (key : Nat) (prekey : ActivePrekey), active[key]? = some prekey → key ≤ highWater ∧
      shelf.live .x25519Private prekey.x25519Private.custodyToken = some .adopted ∧
      shelf.live .mlKem768Private prekey.mlKemPrivate.custodyToken = some .adopted ∧
      ∀ (other : Nat) (prekey' : ActivePrekey), active[other]? = some prekey' → key ≠ other →
        prekey.x25519Private ≠ prekey'.x25519Private ∧ prekey.mlKemPrivate ≠ prekey'.mlKemPrivate

theorem Shelf.Standing.keep (h : shelf.Standing) (hdurable : after.durable = shelf.durable)
    (hlive : ∀ purpose token, shelf.live purpose token = some .adopted →
      after.live purpose token = some .adopted) : after.Standing := by
  obtain ⟨highWater, active, hphase, hsize, hkeys⟩ := h.ready
  refine ⟨hdurable ▸ h.pending, highWater, active, hdurable ▸ hphase, hsize, ?_⟩
  intro key prekey hprekey
  obtain ⟨hbound, hx, hkem, hothers⟩ := hkeys key prekey hprekey
  exact ⟨hbound, hlive _ _ hx, hlive _ _ hkem, hothers⟩

theorem Shelf.Standing.admitted {x25519Private : StagedSecretHandle .x25519Private}
    {mlKemPrivate : StagedSecretHandle .mlKem768Private} (h : shelf.Standing)
    (hadmits : shelf.Admits x25519Private mlKemPrivate after) : after.Standing := by
  obtain ⟨highWater, active, hphase, hsize, hkeys⟩ := h.ready
  obtain ⟨_, _, pairSequence, bundle, hphase', hfresh, hroom, hswapped⟩ := hadmits.swapped
  cases hphase.symm.trans hphase'
  have hx : shelf.live .x25519Private x25519Private.custodyToken = some .staged :=
    of_decide_eq_true (hswapped.permitted _ List.mem_cons_self)
  have hkem : shelf.live .mlKem768Private mlKemPrivate.custodyToken = some .staged :=
    of_decide_eq_true (hswapped.permitted _ (List.mem_cons_of_mem _ List.mem_cons_self))
  have hlive : ∀ purpose token, after.live purpose token =
      if purpose = .mlKem768Private ∧ token = mlKemPrivate.custodyToken ∨
        purpose = .x25519Private ∧ token = x25519Private.custodyToken then some .adopted
      else shelf.live purpose token := by
    intro purpose token
    rw [hswapped.advanced]
    change ((shelf.put .x25519Private x25519Private.custodyToken (some .adopted)).put
      .mlKem768Private mlKemPrivate.custodyToken (some .adopted)).live purpose token = _
    rw [Shelf.put_live, Shelf.put_live]
    by_cases hkem : purpose = .mlKem768Private ∧ token = mlKemPrivate.custodyToken
    · rw [if_pos hkem, if_pos (.inl hkem)]
    · simp only [hkem, false_or, if_false]
  refine ⟨by rw [hswapped.advanced]; exact h.pending, pairSequence, _, by
    rw [hswapped.advanced]; rfl, ?_, ?_⟩
  · rw [Std.ExtTreeMap.size_insert]
    split <;> omega
  · -- a staged key is none of the adopted keys of the prekeys before it
    have hnew : ∀ (key : Nat) (prekey : ActivePrekey), active[key]? = some prekey →
        prekey.x25519Private ≠ x25519Private.adoptedHandle ∧
        prekey.mlKemPrivate ≠ mlKemPrivate.adoptedHandle := by
      intro key prekey hprekey
      obtain ⟨_, hadopted, hadopted', _⟩ := hkeys key prekey hprekey
      constructor
      · intro heq
        rw [heq] at hadopted
        cases hx.symm.trans hadopted
      · intro heq
        rw [heq] at hadopted'
        cases hkem.symm.trans hadopted'
    intro key prekey hprekey
    rw [Std.ExtTreeMap.getElem?_insert] at hprekey
    split at hprekey
    · rename_i heq
      cases hprekey
      cases Nat.compare_eq_eq.mp heq
      refine ⟨le_rfl, by rw [hlive, if_pos (.inr ⟨rfl, rfl⟩)],
        by rw [hlive, if_pos (.inl ⟨rfl, rfl⟩)], ?_⟩
      intro other prekey' hother hne
      rw [active_insert_of_ne hne] at hother
      obtain ⟨hnx, hnkem⟩ := hnew other prekey' hother
      exact ⟨hnx.symm, hnkem.symm⟩
    · rename_i hne
      obtain ⟨hbound, hadopted, hadopted', hothers⟩ := hkeys key prekey hprekey
      refine ⟨by omega, by rw [hlive, hadopted, ite_self], by rw [hlive, hadopted', ite_self], ?_⟩
      intro other prekey' hother hne'
      rw [Std.ExtTreeMap.getElem?_insert] at hother
      split at hother
      · cases hother
        exact hnew key prekey hprekey
      · exact hothers other prekey' hother hne'

theorem Admitted.standing (h : Admitted provider line shelf) : shelf.Standing := by
  induction h with
  | new durable unowned =>
    refine ⟨durable ▸ rfl, 0, ∅, durable ▸ rfl, Nat.zero_le _, ?_⟩
    intro key prekey hprekey
    rw [Std.ExtTreeMap.getElem?_empty] at hprekey
    cases hprekey
  | stage _ free ih =>
    refine ih.keep rfl fun purpose token hadopted => ?_
    rw [Shelf.put_live, if_neg, hadopted]
    rintro ⟨rfl, rfl⟩
    rw [free] at hadopted
    cases hadopted
  | discard _ ih => exact ih.keep (Shelf.drop_durable _ _ _) fun _ _ => Shelf.drop_adopted
  | admitPrekey _ admits ih =>
    exact ih.admitted (Shelf.admits.result (fun _ => rfl) (fun _ _ _ h h' => h.trans h')
      admits _ rfl)

end Admission

section Commits

theorem tokens_perm {α : Type} (xs : List α) (x : α → Nat) (k : α → Nat) (keep : α → Bool) :
    (xs.map k ++ (xs.filter keep).map x).Perm
      (xs.flatMap fun a => k a :: if keep a then [x a] else []) := by
  induction xs with
  | nil => rfl
  | cons a xs ih =>
    rw [List.map_cons, List.flatMap_cons, List.cons_append, List.cons_append]
    refine .cons _ ?_
    by_cases hkeep : keep a
    · rw [List.filter_cons_of_pos hkeep, List.map_cons, if_pos hkeep]
      exact List.perm_middle.trans (ih.cons _)
    · rw [List.filter_cons_of_neg hkeep, if_neg hkeep]
      exact ih

variable {active : ActivePrekeys}

theorem deletion_tokens (highWater : Nat) : ((Endpoint.deletion
    (.responderReady highWater active)).2.map KeyMutation.custodyToken).Perm
      (active.toList.map (fun entry => entry.2.mlKemPrivate.custodyToken) ++
        active.toList.map fun entry => entry.2.x25519Private.custodyToken) := by
  have hperm := tokens_perm active.toList (fun entry => entry.2.x25519Private.custodyToken)
    (fun entry => entry.2.mlKemPrivate.custodyToken) fun _ => true
  rw [List.filter_true] at hperm
  refine .trans ?_ hperm.symm
  rw [Endpoint.deletion, List.map_flatMap]
  refine List.Perm.flatMap_left _ fun entry _ => ?_
  exact List.Perm.swap _ _ _

theorem acceptMutations_tokens (pairSequence : Nat) :
    ((Endpoint.acceptMutations active pairSequence).map KeyMutation.custodyToken).Perm
      (active.toList.map (fun entry => entry.2.mlKemPrivate.custodyToken) ++
        (active.toList.filter fun entry => entry.2.bundle.pairSequence ≠ pairSequence).map
          fun entry => entry.2.x25519Private.custodyToken) := by
  refine .trans ?_ (tokens_perm _ _ _ _).symm
  rw [Endpoint.acceptMutations, List.map_flatMap]
  refine List.Perm.flatMap_left _ fun entry _ => ?_
  by_cases hpair : entry.2.bundle.pairSequence ≠ pairSequence
  · simp [hpair, KeyMutation.custodyToken]
  · simp [hpair, KeyMutation.custodyToken]

/-- No token serves an X25519 key and an ML-KEM key of active prekeys. -/
def TokensApart (active : ActivePrekeys) : Prop :=
  ∀ (key other : Nat) (prekey prekey' : ActivePrekey), active[key]? = some prekey →
    active[other]? = some prekey' →
    prekey.x25519Private.custodyToken ≠ prekey'.mlKemPrivate.custodyToken

/-- Every commit that an operation decides on passes the bounds, whatever its reads return. -/
def Operation.Bounded (provider : Provider) (line : RuntimeLine) (operation : Operation)
    (current : Snapshot) : Prop :=
  ∀ plan unused, anyReply.mayOk (operation.decide (endpoint line provider) current)
    (.commit plan unused) → ∃ pending commit, plan.pending = .ok pending ∧
      Commit.bounded plan.next plan.mutations pending maxEndpointKeyMutations 16 = .ok commit

variable {provider : Provider} {line : RuntimeLine} {shelf : Shelf} {highWater : Nat}

theorem mem_active {entry : Nat × ActivePrekey} :
    entry ∈ active.toList ↔ active[entry.1]? = some entry.2 :=
  Std.ExtTreeMap.mem_toList_iff_getElem?_eq_some

theorem tokens_nodup {token : ActivePrekey → Nat}
    (h : ∀ (key other : Nat) (prekey prekey' : ActivePrekey), active[key]? = some prekey →
      active[other]? = some prekey' → key ≠ other → token prekey ≠ token prekey') :
    (active.toList.map fun entry => token entry.2).Nodup := by
  rw [List.Nodup, List.pairwise_map]
  refine List.Pairwise.imp_of_mem ?_ (Std.ExtTreeMap.distinct_keys_toList (t := active))
  intro entry entry' hentry hentry' hne
  refine h _ _ _ _ (mem_active.mp hentry) (mem_active.mp hentry') fun heq => hne ?_
  exact Nat.compare_eq_eq.mpr heq

theorem Shelf.Standing.nodup (h : shelf.Standing)
    (hphase : shelf.durable.state.phase = .responderReady highWater active) :
    (active.toList.map fun entry => entry.2.x25519Private.custodyToken).Nodup ∧
      (active.toList.map fun entry => entry.2.mlKemPrivate.custodyToken).Nodup := by
  obtain ⟨_, _, hphase', _, hkeys⟩ := h.ready
  cases hphase.symm.trans hphase'
  constructor
  · refine @tokens_nodup active (fun prekey => prekey.x25519Private.custodyToken) ?_
    intro key other prekey prekey' hprekey hother hne heq
    obtain ⟨_, _, _, hothers⟩ := hkeys key prekey hprekey
    exact (hothers other prekey' hother hne).1 (SecretHandle.ext heq)
  · refine @tokens_nodup active (fun prekey => prekey.mlKemPrivate.custodyToken) ?_
    intro key other prekey prekey' hprekey hother hne heq
    obtain ⟨_, _, _, hothers⟩ := hkeys key prekey hprekey
    exact (hothers other prekey' hother hne).2 (SecretHandle.ext heq)

theorem TokensApart.disjoint (h : TokensApart active) {token : Nat}
    (hkem : token ∈ active.toList.map fun entry => entry.2.mlKemPrivate.custodyToken) {token' : Nat}
    (hx : token' ∈ active.toList.map fun entry => entry.2.x25519Private.custodyToken) :
    token ≠ token' := by
  obtain ⟨entry, hentry, rfl⟩ := List.mem_map.mp hkem
  obtain ⟨entry', hentry', rfl⟩ := List.mem_map.mp hx
  exact (h _ _ _ _ (mem_active.mp hentry') (mem_active.mp hentry)).symm

/-- The deletion of a ready responder is bounded exactly where its tokens are apart. -/
theorem Shelf.Standing.delete_bounded (h : shelf.Standing)
    (hphase : shelf.durable.state.phase = .responderReady highWater active) :
    Operation.deleteSession.Bounded provider line shelf.durable ↔ TokensApart active := by
  have hsize : active.size ≤ maxActivePrekeyPairs := by
    obtain ⟨_, _, hphase', hsize, _⟩ := h.ready
    cases hphase.symm.trans hphase'
    exact hsize
  have hnodup := h.nodup hphase
  have hperm := @deletion_tokens active highWater
  constructor
  · intro hbounded key other prekey prekey' hprekey hother heq
    have hdecided : anyReply.mayOk (Endpoint.decideDeleteSession shelf.durable)
        (.commit ⟨⟨.deleted (some highWater)⟩,
          (Endpoint.deletion (.responderReady highWater active)).2, .ok [], ()⟩ none) := by
      simp only [Endpoint.decideDeleteSession, Outcomes.mayOk_bind, Outcomes.mayOk_lift,
        ensureLive_eq_ok, Outcomes.mayOk_pure, hphase]
      exact ⟨(), (by rintro _ ⟨⟩), rfl⟩
    obtain ⟨pending, commit, _, hcommit⟩ := hbounded _ _ hdecided
    have htokens := hperm.nodup_iff.mp (Commit.bounded_eq_ok.mp hcommit).2.2.2.1
    have hx : prekey.x25519Private.custodyToken ∈
        active.toList.map fun entry => entry.2.x25519Private.custodyToken :=
      List.mem_map.mpr ⟨(key, prekey), mem_active.mpr hprekey, rfl⟩
    have hkem : prekey.x25519Private.custodyToken ∈
        active.toList.map fun entry => entry.2.mlKemPrivate.custodyToken :=
      List.mem_map.mpr ⟨(other, prekey'), mem_active.mpr hother, heq.symm⟩
    exact (List.nodup_append.mp htokens).2.2 _ hkem _ hx rfl
  · intro hapart plan unused hdecided
    obtain ⟨_, heq⟩ := Endpoint.mayOk_decideDeleteSession anyReply hdecided
    cases heq
    rw [hphase]
    refine ⟨[], _, rfl, Commit.bounded_eq_ok.mpr ⟨?_, Nat.zero_le _, List.nodup_nil, ?_, rfl⟩⟩
    · have hlength := hperm.length_eq
      simp only [List.length_map, List.length_append, Std.ExtTreeMap.length_toList] at hlength
      rw [hlength, maxEndpointKeyMutations]
      omega
    · exact hperm.nodup_iff.mpr (List.nodup_append.mpr ⟨hnodup.2, hnodup.1,
        fun token hkem token' hx => hapart.disjoint hkem hx⟩)

theorem Shelf.Standing.accept_bounded (h : shelf.Standing)
    (hphase : shelf.durable.state.phase = .responderReady highWater active)
    (hapart : TokensApart active) (initiator : TrustedIdentity) (responder : IdentityPublic)
    (authority : FixedBytes 32) (packet : FirstPacket) :
    (Operation.acceptFirstPacket initiator responder authority packet).Bounded provider line
      shelf.durable := by
  have hsize : active.size ≤ maxActivePrekeyPairs := by
    obtain ⟨_, _, hphase', hsize, _⟩ := h.ready
    cases hphase.symm.trans hphase'
    exact hsize
  have hnodup := h.nodup hphase
  have hperm := @acceptMutations_tokens active packet.prekey.pairSequence
  have hsublist : ((active.toList.filter fun entry =>
      entry.2.bundle.pairSequence ≠ packet.prekey.pairSequence).map
        fun entry => entry.2.x25519Private.custodyToken).Sublist
      (active.toList.map fun entry => entry.2.x25519Private.custodyToken) :=
    List.filter_sublist.map _
  intro plan unused hdecided
  obtain ⟨_, _, _, _, _, ⟨_, heq⟩ | ⟨acceptance, heq⟩⟩ :=
    (Endpoint.mayOk_decideAcceptFirstPacket anyReply).mp hdecided
  · cases heq
  · have hactive : active = acceptance.active := by
      cases hphase.symm.trans acceptance.phase
      rfl
    cases heq
    rw [hactive] at hperm hsize hsublist hnodup hapart
    refine ⟨_, _, rfl, Commit.bounded_eq_ok.mpr ⟨?_, ?_, ?_, ?_, rfl⟩⟩
    · have hlength := hperm.length_eq
      have hkept := hsublist.length_le
      simp only [List.length_map, List.length_append, Std.ExtTreeMap.length_toList] at hlength hkept
      rw [hlength, maxEndpointKeyMutations]
      omega
    · rw [h.pending]
      exact Nat.zero_le _
    · rw [h.pending]
      exact List.nodup_nil
    · exact hperm.nodup_iff.mpr (List.nodup_append.mpr ⟨hnodup.2, hnodup.1.sublist hsublist,
        fun token hkem token' hx => hapart.disjoint hkem (hsublist.subset hx)⟩)

end Commits

/-! ## A custody that gives one token to two purposes -/

namespace Shelf

open Refused

/-- A store that applies every swap that the contract allows, and a custody of zero keys. -/
def serve : (request : Request) → Shelf → Reply request × Shelf
  | .load, shelf => (.ok shelf.durable, shelf)
  | .compareAndSwap expected commit, shelf =>
    if expected = shelf.durable.revision ∧ expected.value < maxSafeInteger ∧
        ∀ mutation ∈ commit.keyMutations, shelf.permits mutation then
      (.ok ⟨expected.value + 1⟩, shelf.advance commit)
    else (.error (.terminal .conflict .commit), shelf)
  | .settle _ _, shelf => (.error unavailable, shelf)
  | .ed25519Public _, shelf => (.ok (.zero 32), shelf)
  | .ed25519Sign _ _, shelf => (.ok (.zero 64), shelf)
  | .mlDsa65Public _, shelf => (.ok (List.replicate mlDsa65PublicKeyBytes 0), shelf)
  | .mlDsa65Sign _ _, shelf => (.ok (List.replicate mlDsa65SignatureBytes 0), shelf)
  | .x25519Public _, shelf => (.ok (.zero 32), shelf)
  | .x25519 _ _, shelf => (.ok (.zero 32), shelf)
  | .mlKem768Public _, shelf => (.ok (List.replicate mlKem768PublicKeyBytes 0), shelf)
  | .mlKem768Encapsulate _ _, shelf => (.error unavailable, shelf)
  | .mlKem768Decapsulate _ _, shelf => (.ok (.zero 32), shelf)
  | .abortX25519 staged, shelf => ((), shelf.drop .x25519Private staged.custodyToken)
  | .abortMlKem768 staged, shelf => ((), shelf.drop .mlKem768Private staged.custodyToken)
  | .now, shelf => (.ok 0, shelf)
  | .carry _, shelf => (.ok (), shelf)
  | .apply _, shelf => (.ok (), shelf)
  | .release _, shelf => (.ok (), shelf)

theorem handles_serve (request : Request) (shelf : Shelf) :
    shelf.handles request (serve request shelf).1 (serve request shelf).2 := by
  cases request with
  | load => exact ⟨rfl, fun _ h => (Except.ok.inj h).symm⟩
  | compareAndSwap expected commit =>
    rw [serve]
    split
    · rename_i h
      have hswapped : shelf.Swapped expected commit (shelf.advance commit) :=
        ⟨h.1, h.2.1, h.2.2, rfl⟩
      exact ⟨.inr hswapped, fun _ => hswapped⟩
    · exact ⟨.inl rfl, nofun⟩
  | settle revision id => exact .inl rfl
  | _ => exact rfl

/-- Two pairs of staged keys, and the token of the ML-KEM key of the second. -/
def start (mlKem : Nat) : Shelf where
  durable := .initial .responder
  live purpose token :=
    if (purpose, token) ∈ [(Purpose.x25519Private, 2), (.mlKem768Private, 3), (.x25519Private, 4),
      (.mlKem768Private, mlKem)] then some .staged else none

def admission (pairSequence x25519 mlKem : Nat) : Program interface (Except Error PrekeyBundle) :=
  (endpoint line provider).admitPrekey identity ⟨⟨0⟩, ⟨1⟩⟩ pairSequence ⟨x25519⟩ ⟨mlKem⟩ 0 10

def first (mlKem : Nat) : Except Error PrekeyBundle × Shelf :=
  (admission 1 2 3).run serve (start mlKem)

def second (mlKem : Nat) : Except Error PrekeyBundle × Shelf :=
  (admission 2 4 mlKem).run serve (first mlKem).2

theorem admissions_ok : ([2, 5].all fun mlKem => (first mlKem).1.isOk && (second mlKem).1.isOk) =
    true := by
  decide +kernel

theorem start_admitted (mlKem : Nat) : Admitted provider line (start mlKem) := by
  refine .new rfl fun purpose token hadopted => ?_
  rw [start] at hadopted
  simp only at hadopted
  split at hadopted <;> cases hadopted

theorem admitted_of_run {shelf after : Shelf} {pairSequence x25519 mlKem : Nat}
    {bundle : PrekeyBundle} (h : Admitted provider line shelf)
    (hrun : (admission pairSequence x25519 mlKem).run serve shelf = (.ok bundle, after)) :
    Admitted provider line after ∧ shelf.Admits ⟨x25519⟩ ⟨mlKem⟩ after := by
  have hplays : (admission pairSequence x25519 mlKem).Plays serve shelf
      ((admission pairSequence x25519 mlKem).trace serve shelf) (.ok bundle) after := ⟨hrun, rfl⟩
  have hexecutes : @Program.Executes interface _ _ Eq Shelf.handles
      (admission pairSequence x25519 mlKem) shelf
      ((admission pairSequence x25519 mlKem).trace serve shelf) (.done (.ok bundle)) after :=
    hplays.executes (fun request w => handles_serve request w) fun _ => rfl
  exact ⟨.admitPrekey h hexecutes,
    Shelf.admits.result (fun _ => rfl) (fun _ _ _ h h' => h.trans h') hexecutes _ rfl⟩

theorem active_of_insert {active : ActivePrekeys} {key other : Nat} {prekey prekey' : ActivePrekey}
    (h : (active.insert key prekey)[other]? = some prekey') :
    prekey' = prekey ∨ active[other]? = some prekey' := by
  rw [Std.ExtTreeMap.getElem?_insert] at h
  split at h
  · exact .inl (Option.some.inj h).symm
  · exact .inr h

theorem active_of_pair {key key' other : Nat} {prekey prekey' prekey'' : ActivePrekey}
    (h : (((∅ : ActivePrekeys).insert key prekey).insert key' prekey')[other]? = some prekey'') :
    prekey'' = prekey' ∨ prekey'' = prekey := by
  refine (active_of_insert h).imp_right fun h => (active_of_insert h).resolve_right fun h => ?_
  rw [Std.ExtTreeMap.getElem?_empty] at h
  cases h

theorem reached {mlKem : Nat} (hmem : mlKem ∈ [2, 5]) : ∃ key prekey key' prekey', key < key' ∧
    Admitted provider line (second mlKem).2 ∧ (second mlKem).2.durable.state.phase =
      .responderReady key' (((∅ : ActivePrekeys).insert key prekey).insert key' prekey') ∧
    prekey.x25519Private = ⟨2⟩ ∧ prekey.mlKemPrivate = ⟨3⟩ ∧
    prekey'.x25519Private = ⟨4⟩ ∧ prekey'.mlKemPrivate = ⟨mlKem⟩ := by
  have hok := List.all_eq_true.mp admissions_ok mlKem hmem
  rw [Bool.and_eq_true] at hok
  cases hfirst : first mlKem with
  | mk result w =>
    cases hsecond : second mlKem with
    | mk result' w' =>
      rw [hfirst, hsecond] at hok
      cases result with
      | error e => cases hok.1
      | ok bundle =>
        cases result' with
        | error e => cases hok.2
        | ok bundle' =>
          have hrun : (admission 2 4 mlKem).run serve w = (.ok bundle', w') := by
            rw [← hsecond, second, hfirst]
          obtain ⟨hadmitted, hadmits⟩ := admitted_of_run (start_admitted mlKem) hfirst
          obtain ⟨hadmitted', hadmits'⟩ := admitted_of_run hadmitted hrun
          obtain ⟨_, _, key, _, hphase, _, _, hswapped⟩ := hadmits.swapped
          cases hphase
          obtain ⟨_, _, key', _, hphase', hfresh, _, hswapped'⟩ := hadmits'.swapped
          rw [hswapped.advanced] at hphase'
          cases hphase'
          exact ⟨key, _, key', _, hfresh, hadmitted', by rw [hswapped'.advanced]; rfl, rfl, rfl,
            rfl, rfl⟩

end Shelf

section Commits

variable {provider : Provider} {line : RuntimeLine} {shelf : Shelf} {highWater : Nat}
  {active : ActivePrekeys}

/-- A responder that admissions reach can be torn down and used exactly where no token serves two of
its active keys. -/
theorem teardown_iff (h : Admitted provider line shelf)
    (hphase : shelf.durable.state.phase = .responderReady highWater active) :
    (Operation.deleteSession.Bounded provider line shelf.durable ∧
      ∀ initiator responder authority packet,
        (Operation.acceptFirstPacket initiator responder authority packet).Bounded provider line
          shelf.durable) ↔ TokensApart active := by
  constructor
  · intro hbounded
    exact (h.standing.delete_bounded hphase).mp hbounded.1
  · intro hapart
    exact ⟨(h.standing.delete_bounded hphase).mpr hapart, h.standing.accept_bounded hphase hapart⟩

end Commits

namespace Shelf

open Refused

/-- Two admissions with tokens of their own leave a responder that can be torn down. -/
theorem teardown_apart : ∃ highWater active,
    (second 5).2.durable.state.phase = .responderReady highWater active ∧ active.size = 2 ∧
    TokensApart active ∧ Operation.deleteSession.Bounded provider line (second 5).2.durable := by
  obtain ⟨key, prekey, key', prekey', hlt, hadmitted, hphase, hx, hkem, hx', hkem'⟩ :=
    @reached 5 (by decide)
  have hapart : TokensApart (((∅ : ActivePrekeys).insert key prekey).insert key' prekey') := by
    intro _ _ _ _ hfound hfound'
    rcases active_of_pair hfound with rfl | rfl <;> rcases active_of_pair hfound' with rfl | rfl <;>
      simp only [hx, hkem, hx', hkem'] <;> decide
  refine ⟨_, _, hphase, ?_, hapart, ((teardown_iff hadmitted hphase).mpr hapart).1⟩
  rw [Std.ExtTreeMap.size_insert, if_neg, Std.ExtTreeMap.size_insert, if_neg]
  · rfl
  · exact Std.ExtTreeMap.not_mem_empty
  · rw [← Std.ExtTreeMap.mem_iff_contains, Std.ExtTreeMap.mem_insert, not_or]
    exact ⟨fun heq => hlt.ne (Nat.compare_eq_eq.mp heq), Std.ExtTreeMap.not_mem_empty⟩

/-- Where the second one has a token that an active key of the other purpose has, it cannot. -/
theorem teardown_refused : Admitted provider line (second 2).2 ∧
    ¬Operation.deleteSession.Bounded provider line (second 2).2.durable := by
  obtain ⟨key, prekey, key', prekey', hlt, hadmitted, hphase, hx, _, _, hkem⟩ :=
    @reached 2 (by decide)
  refine ⟨hadmitted, fun hbounded => ?_⟩
  have hapart := (hadmitted.standing.delete_bounded hphase).mp hbounded
  refine hapart key key' prekey prekey' ?_ Std.ExtTreeMap.getElem?_insert_self (by rw [hx, hkem])
  rw [active_insert_of_ne hlt.ne']
  exact Std.ExtTreeMap.getElem?_insert_self

end Shelf

end LicoArc
