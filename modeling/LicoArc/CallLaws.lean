import LicoArc.Calls

/-!
# The rule for an operation

What a decision asks for, and the rule that carries a property of every
decision on a durable snapshot to every run of the operation.
-/

namespace LicoArc

open Backend

/-! ## Decisions only read -/

theorem onlyAsks_now : OnlyAsks Request.quiet (ExceptT.mk clock.nowUnixSeconds) :=
  ⟨trivial, fun _ => trivial⟩

theorem onlyAsks_bootstrapResponder (state : RatchetState) (provider : Provider)
    (fresh : StagedSecretHandle .x25519Private) :
    OnlyAsks Request.quiet (state.bootstrapResponder provider custody fresh) := by
  simp only [RatchetState.bootstrapResponder, dhStep]
  repeat' with_reducible first
    | refine onlyAsks_bind ?_ fun _ => ?_
    | exact onlyAsks_lift _
    | exact onlyAsks_pure _
    | refine onlyAsks_attempt ?_
  all_goals exact ⟨trivial, fun _ => trivial⟩

theorem onlyAsks_receive (state : RatchetState) (provider : Provider) (packet : Bytes)
    (fresh : Option (StagedSecretHandle .x25519Private)) :
    OnlyAsks Request.quiet (state.receive provider custody packet fresh) := by
  simp only [RatchetState.receive, RatchetState.receiveDhTransition, dhStep]
  repeat' with_reducible first
    | refine onlyAsks_bind ?_ fun _ => ?_
    | exact onlyAsks_lift _
    | exact onlyAsks_pure _
    | refine onlyAsks_attempt ?_
    | split
  all_goals exact ⟨trivial, fun _ => trivial⟩

theorem decide_quiet (line : RuntimeLine) (provider : Provider) (operation : Operation)
    (current : Snapshot) :
    OnlyAsks Request.quiet (operation.decide (endpoint line provider) current) := by
  cases operation <;>
    simp only [Operation.decide, Endpoint.decideAdmitPrekey, Endpoint.decideAcceptFirstPacket,
      Endpoint.decideCreateFirstPacket, Endpoint.decideNewFirstPacket,
      Endpoint.decideVerifySessionAccept, Endpoint.decideSendRecord, Endpoint.sendingRatchet,
      Endpoint.decideReceiveRecord, Endpoint.decideBootstrapCapabilities,
      Endpoint.decideApplyCompleteCapabilityFlow, Endpoint.decideDeleteSession,
      verifyLocalSigning, endpoint] <;>
    repeat' with_reducible first
      | refine onlyAsks_bind ?_ fun _ => ?_
      | exact onlyAsks_lift _
      | exact onlyAsks_pure _
      | exact onlyAsks_throw _
      | exact onlyAsks_now
      | refine onlyAsks_attempt ?_
      | exact onlyAsks_bootstrapResponder _ _ _
      | exact onlyAsks_receive _ _ _ _
      | split
  all_goals exact ⟨trivial, fun _ => trivial⟩

/-! ## The commit, request by request -/

def verdict (current : Snapshot) (next : EndpointState) (pending : List PendingItem)
    (successor : Revision) (error : Error) : Except Error Snapshot → Except Error Unit
  | .ok observed => reconcile current next pending successor error observed
  | .error _ => .error (.retry .providerFailure .commit)

def afterSwap (current : Snapshot) (next : EndpointState) (pending : List PendingItem)
    (successor : Revision) : Except Error Revision → Program interface (Except Error Unit)
  | .ok revision => .done (reject (revision ≠ successor) (.retry .providerFailure .commit))
  | .error error => @Program.ask interface _ Request.load fun reply =>
      .done (verdict current next pending successor error reply)

section

variable {current : Snapshot} {next : EndpointState} {mutations : List KeyMutation}
  {pending : List PendingItem}

theorem commitReplacingPending_run {successor : Revision} {commit : Commit EndpointState}
    (hsuccessor : current.revision.successor = .ok successor)
    (hcommit : Commit.bounded next mutations pending maxEndpointKeyMutations 16 = .ok commit) :
    (commitReplacingPending store current next mutations pending).run =
      @Program.ask interface _ (Request.compareAndSwap current.revision commit)
        (afterSwap current next pending successor) := by
  unfold commitReplacingPending
  rw [hsuccessor, hcommit]
  change Program.ask _ _ = Program.ask _ _
  congr 1
  funext reply
  cases reply with
  | ok revision => rfl
  | error error =>
    change Program.ask _ _ = Program.ask _ _
    congr 1
    funext reply
    cases reply <;> rfl

theorem commitReplacingPending_refused
    (h : ¬∃ successor commit, current.revision.successor = .ok successor ∧
      Commit.bounded next mutations pending maxEndpointKeyMutations 16 = .ok commit) :
    ∃ stage, (commitReplacingPending store current next mutations pending).run =
      .done (.error (.terminal .boundExceeded stage)) := by
  unfold commitReplacingPending
  cases hsuccessor : current.revision.successor with
  | error e =>
    simp only [Revision.successor] at hsuccessor
    split at hsuccessor
    · cases hsuccessor
      exact ⟨_, rfl⟩
    · cases hsuccessor
  | ok successor =>
    cases hcommit : Commit.bounded next mutations pending maxEndpointKeyMutations 16 with
    | error e =>
      cases Commit.bounded_eq_error hcommit
      exact ⟨_, rfl⟩
    | ok commit => exact absurd ⟨successor, commit, hsuccessor, hcommit⟩ h

theorem reconcile_eq_ok {successor : Revision} {error : Error} {observed : Snapshot} :
    reconcile current next pending successor error observed = .ok () ↔
      observed = ⟨successor, next, pending⟩ := by
  rw [reconcile]
  constructor
  · intro h
    split at h
    · rename_i heq
      obtain ⟨hrevision, hstate, hpending⟩ := heq
      cases observed
      cases hrevision
      cases hstate
      cases hpending
      rfl
    · split at h
      · cases h
      · split at h <;> cases h
  · rintro rfl
    rw [if_pos ⟨rfl, rfl, rfl⟩]

/-- A second load leaves nothing open only where it shows the old revision. -/
theorem reconcile_terminal {successor : Revision} {error e : Error} {observed : Snapshot}
    (h : reconcile current next pending successor error observed = .error e)
    (he : e.retryable = false) : observed.revision = current.revision := by
  rw [reconcile] at h
  split at h
  · cases h
  · split at h
    · rename_i heq
      exact heq.1
    · split at h <;> cases h <;> cases he

end

/-! ## Decisions on a world -/

/-- What a decision may return when its reads answer from the keys issued in a world. -/
def decides (provider : Provider) (w : World) : Outcomes (Program interface) :=
  Program.outcomes (Reads provider w.issued)

theorem mayOk_later {provider : Provider} {w w' : World} (h : w.Later w') {α : Type}
    {x : ExceptT Error (Program interface) α} {a : α} (hx : (decides provider w).mayOk x a) :
    (decides provider w').mayOk x a :=
  Program.Yields.mono (fun _ _ hreads => hreads.mono fun _ hx => h.issued.subset hx) hx

def Decision.unused {α : Type} : Decision α → Option (StagedSecretHandle .x25519Private)
  | answer _ unused | commit _ unused => unused

def planned (current : Snapshot) (next : EndpointState) (pending : List PendingItem) : Snapshot :=
  ⟨⟨current.revision.value + 1⟩, next, pending⟩

/-- The discipline of the world around one call: what others may do, which requests the call may
make, and what must hold for it to give up a staged handle. -/
structure Discipline (provider : Provider) (rely : World → World → Prop)
    (permit : Request → World → Prop) (kept : World → Prop) (gives : Request → Prop) : Prop where
  refl (w : World) : rely w w
  trans (w w' w'' : World) : rely w w' → rely w' w'' → rely w w''
  later (w w' : World) : rely w w' → w.Later w'
  load (w : World) : permit .load w
  quiet (request : Request) (w : World) : request.quiet → permit request w
  stable (w w' : World) : rely w w' → kept w → kept w'
  give (request : Request) (w : World) : gives request → kept w → permit request w ∧
    ∀ reply w', handles provider w request reply w' → kept w'

namespace Discipline

variable {provider : Provider} {rely : World → World → Prop} {permit : Request → World → Prop}
  {kept : World → Prop} {gives : Request → Prop} {α : Type} {w : World}

theorem giving (d : Discipline provider rely permit kept gives) {p : Program interface α}
    {post : α → World → Prop} (honly : p.Only gives) (hkept : kept w)
    (hpost : ∀ a w', w.Later w' → kept w' → post a w') :
    p.Meets rely (handles provider) permit post w := by
  induction p generalizing w with
  | done a => exact fun w' hw' => hpost a w' (d.later _ _ hw') (d.stable _ _ hw' hkept)
  | ask request next ih =>
    intro w' hw'
    obtain ⟨hpermit, hgiven⟩ := d.give request w' honly.1 (d.stable _ _ hw' hkept)
    refine ⟨hpermit, fun reply w'' hhandled => ?_⟩
    refine ih reply (honly.2 reply) (hgiven reply w'' hhandled) fun a w₃ hw₃ => hpost a w₃ ?_
    exact (d.later _ _ hw').trans ((later_of_handles hhandled).trans hw₃)

theorem reads (d : Discipline provider rely permit kept gives) :
    @Program.Quiet interface World rely (handles provider) permit Request.quiet
      (fun w => Reads provider w.issued) where
  permitted hquiet := d.quiet _ _ hquiet
  stays {request} _ _ _ hquiet hhandled := by
    cases request with
    | load => cases hquiet
    | compareAndSwap => cases hquiet
    | settle => cases hquiet
    | abortX25519 => cases hquiet
    | abortMlKem768 => cases hquiet
    | _ => exact hhandled
  lasts hrely hreads := hreads.mono fun _ hx => (d.later _ _ hrely).issued.subset hx

/-- A commit that succeeds has made the planned snapshot durable, and one that fails for good has
changed nothing. -/
theorem commits (d : Discipline provider rely permit kept gives) (current : Snapshot)
    {next : EndpointState} {mutations : List KeyMutation} (pending : List PendingItem)
    (hkept : kept w)
    (hswap : ∀ commit w', rely w w' → kept w' →
      Commit.bounded next mutations pending maxEndpointKeyMutations 16 = .ok commit →
      permit (.compareAndSwap current.revision commit) w') :
    Program.Meets rely (handles provider) permit
      (fun result w' => w.Later w' ∧ match result with
        | .ok () => planned current next pending ∈ w'.snapshots.entries
        | .error e => e.retryable = false → kept w')
      (commitReplacingPending store current next mutations pending).run w := by
  by_cases hbounds : ∃ successor commit, current.revision.successor = .ok successor ∧
      Commit.bounded next mutations pending maxEndpointKeyMutations 16 = .ok commit
  · obtain ⟨successor, commit, hsuccessor, hcommit⟩ := hbounds
    obtain ⟨_, rfl⟩ := Revision.successor_eq_ok.mp hsuccessor
    obtain ⟨_, _, _, _, rfl⟩ := Commit.bounded_eq_ok.mp hcommit
    rw [commitReplacingPending_run hsuccessor hcommit]
    intro w₁ hw₁
    have hkept₁ := d.stable _ _ hw₁ hkept
    refine ⟨hswap _ w₁ hw₁ hkept₁ hcommit, fun reply w₂ hhandled => ?_⟩
    have hlater₂ : w.Later w₂ := (d.later _ _ hw₁).trans (later_of_handles hhandled)
    have hdone : ∀ w₃, w₂.Later w₃ → w₁.Swapped current.revision ⟨next, mutations, pending⟩ w₂ →
        planned current next pending ∈ w₃.snapshots.entries := by
      intro w₃ hlater hswapped
      apply hlater.snapshots.mem
      rw [hswapped.advanced, World.advance_entries, planned, hswapped.current]
      exact List.mem_cons_self
    cases reply with
    | ok revision =>
      intro w₃ hw₃
      by_cases hrevision : revision = ⟨current.revision.value + 1⟩
      · subst hrevision
        rw [reject_of_not _ (not_not.mpr rfl)]
        exact ⟨hlater₂.trans (d.later _ _ hw₃), hdone w₃ (d.later _ _ hw₃) (hhandled.2 rfl)⟩
      · rw [reject, if_pos hrevision]
        exact ⟨hlater₂.trans (d.later _ _ hw₃), nofun⟩
    | error error =>
      intro w₃ hw₃
      refine ⟨d.load w₃, fun reply w₄ hload => ?_⟩
      obtain ⟨rfl, hload⟩ := hload
      intro w₅ hw₅
      refine ⟨hlater₂.trans ((d.later _ _ hw₃).trans (d.later _ _ hw₅)), ?_⟩
      cases reply with
      | error e => exact nofun
      | ok observed =>
        cases hload observed rfl
        cases hverdict : reconcile current next pending ⟨current.revision.value + 1⟩ error
            w₄.durable with
        | ok u =>
          have hplanned : w₄.durable = planned current next pending :=
            reconcile_eq_ok.mp hverdict
          rw [verdict, hverdict]
          exact (d.later _ _ hw₅).snapshots.mem (hplanned ▸ w₄.snapshots.newest_mem)
        | error e =>
          rw [verdict, hverdict]
          intro hterminal
          have hrevision := reconcile_terminal hverdict hterminal
          rcases hhandled.1 with rfl | hswapped
          · exact d.stable _ _ hw₅ (d.stable _ _ hw₃ hkept₁)
          · -- A swap that was applied would show in the second load.
            have hgrown := (d.later _ _ hw₃).snapshots.rank_le
            rw [hswapped.advanced] at hgrown
            have hold : w₄.durable.revision.value = w₁.durable.revision.value := by
              rw [hrevision, hswapped.current]
            change w₁.durable.revision.value + 1 ≤ w₄.durable.revision.value at hgrown
            omega
  · obtain ⟨stage, hrun⟩ := commitReplacingPending_refused hbounds
    rw [hrun]
    exact fun w' hw' => ⟨d.later _ _ hw', fun _ => d.stable _ _ hw' hkept⟩

/-- What the rule for an operation needs of its decisions. -/
structure Carries (provider : Provider) (kept : World → Prop) (permit : Request → World → Prop)
    (gives : Request → Prop) (post : Except Error α → World → Prop)
    (decide : Snapshot → ExceptT Error (Program interface) (Decision α))
    (abandon : Program interface Unit) : Prop where
  reads (current : Snapshot) : OnlyAsks Request.quiet (decide current)
  abandons : abandon.Only gives
  unused {w : World} {current : Snapshot} {decision : Decision α} {staged} :
    (decides provider w).mayOk (decide current) decision → decision.unused = some staged →
      gives (.abortX25519 staged)
  swaps {w : World} {current : Snapshot} {plan : Plan α} {unused} {pending : List PendingItem}
    {commit : Commit EndpointState} : kept w → current ∈ w.snapshots.entries →
      (decides provider w).mayOk (decide current) (.commit plan unused) →
      plan.pending = .ok pending →
      Commit.bounded plan.next plan.mutations pending maxEndpointKeyMutations 16 = .ok commit →
      permit (.compareAndSwap current.revision commit) w
  answers {w : World} {current : Snapshot} {value : α} {unused} :
    current ∈ w.snapshots.entries →
      (decides provider w).mayOk (decide current) (.answer value unused) → post (.ok value) w
  commits {w : World} {current : Snapshot} {plan : Plan α} {unused} {pending : List PendingItem} :
    current ∈ w.snapshots.entries →
      (decides provider w).mayOk (decide current) (.commit plan unused) →
      plan.pending = .ok pending → planned current plan.next pending ∈ w.snapshots.entries →
      post (.ok plan.value) w
  fails (e : Error) (w : World) : post (.error e) w

variable {permit : Request → World → Prop} {post : Except Error α → World → Prop}
  {decide : Snapshot → ExceptT Error (Program interface) (Decision α)}
  {abandon : Program interface Unit} {line : RuntimeLine}

theorem executes (d : Discipline provider rely permit kept gives)
    (c : Carries provider kept permit gives post decide abandon) {giveUp : Program interface Unit}
    (hgiveUp : giveUp.Only gives) {adapt : Error → Error} {current : Snapshot} {plan : Plan α}
    {unused : Option (StagedSecretHandle .x25519Private)} (hkept : kept w)
    (hcurrent : current ∈ w.snapshots.entries)
    (hplan : (decides provider w).mayOk (decide current) (.commit plan unused)) :
    Program.Meets rely (handles provider) permit post
      ((endpoint line provider).execute current plan giveUp adapt) w := by
  have hmem : ∀ {w'}, w.Later w' → current ∈ w'.snapshots.entries :=
    fun hlater => hlater.snapshots.mem hcurrent
  rw [Endpoint.execute]
  cases hpending : plan.pending with
  | error e =>
    refine Program.Meets.bind d.refl (d.giving hgiveUp hkept fun _ w' _ _ => ?_)
    exact fun w'' _ => c.fails e w''
  | ok pending =>
    have hcommit := d.commits current pending hkept fun commit w' hw' hkept' hcommit =>
      c.swaps hkept' (hmem (d.later _ _ hw')) (mayOk_later (d.later _ _ hw') hplan) hpending hcommit
    refine Program.Meets.bind d.refl (hcommit.imp ?_)
    rintro result w' ⟨hlater, hresult⟩
    cases result with
    | ok u =>
      intro w'' hw''
      have hlater'' := hlater.trans (d.later _ _ hw'')
      exact c.commits (hmem hlater'') (mayOk_later hlater'' hplan) hpending
        ((d.later _ _ hw'').snapshots.mem hresult)
    | error e =>
      cases hretry : e.retryable with
      | true =>
        simp only [hretry, not_true_eq_false, if_false]
        exact fun w'' _ => c.fails _ w''
      | false =>
        simp only [hretry, Bool.false_eq_true, not_false_eq_true, if_true]
        refine Program.Meets.bind d.refl (d.giving hgiveUp (hresult hretry) fun _ w'' _ _ => ?_)
        exact fun w₃ _ => c.fails _ w₃

theorem performs (d : Discipline provider rely permit kept gives)
    (c : Carries provider kept permit gives post decide abandon) {adapt : Error → Error}
    (hkept : kept w) :
    Program.Meets rely (handles provider) permit post
      ((endpoint line provider).perform decide abandon adapt) w := by
  have hgiveUp : ∀ e w, kept w → Program.Meets rely (handles provider) permit post
      (abandon >>= fun _ => pure (.error e)) w := by
    intro e w hkept
    refine Program.Meets.bind d.refl (d.giving c.abandons hkept fun _ w' _ _ => ?_)
    exact fun w'' _ => c.fails e w''
  intro w₁ hw₁
  have hkept₁ := d.stable _ _ hw₁ hkept
  refine ⟨d.load w₁, fun reply w₂ hload => ?_⟩
  obtain ⟨rfl, hload⟩ := hload
  cases reply with
  | error e => exact hgiveUp e w₂ hkept₁
  | ok current =>
    cases hload current rfl
    change Program.Meets rely (handles provider) permit post
      ((decide w₂.durable).run >>= fun decision => _) w₂
    refine Program.Meets.bind d.refl (Program.Meets.of_quiet d.reads d.trans (c.reads _) ?_)
    intro decision w₃ hw₃ hdecision
    have hkept₃ := d.stable _ _ hw₃ hkept₁
    have hcurrent : w₂.durable ∈ w₃.snapshots.entries :=
      (d.later _ _ hw₃).snapshots.mem w₂.snapshots.newest_mem
    cases decision with
    | error e => exact hgiveUp e w₃ hkept₃
    | ok decision =>
      cases decision with
      | answer value unused =>
        have honly : ((endpoint line provider).abortStaged unused).Only gives := by
          cases hunused : unused with
          | none => trivial
          | some staged =>
            exact ⟨c.unused hdecision (hunused ▸ rfl), fun _ => trivial⟩
        refine Program.Meets.bind d.refl (d.giving honly hkept₃ fun _ w₄ hw₄ _ => ?_)
        intro w₅ hw₅
        have hlater := hw₄.trans (d.later _ _ hw₅)
        exact c.answers (hlater.snapshots.mem hcurrent) (mayOk_later hlater hdecision)
      | commit plan unused =>
        cases unused with
        | none => exact d.executes c c.abandons hkept₃ hcurrent hdecision
        | some staged =>
          have honly : (custody.abortX25519 staged).Only gives :=
            ⟨c.unused hdecision rfl, fun _ => trivial⟩
          refine Program.Meets.bind d.refl (d.giving honly hkept₃ fun _ w₄ hw₄ hkept₄ => ?_)
          have hnone : (pure () : Program interface Unit).Only gives := trivial
          exact d.executes c hnone hkept₄ (hw₄.snapshots.mem hcurrent) (mayOk_later hw₄ hdecision)

end Discipline

end LicoArc
