import LicoArc.Custody
import LicoArc.FirstPacketRequest

/-!
# Reads of staged keys

The custody checks the lifecycle of every key that it is asked for. A commit is
then decided on reads that found its staged handles staged, after the snapshot
that it replaces was durable, and no handle of a durable snapshot is ever staged
again.
-/

namespace LicoArc

theorem History.Extends.entries_eq {V : Type} {rank : V → Nat} {h h' : History V rank}
    (hext : h.Extends h') (hmem : h'.newest ∈ h.entries) : h'.entries = h.entries := by
  obtain ⟨front, hfront⟩ := id hext
  cases front with
  | nil => exact hfront.symm
  | cons first front =>
    have holder := (List.cons.inj hfront).2
    have hmem' : h'.newest ∈ h'.older := holder ▸ List.mem_append_right _ hmem
    exact absurd (History.rank_lt_newest hmem') (lt_irrefl _)

/-! ## What a thread has been told -/

namespace System

variable {σ : Interface} {W ι : Type} [DecidableEq ι] {S : System σ W}
  {guard : S.Config ι → S.Event ι → Prop} {c₀ c : S.Config ι} {log : List (S.Event ι)}

theorem Run.traced {property : Program.Exchange σ W → Prop} (hidle : c₀.allIdle)
    (hproperty : ∀ {log c c' i call x}, S.Run guard c₀ log c → S.Step c (.exchange i call x) c' →
      guard c (.exchange i call x) → property x)
    (h : S.Run guard c₀ log c) {i : ι} {call : S.Call} {origin : W}
    {trace : List (Program.Exchange σ W)} {rest : Program σ (S.Result call)}
    (hbusy : c.thread i = .busy call origin trace rest) : ∀ x ∈ trace, property x := by
  induction h generalizing i call origin trace rest with
  | start =>
    rw [hidle i] at hbusy
    cases hbusy
  | @step log c c' event run step guarded ih =>
    by_cases hi : event.actor = some i
    · have hstep := step
      cases step with
      | start call' idle =>
        cases hi
        simp only [Function.update_self, Thread.busy.injEq] at hbusy
        obtain ⟨rfl, _, rfl, _⟩ := hbusy
        exact fun _ hx => nomatch hx
      | exchange busy handled =>
        cases hi
        simp only [Function.update_self, Thread.busy.injEq] at hbusy
        obtain ⟨rfl, _, rfl, _⟩ := hbusy
        intro x hx
        rcases List.mem_append.mp hx with hx | hx
        · exact ih busy x hx
        · cases List.mem_singleton.mp hx
          exact hproperty run hstep guarded
      | finish busy =>
        cases hi
        simp only [Function.update_self] at hbusy
        cases hbusy
      | surroundings moved => cases hi
    · rw [step.other hi] at hbusy
      exact ih hbusy

end System

open Backend

variable {provider : Provider} {line : RuntimeLine} {operation : Operation}

theorem since_of_executes {α : Type} {p rest : Program interface α} {w w' : World}
    {trace : List (Program.Exchange interface World)}
    (hrun : Program.Executes World.Later (handles provider) p w trace rest w') :
    ∀ x ∈ trace, w.Later x.before := by
  induction hrun with
  | wait => exact fun _ hx => nomatch hx
  | ask later handled _ ih =>
    intro x hx
    rcases List.mem_cons.mp hx with rfl | hx
    · exact later
    · exact later.trans ((later_of_handles handled).trans (ih x hx))

/-! ## The reads behind a commit -/

/-- A plan that the replies of some exchanges determine, and its commit. -/
def Operation.Determines (provider : Provider) (line : RuntimeLine) (operation : Operation)
    (current : Snapshot) (reads : List (Program.Exchange interface World))
    (commit : Commit EndpointState) : Prop :=
  ∃ plan unused pending,
    (∀ replies, (∀ x ∈ reads, replies x.request x.reply) →
      (Program.outcomes replies).mayOk (operation.decide (endpoint line provider) current)
        (.commit plan unused)) ∧
    plan.pending = .ok pending ∧
    Commit.bounded plan.next plan.mutations pending maxEndpointKeyMutations 16 = .ok commit

/-- A swap follows reads that were made after its snapshot was durable and that determine it. -/
def Operation.SwapsRead (provider : Provider) (line : RuntimeLine) (operation : Operation)
    (past : List (Program.Exchange interface World)) (x : Program.Exchange interface World) :
    Prop :=
  ∀ expected commit, x.request = .compareAndSwap expected commit → ∃ current reads,
    current ∈ x.before.snapshots.entries ∧ current.revision = expected ∧
    operation.Determines provider line current reads commit ∧
    ∀ y ∈ reads, y ∈ past ∧ Request.quiet y.request ∧ current ∈ y.before.snapshots.entries

theorem swapsRead_of_noSwap {past : List (Program.Exchange interface World)}
    {x : Program.Exchange interface World} (h : x.request.isSwap = false) :
    operation.SwapsRead provider line past x := by
  intro expected commit hrequest
  rw [hrequest] at h
  cases h

theorem traces_of_still {α : Type} {p : Program interface α} {w : World}
    {past : List (Program.Exchange interface World)}
    (h : p.Only fun request => Request.moves request = false) :
    p.Traces World.Later (handles provider) (operation.SwapsRead provider line) past w := by
  refine Program.traces_of_only h fun past x hx => swapsRead_of_noSwap ?_
  cases hrequest : x.request <;> rw [hrequest] at hx <;> first | rfl | cases hx

theorem traces_execute {current : Snapshot} {plan : Plan operation.Value}
    {unused : Option (StagedSecretHandle .x25519Private)} {abandon : Program interface Unit}
    {adapt : Error → Error} {past reads : List (Program.Exchange interface World)} {w : World}
    (habandon : abandon.Only fun request => Request.moves request = false)
    (hcurrent : current ∈ w.snapshots.entries)
    (hdecided : ∀ replies, (∀ x ∈ reads, replies x.request x.reply) →
      (Program.outcomes replies).mayOk (operation.decide (endpoint line provider) current)
        (.commit plan unused))
    (hreads : ∀ y ∈ reads, y ∈ past ∧ Request.quiet y.request ∧
      current ∈ y.before.snapshots.entries) :
    ((endpoint line provider).execute current plan abandon adapt).Traces World.Later
      (handles provider) (operation.SwapsRead provider line) past w := by
  rw [Endpoint.execute]
  cases hpending : plan.pending with
  | error e => exact traces_of_still (Program.Only.bind habandon fun _ => trivial)
  | ok pending =>
    refine Program.Traces.bind World.Later.refl ?_ fun result trace w' _ => ?_
    · by_cases hcommit : ∃ successor commit, current.revision.successor = .ok successor ∧
          Commit.bounded plan.next plan.mutations pending maxEndpointKeyMutations 16 = .ok commit
      · obtain ⟨successor, commit, hsuccessor, hcommit⟩ := hcommit
        change (commitReplacingPending store current plan.next plan.mutations pending).run.Traces
          _ _ _ _ _
        rw [commitReplacingPending_run hsuccessor hcommit]
        intro w₁ reply w₂ hlater _
        refine ⟨fun expected other hrequest => ?_, ?_⟩
        · cases hrequest
          exact ⟨current, reads, hlater.snapshots.mem hcurrent, rfl,
            ⟨plan, unused, pending, hdecided, hpending, hcommit⟩, hreads⟩
        · cases reply with
          | ok revision => trivial
          | error e =>
            exact fun _ _ _ _ _ => ⟨swapsRead_of_noSwap rfl, trivial⟩
      · obtain ⟨_, hrefused⟩ := commitReplacingPending_refused hcommit
        change (commitReplacingPending store current plan.next plan.mutations pending).run.Traces
          _ _ _ _ _
        rw [hrefused]
        trivial
    · cases result with
      | ok u => trivial
      | error e =>
        dsimp only
        split
        · exact traces_of_still (Program.Only.bind habandon fun _ => trivial)
        · exact traces_of_still trivial

theorem traces_operation (w : World) :
    (operation.program (endpoint line provider)).Traces World.Later (handles provider)
      (operation.SwapsRead provider line) [] w := by
  have habandon := (@Operation.abandon_onlyAsks provider line operation).imp
    fun _ => Request.moves_of_givesUp
  rw [Operation.program_eq_perform, Endpoint.perform]
  refine Program.Traces.bind World.Later.refl (traces_of_still load_still)
    fun loaded first w₁ hloaded => ?_
  cases loaded with
  | error e => exact traces_of_still (Program.Only.bind habandon fun _ => trivial)
  | ok current =>
    obtain ⟨w₂, w₃, _, ⟨rfl, hload⟩, hafter, rfl⟩ := Program.Executes.of_perform hloaded
    have hcurrent : current ∈ w₁.snapshots.entries := by
      rw [hload current rfl]
      exact hafter.snapshots.mem (History.newest_mem _)
    have hquiet := decide_quiet line provider operation current
    refine Program.Traces.bind World.Later.refl
      (traces_of_still (hquiet.imp fun _ => Request.moves_of_quiet))
      fun result reads w₄ hdecide => ?_
    have hreads : ∀ y ∈ reads, Request.quiet y.request ∧ current ∈ y.before.snapshots.entries :=
      fun y hy => ⟨Program.Executes.only hquiet hdecide y hy,
        (since_of_executes hdecide y hy).snapshots.mem hcurrent⟩
    cases result with
    | error e => exact traces_of_still (Program.Only.bind habandon fun _ => trivial)
    | ok decision =>
      cases decision with
      | answer value unused =>
        exact traces_of_still (Program.Only.bind (abortStaged_still line unused) fun _ => trivial)
      | commit plan unused =>
        cases unused with
        | none =>
          have hdecided := (executes_later hdecide).1.snapshots.mem hcurrent
          refine traces_execute habandon hdecided (fun _ hreplies => hdecide.yields hreplies)
            fun y hy => ?_
          exact ⟨List.mem_append_right _ hy, hreads y hy⟩
        | some staged =>
          refine Program.Traces.bind World.Later.refl
            (traces_of_still (abortStaged_still line (some staged))) fun _ given w₅ hgiven => ?_
          have hdecided := ((executes_later hdecide).1.trans
            (executes_later hgiven).1).snapshots.mem hcurrent
          refine traces_execute trivial hdecided (fun _ hreplies => hdecide.yields hreplies)
            fun y hy => ?_
          exact ⟨List.mem_append_left _ (List.mem_append_right _ hy), hreads y hy⟩

/-! ## Handles that are never staged again -/

def Keys.staged (keys : Keys) (purpose : Purpose) (token : Nat) : Prop :=
  ∃ record, keys token = some record ∧ record.is .staged purpose

namespace Keys

variable {keys : Keys} {purpose : Purpose} {token : Nat}

theorem staged_of_mutateAll {mutations : List KeyMutation}
    (h : (keys.mutateAll mutations).staged purpose token) : keys.staged purpose token := by
  induction mutations generalizing keys with
  | nil => exact h
  | cons mutation mutations ih =>
    obtain ⟨record, hrecord, his⟩ := ih h
    by_cases htoken : token = mutation.custodyToken
    · subst htoken
      rw [mutate, Function.update_self, KeyMutation.applied] at hrecord
      split at hrecord
      · obtain ⟨first, _, rfl⟩ := Option.map_eq_some_iff.mp hrecord
        cases (of_decide_eq_true his).1
      · cases hrecord
    · rw [mutate, Function.update_of_ne htoken] at hrecord
      exact ⟨record, hrecord, his⟩

theorem not_staged_of_adopted {other : Purpose} (h : keys.adopted purpose token) :
    ¬keys.staged other token := by
  rintro ⟨record, hrecord, his⟩
  obtain ⟨record', hrecord', his'⟩ := h
  cases hrecord.symm.trans hrecord'
  cases (of_decide_eq_true his).1.symm.trans (of_decide_eq_true his').1

end Keys

def World.Referenced (w : World) (token : Nat) : Prop :=
  ∃ snapshot ∈ w.snapshots.entries, ∃ purpose, purpose.owned ∧
    (purpose, token) ∈ snapshot.state.phase.references

theorem World.Referenced.later {w w' : World} {token : Nat} (h : w.Referenced token)
    (hlater : w.Later w') : w'.Referenced token := by
  obtain ⟨snapshot, hsnapshot, hreference⟩ := h
  exact ⟨snapshot, hlater.snapshots.mem hsnapshot, hreference⟩

/-- What was ever referenced was issued and is not staged. -/
def Retired (w : World) : Prop :=
  ∀ token, w.Referenced token →
    token ∈ w.issued.map Prod.fst ∧ ∀ purpose, ¬w.keys.staged purpose token

namespace Retired

variable {w w' : World}

theorem advance (h : Retired w) {state : EndpointState} {pending : List PendingItem}
    {mutations : List KeyMutation} (hconserved : Conserved (w.advance state pending mutations)) :
    Retired (w.advance state pending mutations) := by
  rintro token ⟨snapshot, hsnapshot, purpose, howned, hreference⟩
  rw [World.advance_entries] at hsnapshot
  rcases List.mem_cons.mp hsnapshot with rfl | hold
  · have hadopted := (hconserved.adopted purpose token howned).mpr hreference
    obtain ⟨record, hrecord, _⟩ := id hadopted
    exact ⟨List.mem_map_of_mem ((w.advance state pending mutations).known token record hrecord),
      fun _ => Keys.not_staged_of_adopted hadopted⟩
  · obtain ⟨hissued, hstaged⟩ := h token ⟨snapshot, hold, purpose, howned, hreference⟩
    exact ⟨hissued, fun other hother => hstaged other (Keys.staged_of_mutateAll hother)⟩

theorem abort (h : Retired w) (purpose : Purpose) (token : Nat) :
    Retired (w.abort purpose token) := by
  intro other hreference
  obtain ⟨hissued, hstaged⟩ := h other hreference
  refine ⟨hissued, fun otherPurpose hother => hstaged otherPurpose ?_⟩
  obtain ⟨record, hrecord, his⟩ := hother
  exact ⟨record, Keys.abort_eq_some hrecord, his⟩

theorem surroundings (h : Retired w) (hmoved : Surroundings w w') : Retired w' := by
  cases hmoved with
  | discard => exact h.abort _ _
  | @issue token record fresh lifecycle =>
    intro other hreference
    obtain ⟨hissued, hstaged⟩ := h other hreference
    refine ⟨List.mem_cons_of_mem _ hissued, fun purpose hother => hstaged purpose ?_⟩
    have hne : other ≠ token := by
      rintro rfl
      exact fresh hissued
    obtain ⟨before, hbefore, his⟩ := hother
    change Function.update w.keys token (some record) other = some before at hbefore
    rw [Function.update_of_ne hne] at hbefore
    exact ⟨before, hbefore, his⟩

theorem of_genesis (h : w.Genesis) : Retired w := by
  rintro token ⟨snapshot, hsnapshot, purpose, _, hreference⟩
  rcases h.entries with heq | heq <;> rw [heq] at hsnapshot <;>
    cases List.mem_singleton.mp hsnapshot
  · cases hreference
  · simp [Versioned.initial, EndpointState.responder, Phase.references] at hreference

end Retired

/-! ## Runs -/

/-- The custody answers for a staged handle only while its key is staged. -/
def ChecksStaged (x : Program.Exchange interface World) : Prop :=
  match x.request, x.reply with
  | .x25519Public (.staged handle), .ok _ =>
    x.before.keys.staged .x25519Private handle.custodyToken
  | _, _ => True

/-- What a read of a staged handle says about the history. -/
def Unreferenced (w : World) (request : Request) (reply : Reply request) : Prop :=
  match request, reply with
  | .x25519Public (.staged handle), .ok _ => ¬w.Referenced handle.custodyToken
  | _, _ => True

theorem unreferenced_of_checks {w : World} {x : Program.Exchange interface World}
    (hchecks : ChecksStaged x) (hretired : Retired x.before)
    (hentries : w.snapshots.entries = x.before.snapshots.entries) :
    Unreferenced w x.request x.reply := by
  obtain ⟨before, request, reply, after⟩ := x
  cases request with
  | x25519Public handle =>
    cases handle with
    | adopted handle => trivial
    | staged handle =>
      cases reply with
      | error e => trivial
      | ok value =>
        rintro ⟨snapshot, hsnapshot, hreference⟩
        exact (hretired _ ⟨snapshot, hentries ▸ hsnapshot, hreference⟩).2 _ hchecks
  | _ => trivial

/-- What the reads of a decision return, of keys that were not referenced before they are read. -/
def FreshReads (provider : Provider) (w : World) (request : Request) (reply : Reply request) :
    Prop :=
  Reads provider w.issued request reply ∧ Unreferenced w request reply

def World.PublicOf (provider : Provider) (w : World) (token : Nat) (publicKey : FixedBytes 32) :
    Prop :=
  ∃ key, (token, .x25519 key) ∈ w.issued ∧ publicKey = provider.x25519Public key

theorem World.PublicOf.later {w w' : World} {token : Nat} {publicKey : FixedBytes 32}
    (h : w.PublicOf provider token publicKey) (hlater : w.Later w') :
    w'.PublicOf provider token publicKey := by
  obtain ⟨key, hkey, heq⟩ := h
  exact ⟨key, hlater.issued.subset hkey, heq⟩

/-- What a fresh read of a staged key tells: its public key, and that its token is new. -/
theorem read_staged {w : World} {staged : StagedSecretHandle .x25519Private}
    {publicKey : FixedBytes 32} (h : (@Program.outcomes interface (FreshReads provider w)).may
      (custody.x25519Public (.staged staged)) (.ok publicKey)) :
    w.PublicOf provider staged.adoptedHandle.custodyToken publicKey ∧
      ¬w.Referenced staged.adoptedHandle.custodyToken := by
  have hread := (@Program.outcomes_perform interface (FreshReads provider w)
    (.x25519Public (.staged staged)) _).mp h
  exact ⟨hread.1 publicKey rfl, hread.2⟩

structure Operation.CommittedFresh (provider : Provider) (line : RuntimeLine)
    (operation : Operation) (w w' : World) : Prop where
  planned : ∃ plan unused pending,
    (@Program.outcomes interface (FreshReads provider w)).mayOk
      (operation.decide (endpoint line provider) w.durable) (.commit plan unused) ∧
    plan.pending = .ok pending ∧
    Commit.bounded plan.next plan.mutations pending maxEndpointKeyMutations 16 =
      .ok ⟨plan.next, plan.mutations, pending⟩ ∧
    (∀ mutation ∈ plan.mutations, w.keys.permits mutation) ∧
    w' = w.advance plan.next pending plan.mutations

theorem Operation.CommittedFresh.committed {w w' : World}
    (h : operation.CommittedFresh provider line w w') : operation.Committed provider line w w' := by
  obtain ⟨plan, unused, pending, hdecided, hpending, hrest⟩ := h.planned
  exact ⟨plan, pending, ⟨⟨unused, Program.Yields.mono (fun _ _ hreads => hreads.1) hdecided⟩,
    hpending⟩, hrest⟩

section

variable {ι : Type} [DecidableEq ι]
  {guard : (system provider).Config ι → (system provider).Event ι → Prop}
  {c₀ c c' : (system provider).Config ι} {log : List ((system provider).Event ι)}

theorem run_retired (hidle : c₀.allIdle) (hgenesis : c₀.world.Genesis)
    (h : (system provider).Run guard c₀ log c) : Conserved c.world ∧ Retired c.world := by
  refine @run_invariant provider ι _ guard c₀ c log (fun w => Conserved w ∧ Retired w) hidle
    ⟨conserved_of_genesis hgenesis, .of_genesis hgenesis⟩ ?_ ?_ ?_ ?_ h
  · intro line operation w w' h hcommitted
    have hconserved := h.1.committed hcommitted
    obtain ⟨_, _, _, _, _, rfl⟩ := hcommitted.planned
    exact ⟨hconserved, h.2.advance hconserved⟩
  · intro revision id w w' h hsettled
    have hconserved := h.1.settled hsettled
    rw [hsettled.advanced] at hconserved ⊢
    exact ⟨hconserved, h.2.advance hconserved⟩
  · exact fun _ _ _ h => ⟨h.1.abort _ _, h.2.abort _ _⟩
  · exact fun _ _ h hmoved => ⟨h.1.surroundings hmoved, h.2.surroundings hmoved⟩

/-- Where the custody checks what is staged, every commit is fresh. -/
theorem exchange_fresh (hidle : c₀.allIdle) (hgenesis : c₀.world.Genesis)
    (hcustody : ∀ {c i call x}, guard c (.exchange i call x) → ChecksStaged x)
    (h : (system provider).Run guard c₀ log c) {i : ι} {line : RuntimeLine} {operation : Operation}
    {x : Program.Exchange interface World}
    (hstep : (system provider).Step c (.exchange i (.operate line operation) x) c')
    {expected : Revision} {commit : Commit EndpointState}
    (hrequest : x.request = .compareAndSwap expected commit)
    (hswapped : x.before.Swapped expected commit x.after) :
    operation.CommittedFresh provider line x.before x.after := by
  cases hstep with
  | @exchange _ _ origin w trace request next reply busy handled =>
    have hrun := (run_executes hidle h busy).exchange World.Later.refl handled
    have hswap := (traces_operation origin).executes hrun rfl
    obtain ⟨current, reads, hcurrent, hrevision, ⟨plan, unused, pending, hdecided, hpending,
      hcommit⟩, hreads⟩ := hswap expected commit hrequest
    obtain ⟨_, _, _, _, rfl⟩ := Commit.bounded_eq_ok.mp hcommit
    have hdurable : current = c.world.durable := by
      apply History.eq_newest_of_rank hcurrent
      rw [hrevision, hswapped.current]
      rfl
    subst hdurable
    have hmade := h.traced hidle (fun hrun hstep hguard =>
      show ChecksStaged _ ∧ Retired _ from
        ⟨hcustody hguard, (exchange_store hidle hrun hstep).1 ▸
        (run_retired hidle hgenesis hrun).2⟩)
      busy
    have hlater := (executes_later (run_executes hidle h busy)).2
    refine ⟨plan, unused, pending, hdecided _ fun y hy => ?_, hpending, hcommit,
      hswapped.permitted, hswapped.advanced⟩
    obtain ⟨hpast, hquiet, hknown⟩ := hreads y hy
    obtain ⟨hchecks, hretired⟩ := hmade y hpast
    refine ⟨(reads_of_quiet hquiet ((run_executes hidle h busy).handled y hpast)).mono
      fun _ hkey => (hlater y hpast).issued.subset hkey, ?_⟩
    exact unreferenced_of_checks hchecks hretired ((hlater y hpast).snapshots.entries_eq hknown)

inductive Call.MovesFresh (provider : Provider) : Call → World → World → Prop
  | stays {call : Call} {w w' : World} (same : w' = w) : MovesFresh provider call w w'
  | commits {line : RuntimeLine} {operation : Operation} {w w' : World}
      (committed : operation.CommittedFresh provider line w w') :
      MovesFresh provider (.operate line operation) w w'
  | settles {line : RuntimeLine} {service : Service} {revision : Revision} {id : PendingId}
      {w w' : World} (settled : w.Settled revision id w') :
      MovesFresh provider (.serve line service) w w'
  | gives {call : Call} {w w' : World} {purpose : Purpose} {token : Nat}
      (given : w' = w.abort purpose token) : MovesFresh provider call w w'

theorem exchange_moves_fresh (hidle : c₀.allIdle) (hgenesis : c₀.world.Genesis)
    (hcustody : ∀ {c i call x}, guard c (.exchange i call x) → ChecksStaged x)
    (h : (system provider).Run guard c₀ log c) {i : ι} {call : Call}
    {x : Program.Exchange interface World}
    (hstep : (system provider).Step c (.exchange i call x) c') :
    call.MovesFresh provider c.world c'.world := by
  have hfresh := @exchange_fresh provider ι _ guard c₀ c c' log hidle hgenesis hcustody h i
  cases hstep with
  | @exchange _ _ origin w trace request next reply busy handled =>
    obtain ⟨hpermit, _⟩ := (run_meeting hidle h).1 i call origin trace _ busy c.world (.refl _)
    cases request with
    | compareAndSwap expected commit =>
      rcases handled.1 with hsame | hswapped
      · exact .stays hsame
      · cases call with
        | operate line operation => exact .commits (hfresh (.exchange busy handled) rfl hswapped)
        | serve line service => cases hpermit
    | settle revision id =>
      rcases handled.1 with hsame | hsettled
      · exact .stays hsame
      · cases call with
        | operate line operation => cases hpermit
        | serve line service => exact .settles hsettled
    | abortX25519 staged => exact .gives handled
    | abortMlKem768 staged => exact .gives handled
    | _ => exact .stays handled.1

end

end LicoArc
