import LicoArc.Custody
import LicoArc.Interaction.Trace

/-!
# Durable output

What an operation makes of the pending items of the snapshot that it replaces,
and when an item leaves them.
-/

namespace LicoArc

open Backend

structure WellQueued (pending : List PendingItem) : Prop where
  atMost : pending.length ≤ 16
  distinct : (pending.map PendingItem.id).Nodup
  onePacket : (pending.filter PendingItem.isPacket).length ≤ 1
  onePlaintext : (pending.filter PendingItem.isPlaintext).length ≤ 1

theorem WellQueued.nil : WellQueued [] :=
  ⟨Nat.zero_le _, List.nodup_nil, Nat.zero_le _, Nat.zero_le _⟩

theorem WellQueued.sublist {pending kept : List PendingItem} (h : WellQueued pending)
    (hkept : kept.Sublist pending) : WellQueued kept where
  atMost := hkept.length_le.trans h.atMost
  distinct := h.distinct.sublist (hkept.map _)
  onePacket := (hkept.filter _).length_le.trans h.onePacket
  onePlaintext := (hkept.filter _).length_le.trans h.onePlaintext

/-- New items add at most one packet and one plaintext, and only where there is none. -/
structure Joins (pending added : List PendingItem) : Prop where
  packet : added.filter PendingItem.isPacket = [] ∨
    (added.filter PendingItem.isPacket).length = 1 ∧ pending.any PendingItem.isPacket = false
  plaintext : added.filter PendingItem.isPlaintext = [] ∨
    (added.filter PendingItem.isPlaintext).length = 1 ∧ pending.any PendingItem.isPlaintext = false

theorem Joins.nil (pending : List PendingItem) : Joins pending [] := ⟨.inl rfl, .inl rfl⟩

theorem WellQueued.append {pending added : List PendingItem} (h : WellQueued pending)
    (hjoins : Joins pending added) (hlength : (pending ++ added).length ≤ 16)
    (hdistinct : ((pending ++ added).map PendingItem.id).Nodup) :
      WellQueued (pending ++ added) where
  atMost := hlength
  distinct := hdistinct
  onePacket := by
    rw [List.filter_append, List.length_append]
    rcases hjoins.packet with hnone | ⟨hone, hidle⟩
    · simpa [hnone] using h.onePacket
    · rw [List.any_eq_false] at hidle
      rw [List.filter_eq_nil_iff.mpr hidle, hone]
      decide
  onePlaintext := by
    rw [List.filter_append, List.length_append]
    rcases hjoins.plaintext with hnone | ⟨hone, hidle⟩
    · simpa [hnone] using h.onePlaintext
    · rw [List.any_eq_false] at hidle
      rw [List.filter_eq_nil_iff.mpr hidle, hone]
      decide

namespace Operation

variable {provider : Provider} {line : RuntimeLine} {operation : Operation} {current : Snapshot}
  {w w' : World}

def deletes : Operation → Bool
  | deleteSession => true
  | _ => false

/-- A deletion drops the pending items; every other plan appends to them. -/
theorem Plans.items_eq {plan : Plan operation.Value} {pending : List PendingItem}
    (h : Plans provider line operation current w plan pending) :
    if operation.deletes then pending = []
    else ∃ added, pending = current.pending ++ added ∧ Joins current.pending added := by
  obtain ⟨⟨unused, hdecided⟩, hitems⟩ := h
  have hkept : plan.pending = .ok current.pending →
      ∃ added, pending = current.pending ++ added ∧ Joins current.pending added := by
    intro heq
    cases hitems.symm.trans heq
    exact ⟨[], (List.append_nil _).symm, Joins.nil _⟩
  cases operation with
  | admitPrekey =>
    obtain ⟨_, heq⟩ := Endpoint.mayOk_decideAdmitPrekey _ hdecided
    cases heq
    exact hkept rfl
  | acceptFirstPacket =>
    obtain ⟨_, _, _, _, _, ⟨_, heq⟩ | ⟨_, heq⟩⟩ :=
      (Endpoint.mayOk_decideAcceptFirstPacket _).mp hdecided
    · cases heq
    · cases heq
      exact hkept rfl
  | createFirstPacket =>
    obtain ⟨_, _, _, _, _, ⟨_, heq⟩ | ⟨_, _, heq⟩⟩ :=
      (Endpoint.mayOk_decideCreateFirstPacket _).mp hdecided
    · cases heq
    · cases heq
      exact hkept rfl
  | verifySessionAccept =>
    obtain ⟨_, heq⟩ := (Endpoint.mayOk_decideVerifySessionAccept _).mp hdecided
    cases heq
    exact hkept rfl
  | sendRecord =>
    obtain ⟨_, sending, heq⟩ := Endpoint.mayOk_decideSendRecord _ hdecided
    cases heq
    cases hitems
    exact ⟨_, rfl, .inr ⟨rfl, sending.idle⟩, .inl rfl⟩
  | receiveRecord packet =>
    obtain ⟨_, receipt, heq⟩ := Endpoint.mayOk_decideReceiveRecord _ hdecided
    cases heq
    simp only [PendingItem.plaintext, Except.bind_eq_ok, PendingItem.bounded_eq_ok_iff,
      Except.pure_eq, Except.ok.injEq] at hitems
    obtain ⟨_, ⟨_, rfl⟩, rfl⟩ := hitems
    exact ⟨_, rfl, .inl rfl, .inr ⟨rfl, receipt.idle⟩⟩
  | bootstrapCapabilities =>
    obtain ⟨_, heq⟩ := Endpoint.mayOk_decideBootstrapCapabilities _ hdecided
    cases heq
    exact hkept rfl
  | applyCompleteCapabilityFlow =>
    obtain ⟨_, application, heq⟩ := Endpoint.mayOk_decideApplyCompleteCapabilityFlow _ hdecided
    cases heq
    cases hitems
    exact ⟨_, rfl, .inr ⟨rfl, application.idle⟩, .inl rfl⟩
  | deleteSession =>
    obtain ⟨_, heq⟩ := Endpoint.mayOk_decideDeleteSession _ hdecided
    cases heq
    cases hitems
    rfl

end Operation

/-! ## The bounds -/

section

variable {ι : Type} [DecidableEq ι] {provider : Provider}
  {guard : (system provider).Config ι → (system provider).Event ι → Prop}
  {c₀ c : (system provider).Config ι} {log : List ((system provider).Event ι)}

theorem wellQueued_committed {line : RuntimeLine} {operation : Operation} {w w' : World}
    (h : ∀ snapshot ∈ w.snapshots.entries, WellQueued snapshot.pending)
    (hcommitted : operation.Committed provider line w w') :
    ∀ snapshot ∈ w'.snapshots.entries, WellQueued snapshot.pending := by
  obtain ⟨plan, pending, hplans, hbounded, _, rfl⟩ := hcommitted.planned
  obtain ⟨_, hlength, hdistinct, _⟩ := Commit.bounded_eq_ok.mp hbounded
  rw [World.advance_entries]
  refine List.forall_mem_cons.mpr ⟨?_, h⟩
  have hitems := hplans.items_eq
  split at hitems
  · subst hitems
    exact .nil
  · obtain ⟨added, rfl, hjoins⟩ := hitems
    exact (h _ w.snapshots.newest_mem).append hjoins hlength hdistinct

theorem wellQueued_settled {w w' : World} {revision : Revision} {id : PendingId}
    (h : ∀ snapshot ∈ w.snapshots.entries, WellQueued snapshot.pending)
    (hsettled : w.Settled revision id w') :
    ∀ snapshot ∈ w'.snapshots.entries, WellQueued snapshot.pending := by
  rw [hsettled.advanced, World.advance_entries]
  exact List.forall_mem_cons.mpr
    ⟨(h _ w.snapshots.newest_mem).sublist List.eraseP_sublist, h⟩

theorem run_wellQueued (hidle : c₀.allIdle) (hgenesis : c₀.world.Genesis)
    (h : (system provider).Run guard c₀ log c) :
    ∀ snapshot ∈ c.world.snapshots.entries, WellQueued snapshot.pending := by
  refine run_invariant (I := fun w => ∀ snapshot ∈ w.snapshots.entries, WellQueued snapshot.pending)
    hidle ?_ (fun _ _ _ _ => wellQueued_committed) (fun _ _ _ _ => wellQueued_settled)
    (fun _ _ _ h => h) (fun w w' h hmoved => ?_) h
  · rcases hgenesis.entries with heq | heq <;> rw [heq] <;>
      exact List.forall_mem_singleton.mpr .nil
  · cases hmoved <;> exact h

end

/-! ## Delivery -/

def PendingKind.boundary : PendingKind → Request
  | packet bytes => .carry bytes
  | effect bytes => .apply bytes
  | plaintext bytes => .release bytes

def Request.delivers : Request → Prop
  | carry _ | apply _ | release _ => True
  | _ => False

def Backend.accepted : (request : Request) → Reply request → Prop
  | .carry _, reply => reply = .ok ()
  | .apply _, reply => reply = .ok ()
  | .release _, reply => reply = .ok ()
  | _, _ => False

def PendingItem.service (item : PendingItem) : Service :=
  match item.kind with
  | .packet _ | .effect _ => .dispatchPending item.id
  | .plaintext _ => .releasePendingPlaintext item.id

/-- What holds of every exchange of a service, given the exchanges before it: a boundary is called
with a durable item, and a settlement follows the success of the boundary of its own item. -/
structure Delivers (service : Service) (past : List (Program.Exchange interface World))
    (x : Program.Exchange interface World) : Prop where
  hands : Request.delivers x.request → ∃ snapshot ∈ x.before.snapshots.entries,
    ∃ item ∈ snapshot.pending, x.request = item.kind.boundary ∧ service = item.service
  settles (revision : Revision) (id : PendingId) : x.request = Request.settle revision id →
    ∃ snapshot ∈ x.before.snapshots.entries, ∃ item, snapshot.revision = revision ∧
      snapshot.pending.find? (·.id = id) = some item ∧ service = item.service ∧
      (∃ y ∈ past, y.request = item.kind.boundary ∧ accepted y.request y.reply) ∧
      ∀ y ∈ past, Request.delivers y.request →
        y.request = item.kind.boundary ∧ snapshot ∈ y.before.snapshots.entries

namespace Delivers

variable {provider : Provider} {line : RuntimeLine} {service : Service}
  {past : List (Program.Exchange interface World)} {w w' : World}

theorem of_load (past : List (Program.Exchange interface World))
    (x : Program.Exchange interface World) (h : x.request = Request.load) :
    Delivers service past x := by
  refine ⟨fun hdelivers => ?_, fun revision id heq => ?_⟩
  · rw [h] at hdelivers
    cases hdelivers
  · rw [h] at heq
    cases heq

theorem executes_findPending {id : PendingId} {revision : Revision} {item : PendingItem}
    {trace : List (Program.Exchange interface World)}
    (h : Program.Executes World.Later (handles provider)
      ((endpoint line provider).findPending id).run w trace (.done (.ok (revision, item))) w') :
    ∃ snapshot ∈ w'.snapshots.entries, snapshot.revision = revision ∧
      snapshot.pending.find? (·.id = id) = some item ∧
      ∀ y ∈ trace, y.request = Request.load := by
  obtain ⟨snapshot, first, w₁, _, hload, hchecks, rfl⟩ :=
    Program.executes_bind_ok World.Later.refl h
  obtain ⟨_, _, w₂, _, hlive, hfound, rfl⟩ := Program.executes_bind_ok World.Later.refl hchecks
  obtain ⟨found, _, w₃, _, hfind, hpure, rfl⟩ := Program.executes_bind_ok World.Later.refl hfound
  obtain ⟨_, rfl, hlater₂⟩ := Program.executes_lift_ok hlive
  obtain ⟨hitem, rfl, hlater₃⟩ := Program.executes_lift_ok hfind
  obtain ⟨heq, rfl, hlater₄⟩ := Program.Executes.of_done hpure
  cases heq
  obtain ⟨w₅, w₆, _, ⟨rfl, hdurable⟩, hlater₁, rfl⟩ := Program.Executes.of_perform hload
  cases hdurable snapshot rfl
  have hlater := hlater₁.trans (hlater₂.trans (hlater₃.trans hlater₄))
  refine ⟨_, hlater.snapshots.mem w₆.snapshots.newest_mem, rfl, okOr_eq_ok.mp hitem, ?_⟩
  exact fun y hy => by rw [List.mem_singleton.mp hy]

theorem later_of_executes {α : Type} {p rest : Program interface α}
    {trace : List (Program.Exchange interface World)}
    (h : Program.Executes World.Later (handles provider) p w trace rest w') : w.Later w' := by
  induction h with
  | wait later => exact later
  | ask later handled _ ih => exact later.trans ((later_of_handles handled).trans ih)

def hand (item : PendingItem) : Program interface (Except Error Unit) :=
  match item.kind with
  | .packet bytes => ask (.carry bytes)
  | .effect bytes => ask (.apply bytes)
  | .plaintext bytes => ask (.release bytes)

theorem executes_hand {item : PendingItem} {trace : List (Program.Exchange interface World)}
    (h : Program.Executes World.Later (handles provider) (hand item) w trace (.done (.ok ())) w') :
    w.Later w' ∧ ∃ y, trace = [y] ∧ y.request = item.kind.boundary ∧
      accepted y.request y.reply ∧ w.Later y.before := by
  obtain ⟨id, kind⟩ := item
  cases kind with
  | packet bytes =>
    obtain ⟨w₁, w₂, hlater, ⟨rfl, _⟩, hlater', rfl⟩ := Program.Executes.of_perform h
    exact ⟨hlater.trans hlater', _, rfl, rfl, rfl, hlater⟩
  | effect bytes =>
    obtain ⟨w₁, w₂, hlater, ⟨rfl, _⟩, hlater', rfl⟩ := Program.Executes.of_perform h
    exact ⟨hlater.trans hlater', _, rfl, rfl, rfl, hlater⟩
  | plaintext bytes =>
    obtain ⟨w₁, w₂, hlater, ⟨rfl, _⟩, hlater', rfl⟩ := Program.Executes.of_perform h
    exact ⟨hlater.trans hlater', _, rfl, rfl, rfl, hlater⟩

theorem traces_hand {snapshot : Snapshot} {item : PendingItem} {id : PendingId}
    (hsnapshot : snapshot ∈ w.snapshots.entries)
    (hitem : snapshot.pending.find? (·.id = id) = some item) (hservice : service = item.service)
    (hpast : ∀ y ∈ past, y.request = Request.load) :
    (ExceptT.mk (hand item) >>= fun _ =>
      ExceptT.mk (store.settle snapshot.revision item.id)).run.Traces World.Later (handles provider)
      (Delivers service) past w := by
  have hid : item.id = id := by simpa using List.find?_some hitem
  refine Program.traces_bind World.Later.refl ?_ ?_
  · -- The boundary takes an item that is still in the history.
    have hhands : ∀ (x : Program.Exchange interface World), w.Later x.before →
        x.request = item.kind.boundary → Delivers service past x := by
      intro x hlater hrequest
      refine ⟨fun _ => ⟨snapshot, hlater.snapshots.mem hsnapshot, item,
        List.mem_of_find?_eq_some hitem, hrequest, hservice⟩, fun revision id heq => ?_⟩
      rw [hrequest] at heq
      cases hkind : item.kind <;> rw [hkind] at heq <;> cases heq
    obtain ⟨_, kind⟩ := item
    cases kind <;> exact fun w₁ reply w₂ hlater _ => ⟨hhands _ hlater rfl, trivial⟩
  · intro _ trace w₁ hrun
    obtain ⟨hlater, y, rfl, hrequest, haccepted, hbefore⟩ := executes_hand hrun
    intro w₂ reply w₃ hlater' _
    refine ⟨⟨nofun, fun revision id' heq => ?_⟩, trivial⟩
    cases heq
    refine ⟨snapshot, (hlater.trans hlater').snapshots.mem hsnapshot, item, rfl, hid ▸ hitem,
      hservice, ⟨y, by simp, hrequest, haccepted⟩, fun z hz hdelivers => ?_⟩
    rcases List.mem_append.mp hz with hz | hz
    · rw [hpast z hz] at hdelivers
      cases hdelivers
    · rw [List.mem_singleton.mp hz]
      exact ⟨hrequest, hbefore.snapshots.mem hsnapshot⟩

theorem traces (service : Service) (w : World) :
    (service.program (endpoint line provider)).Traces World.Later (handles provider)
      (Delivers service) [] w := by
  have hloads : ∀ {α : Type} {x : ExceptT Error (Program interface) α}
      {past : List (Program.Exchange interface World)} {w : World},
      OnlyAsks (fun request => request = Request.load) x →
        x.run.Traces World.Later (handles provider) (Delivers service) past w :=
    fun honly => Program.traces_of_only honly of_load
  have hfind := @findPending_onlyAsks (fun request => request = .load) rfl provider line
  have hload := @loadPending_onlyAsks (fun request => request = .load) rfl
  cases service with
  | pendingItems =>
    exact hloads (onlyAsks_bind ⟨rfl, fun _ => trivial⟩ fun _ =>
      onlyAsks_bind (onlyAsks_lift _) fun _ => onlyAsks_pure _)
  | retryRecord =>
    refine hloads (onlyAsks_bind ⟨rfl, fun _ => trivial⟩ fun current => ?_)
    refine onlyAsks_bind (onlyAsks_lift _) fun _ => ?_
    split
    · exact onlyAsks_bind (onlyAsks_lift _) fun _ => onlyAsks_pure _
    · exact onlyAsks_throw _
  | restart generation =>
    exact hloads (onlyAsks_bind ⟨rfl, fun _ => trivial⟩ fun _ =>
      onlyAsks_bind (onlyAsks_lift _) fun _ =>
        onlyAsks_bind (onlyAsks_lift _) fun _ => onlyAsks_lift _)
  | dispatchPending id =>
    refine Program.traces_bind World.Later.refl (hloads (hfind id)) ?_
    rintro ⟨revision, item⟩ first w₁ hfound
    obtain ⟨snapshot, hsnapshot, rfl, hitem, hfirst⟩ := executes_findPending hfound
    refine Program.traces_bind World.Later.refl ?_ fun _ _ _ _ => trivial
    refine Program.traces_bind World.Later.refl (hloads (hload _ _)) fun _ second w₂ hchecked => ?_
    have hlater := later_of_executes hchecked
    have hsecond := Program.Executes.only (hload _ _) hchecked
    have hid : item.id = id := by simpa using List.find?_some hitem
    have hpast : ∀ y ∈ [] ++ first ++ second, y.request = Request.load := by
      intro y hy
      rcases List.mem_append.mp hy with hy | hy
      · exact hfirst y hy
      · exact hsecond y hy
    obtain ⟨_, kind⟩ := item
    cases kind with
    | packet bytes => exact traces_hand (hlater.snapshots.mem hsnapshot) hitem (hid ▸ rfl) hpast
    | effect bytes => exact traces_hand (hlater.snapshots.mem hsnapshot) hitem (hid ▸ rfl) hpast
    | plaintext bytes => trivial
  | releasePendingPlaintext id =>
    refine Program.traces_bind World.Later.refl (hloads (hfind id)) ?_
    rintro ⟨revision, item⟩ first w₁ hfound
    obtain ⟨snapshot, hsnapshot, rfl, hitem, hfirst⟩ := executes_findPending hfound
    refine Program.traces_bind World.Later.refl ?_ fun _ _ _ _ => trivial
    refine Program.traces_bind World.Later.refl (hloads (hload _ _)) fun _ second w₂ hchecked => ?_
    have hlater := later_of_executes hchecked
    have hsecond := Program.Executes.only (hload _ _) hchecked
    have hid : item.id = id := by simpa using List.find?_some hitem
    have hpast : ∀ y ∈ [] ++ first ++ second, y.request = Request.load := by
      intro y hy
      rcases List.mem_append.mp hy with hy | hy
      · exact hfirst y hy
      · exact hsecond y hy
    obtain ⟨_, kind⟩ := item
    cases kind with
    | plaintext bytes => exact traces_hand (hlater.snapshots.mem hsnapshot) hitem (hid ▸ rfl) hpast
    | packet bytes => trivial
    | effect bytes => trivial

end Delivers

/-! ## Every exchange of a call -/

/-- What holds of every exchange of a call, given the exchanges of the call before it. -/
structure Call.Orderly (call : Call) (earlier : List (Program.Exchange interface World))
    (x : Program.Exchange interface World) : Prop where
  /-- An operation other than a deletion only appends. -/
  appends (line : RuntimeLine) (operation : Operation) : call = .operate line operation →
    operation.deletes = false → x.before.durable.pending <+: x.after.durable.pending
  /-- A committed deletion empties the list. -/
  empties (line : RuntimeLine) : call = .operate line .deleteSession →
    x.after.durable ≠ x.before.durable → x.after.durable.pending = []
  /-- An item leaves with a deletion, or with the service that has delivered it. -/
  leaves (item : PendingItem) : item ∈ x.before.durable.pending →
    item ∉ x.after.durable.pending → (∃ line, call = .operate line .deleteSession) ∨
      ∃ line, call = .serve line item.service ∧
        ∃ y ∈ earlier, y.request = item.kind.boundary ∧ accepted y.request y.reply
  /-- A boundary takes a durable item of its own kind. -/
  hands : Request.delivers x.request → ∃ line, ∃ snapshot ∈ x.before.snapshots.entries,
    ∃ item ∈ snapshot.pending, call = .serve line item.service ∧ x.request = item.kind.boundary
  /-- What a call settles is the item that it has delivered, at the revision that held it. -/
  settles (revision : Revision) (id : PendingId) : x.request = Request.settle revision id →
    ∃ snapshot ∈ x.before.snapshots.entries, ∃ item ∈ snapshot.pending,
      snapshot.revision = revision ∧ item.id = id ∧ ∀ y ∈ earlier, Request.delivers y.request →
        y.request = item.kind.boundary ∧ snapshot ∈ y.before.snapshots.entries

theorem find_of_erased {pending : List PendingItem} {item : PendingItem}
    {property : PendingItem → Bool} (hmem : item ∈ pending)
    (herased : item ∉ pending.eraseP property) :
    pending.find? property = some item := by
  induction pending with
  | nil => cases hmem
  | cons first pending ih =>
    by_cases hfirst : property first
    · rw [List.eraseP_cons_of_pos hfirst] at herased
      rw [List.find?_cons_of_pos hfirst]
      rcases List.mem_cons.mp hmem with rfl | hmem
      · rfl
      · exact absurd hmem herased
    · rw [List.eraseP_cons_of_neg hfirst, List.mem_cons, not_or] at herased
      rw [List.find?_cons_of_neg hfirst]
      exact ih ((List.mem_cons.mp hmem).resolve_left herased.1) herased.2

namespace Call

variable {provider : Provider} {line : RuntimeLine}
  {earlier : List (Program.Exchange interface World)}

theorem orderly_of_same {call : Call} {x : Program.Exchange interface World}
    (hsame : x.after.durable = x.before.durable) (hdelivers : ¬Request.delivers x.request)
    (hsettles : ∀ revision id, x.request ≠ Request.settle revision id) :
    call.Orderly earlier x where
  appends _ _ _ _ := by rw [hsame]
  empties _ _ hmoved := absurd hsame hmoved
  leaves _ hmem hgone := absurd hmem (hsame ▸ hgone)
  hands h := absurd h hdelivers
  settles revision id h := absurd h (hsettles revision id)

theorem orderly_operate {operation : Operation} {x : Program.Exchange interface World}
    (hpermit : operation.Permitted provider line x.request x.before)
    (hhandled : handles provider x.before x.request x.reply x.after) :
    (operate line operation).Orderly earlier x := by
  obtain ⟨before, request, reply, after⟩ := x
  dsimp only at hpermit hhandled
  cases request with
  | compareAndSwap expected commit =>
    rcases hhandled.1 with hsame | hswapped
    · exact orderly_of_same (congrArg World.durable hsame) id nofun
    · obtain ⟨plan, pending, hplans, _, _, rfl⟩ :=
        (Operation.committed_of_swapped hpermit hswapped).planned
      have hitems := hplans.items_eq
      cases hdeletes : operation.deletes with
      | true =>
        have hdeletion : operation = .deleteSession := by
          cases operation <;> first | rfl | cases hdeletes
        rw [hdeletes] at hitems
        refine ⟨fun _ _ heq h => ?_, fun _ _ _ => hitems,
          fun _ _ _ => .inl ⟨line, by rw [hdeletion]⟩, nofun, nofun⟩
        cases heq
        cases hdeletes.symm.trans h
      | false =>
        rw [hdeletes] at hitems
        obtain ⟨added, rfl, _⟩ := hitems
        refine ⟨fun _ _ _ _ => List.prefix_append _ _, fun _ heq => ?_, fun item hmem hgone => ?_,
          nofun, nofun⟩
        · cases heq
          cases hdeletes
        · exact absurd (List.mem_append_left added hmem) hgone
  | settle => cases hpermit
  | carry => cases hpermit
  | apply => cases hpermit
  | release => cases hpermit
  | abortX25519 => exact orderly_of_same (by rw [hhandled]; rfl) id nofun
  | abortMlKem768 => exact orderly_of_same (by rw [hhandled]; rfl) id nofun
  | _ => exact orderly_of_same (by rw [hhandled.1]) id nofun

theorem orderly_of_boundary {service : Service} {x : Program.Exchange interface World}
    (hsame : x.after = x.before)
    (hhands : Request.delivers x.request → ∃ line', ∃ snapshot ∈ x.before.snapshots.entries,
      ∃ item ∈ snapshot.pending, serve line service = serve line' item.service ∧
        x.request = item.kind.boundary)
    (hsettles : ∀ revision id, x.request ≠ Request.settle revision id) :
    (serve line service).Orderly earlier x where
  appends _ _ heq := nomatch heq
  empties _ heq := nomatch heq
  leaves _ hmem hgone := absurd hmem (hsame ▸ hgone)
  hands := hhands
  settles revision id h := absurd h (hsettles revision id)

theorem orderly_serve {service : Service} {x : Program.Exchange interface World}
    (hpermit : Request.isSwap x.request = false)
    (hhandled : handles provider x.before x.request x.reply x.after)
    (hdelivers : Delivers service earlier x) : (serve line service).Orderly earlier x := by
  have hhands : Request.delivers x.request → ∃ line', ∃ snapshot ∈ x.before.snapshots.entries,
      ∃ item ∈ snapshot.pending, serve line service = serve line' item.service ∧
        x.request = item.kind.boundary := by
    intro h
    obtain ⟨snapshot, hsnapshot, item, hitem, hrequest, rfl⟩ := hdelivers.hands h
    exact ⟨line, snapshot, hsnapshot, item, hitem, rfl, hrequest⟩
  obtain ⟨before, request, reply, after⟩ := x
  dsimp only at hpermit hhandled hhands
  cases request with
  | compareAndSwap => cases hpermit
  | settle revision id =>
    obtain ⟨snapshot, hsnapshot, item, hrevision, hfind, rfl, hdone, hearlier⟩ :=
      hdelivers.settles revision id rfl
    refine ⟨(fun _ _ heq => nomatch heq), (fun _ heq => nomatch heq), fun other hmem hgone => ?_,
      nofun, fun _ _ heq => ?_⟩
    · rcases hhandled.1 with hsame | hsettled
      · exact absurd hmem (hsame ▸ hgone)
      · -- The settled revision is durable, so that the erased item is the one delivered.
        have hdurable : snapshot = before.durable := by
          apply History.eq_newest_of_rank hsnapshot
          rw [hrevision, hsettled.current]
          rfl
        rw [hsettled.advanced] at hgone
        have hother := find_of_erased hmem hgone
        rw [← hdurable, hfind] at hother
        cases hother
        exact .inr ⟨line, rfl, hdone⟩
    · cases heq
      have hid : item.id = id := by simpa using List.find?_some hfind
      exact ⟨snapshot, hsnapshot, item, List.mem_of_find?_eq_some hfind, hrevision, hid, hearlier⟩
  | abortX25519 => exact orderly_of_same (by rw [hhandled]; rfl) id nofun
  | abortMlKem768 => exact orderly_of_same (by rw [hhandled]; rfl) id nofun
  | carry => exact orderly_of_boundary hhandled.1 hhands nofun
  | apply => exact orderly_of_boundary hhandled.1 hhands nofun
  | release => exact orderly_of_boundary hhandled.1 hhands nofun
  | _ => exact orderly_of_same (by rw [hhandled.1]) id nofun

theorem orderly {call : Call} {origin w : World}
    {trace later : List (Program.Exchange interface World)}
    {x : Program.Exchange interface World} {rest : Program interface call.Result}
    (hrun : Program.Executes World.Later (handles provider) (call.program provider) origin
      trace rest w) (htrace : trace = earlier ++ x :: later) : call.Orderly earlier x := by
  have hmem : x ∈ trace := by simp [htrace]
  have hmeets : Program.Meets World.Later (handles provider) (call.Permitted provider)
      (call.Backed provider) (call.program provider) origin := call.meets_permitted origin
  have hpermit := (hmeets.executes (fun _ _ _ h h' => h.trans h') hrun).2 x hmem
  have hhandled := hrun.handled x hmem
  cases call with
  | operate line operation => exact orderly_operate hpermit hhandled
  | serve line service =>
    exact orderly_serve hpermit hhandled ((Delivers.traces service origin).executes hrun htrace)

end Call

section

variable {ι : Type} [DecidableEq ι] {provider : Provider}
  {guard : (system provider).Config ι → (system provider).Event ι → Prop}
  {c₀ c : (system provider).Config ι} {log : List ((system provider).Event ι)}

/-- Durable output is bounded, only leaves with its delivery or with a deletion, which empties it,
and is never released early. -/
theorem durable_output (hidle : c₀.allIdle) (hgenesis : c₀.world.Genesis)
    (h : (system provider).Run guard c₀ log c) :
    (∀ snapshot ∈ c.world.snapshots.entries, WellQueued snapshot.pending) ∧
    ∀ i call origin trace rest, c.thread i = .busy call origin trace rest →
      ∀ earlier x later, trace = earlier ++ x :: later → Call.Orderly call earlier x :=
  ⟨run_wellQueued hidle hgenesis h,
    fun _ _ _ _ _ hbusy _ _ _ htrace => Call.orderly (run_executes hidle h hbusy) htrace⟩

end

end LicoArc
