import LicoArc.GroupRoster
import LicoArc.Interaction.Sequence

/-!
# Results of a group message

The results of the projections of a message and their aggregate. Each result
belongs to one projection, and a projection without a result is pending.
-/

namespace LicoArc

namespace Group

inductive ResultOutcome
  | pending
  | delivered
  | rejected
  | failed
  deriving DecidableEq, Repr

inductive ResultAuthority
  | endpointConfirmation
  | none
  deriving DecidableEq, Repr

inductive AggregateOutcome
  | complete
  | partially
  | failed
  deriving DecidableEq, Repr

end Group

open LicoArc.Group

structure GroupResult where
  projectionId : FixedBytes 16
  recipient : FixedBytes 32
  outcome : ResultOutcome
  failureCode : Option Nat
  authority : ResultAuthority
  deriving DecidableEq

structure Aggregate where
  outcome : AggregateOutcome
  pending : Nat
  delivered : Nat
  rejected : Nat
  failed : Nat
  deriving DecidableEq

namespace Group

def validateUniqueResults : (seen : List (FixedBytes 16)) → List (FixedBytes 16) →
    Except Error Unit
  | _, [] => .ok ()
  | seen, id :: ids => do
    reject (seen.length = maxGroupProjections) (.validation .boundExceeded)
    reject (id ∈ seen) (.validation .invalidRepresentation)
    validateUniqueResults (id :: seen) ids

/-- The checks of one result. The recipients of the projections are known to be distinct. -/
def validateResult (projections : List Projection) (result : GroupResult) : Except Error Unit := do
  let expected := projections.find? (·.recipient = result.recipient)
  reject (expected.map Projection.id ≠ some result.projectionId) (.validation .invalidTransition)
  let failureExpected : Bool := result.outcome = .rejected ∨ result.outcome = .failed
  reject (failureExpected ≠ result.failureCode.isSome ∨ result.failureCode.any (· > 12) ∨
    (result.outcome = .pending ∧ result.authority ≠ .none) ∨
    (result.outcome = .delivered ∧ result.authority ≠ .endpointConfirmation))
    (.validation .invalidRepresentation)

def count (aggregate : Aggregate) (result : GroupResult) : Aggregate :=
  match result.outcome with
  | .pending => { aggregate with pending := aggregate.pending + 1 }
  | .delivered => { aggregate with delivered := aggregate.delivered + 1 }
  | .rejected => { aggregate with rejected := aggregate.rejected + 1 }
  | .failed => { aggregate with failed := aggregate.failed + 1 }

def aggregateResults (projections : List Projection) (results : List GroupResult) :
    Except Error Aggregate := do
  reject (projections = [] ∨ projections.length > maxGroupProjections ∨ results = [] ∨
    results.length > maxGroupProjections) (.validation .boundExceeded)
  reject (¬(projections.map fun projection => projection.recipient.toList).IsChain (· < ·) ∨
    ¬(results.map fun result => result.recipient.toList).IsChain (· < ·))
    (.validation .invalidRepresentation)
  validateUniqueResults [] (projections.map Projection.id)
  validateUniqueResults [] (results.map GroupResult.projectionId)
  results.forM (validateResult projections)
  let aggregate := results.foldl count
    { outcome := .partially, pending := projections.length - results.length, delivered := 0,
      rejected := 0, failed := 0 }
  return { aggregate with
    outcome :=
      if aggregate.delivered = projections.length then .complete
      else if aggregate.delivered = 0 ∧ aggregate.pending = 0 then .failed
      else .partially }

/-- The status of a projection, pending where no result reports it. -/
def statusOf (results : List GroupResult) (projection : Projection) : ResultOutcome :=
  ((results.find? (·.recipient = projection.recipient)).map GroupResult.outcome).getD .pending

def inStatus (results : List GroupResult) (projections : List Projection)
    (status : ResultOutcome) : Nat :=
  projections.countP (statusOf results · = status)

/-! ## The counters -/

theorem count_eq (aggregate : Aggregate) (result : GroupResult) :
    (count aggregate result).pending =
        aggregate.pending + (if result.outcome = .pending then 1 else 0) ∧
      (count aggregate result).delivered =
        aggregate.delivered + (if result.outcome = .delivered then 1 else 0) ∧
      (count aggregate result).rejected =
        aggregate.rejected + (if result.outcome = .rejected then 1 else 0) ∧
      (count aggregate result).failed =
        aggregate.failed + (if result.outcome = .failed then 1 else 0) := by
  rw [count]
  cases result.outcome <;> exact ⟨rfl, rfl, rfl, rfl⟩

theorem foldl_count (results : List GroupResult) (aggregate : Aggregate) :
    (results.foldl count aggregate).pending =
        aggregate.pending + results.countP (·.outcome = .pending) ∧
      (results.foldl count aggregate).delivered =
        aggregate.delivered + results.countP (·.outcome = .delivered) ∧
      (results.foldl count aggregate).rejected =
        aggregate.rejected + results.countP (·.outcome = .rejected) ∧
      (results.foldl count aggregate).failed =
        aggregate.failed + results.countP (·.outcome = .failed) := by
  induction results generalizing aggregate with
  | nil => exact ⟨rfl, rfl, rfl, rfl⟩
  | cons result results ih =>
    obtain ⟨hpending, hdelivered, hrejected, hfailed⟩ := ih (count aggregate result)
    obtain ⟨hpending', hdelivered', hrejected', hfailed'⟩ := count_eq aggregate result
    simp only [List.foldl_cons, List.countP_cons, decide_eq_true_eq]
    refine ⟨?_, ?_, ?_, ?_⟩ <;> omega

theorem countP_statuses {α : Type} (status : α → ResultOutcome) (items : List α) :
    items.countP (status · = .pending) + items.countP (status · = .delivered) +
      items.countP (status · = .rejected) + items.countP (status · = .failed) = items.length := by
  induction items with
  | nil => rfl
  | cons item items ih =>
    cases hstatus : status item <;> simp [hstatus] <;> omega

/-! ## Accepted results -/

section Accepted

variable {projections : List Projection} {results : List GroupResult} {aggregate : Aggregate}

/-- What the aggregation asks of the results. -/
structure Answers (projections : List Projection) (results : List GroupResult) : Prop where
  recipients : (projections.map Projection.recipient).Nodup
  distinct : (results.map GroupResult.recipient).Nodup
  reported : ∀ result ∈ results, ∃ projection ∈ projections,
    projection.recipient = result.recipient ∧ projection.id = result.projectionId

theorem nodup_of_isChain {α : Type} {key : α → FixedBytes 32} {items : List α}
    (h : (items.map fun item => (key item).toList).IsChain (· < ·)) : (items.map key).Nodup := by
  rw [List.isChain_iff_pairwise, List.pairwise_map] at h
  refine List.pairwise_map.mpr (h.imp ?_)
  intro a b hlt heq
  rw [heq] at hlt
  exact Std.lt_irrefl hlt

theorem aggregateResults_eq_ok (h : aggregateResults projections results = .ok aggregate) :
    projections ≠ [] ∧ Answers projections results ∧
      let counted := results.foldl count
        { outcome := .partially, pending := projections.length - results.length, delivered := 0,
          rejected := 0, failed := 0 }
      aggregate = { counted with
        outcome :=
          if counted.delivered = projections.length then .complete
          else if counted.delivered = 0 ∧ counted.pending = 0 then .failed
          else .partially } := by
  simp only [aggregateResults, Except.bind_eq_ok, reject_eq_ok, exists_const, not_or, not_not,
    Except.forM_eq_ok, Except.pure_eq, Except.ok.injEq] at h
  obtain ⟨⟨hsome, _⟩, ⟨hprojections, hresults⟩, _, _, _, _, hall, rfl⟩ := h
  refine ⟨hsome, ⟨nodup_of_isChain hprojections, nodup_of_isChain hresults, ?_⟩, rfl⟩
  intro result hresult
  have hvalid := hall result hresult
  simp only [validateResult, Except.bind_eq_ok, reject_eq_ok, exists_const, not_not,
    Option.map_eq_some_iff] at hvalid
  obtain ⟨⟨projection, hfind, hid⟩, _⟩ := hvalid
  have hrecipient := List.find?_some hfind
  exact ⟨projection, List.mem_of_find?_eq_some hfind, of_decide_eq_true hrecipient, hid⟩

theorem reported_iff {status : ResultOutcome} (hstatus : status ≠ .pending)
    (projection : Projection) :
    decide (statusOf results projection = status) =
      (results.find? (·.recipient = projection.recipient)).any (·.outcome = status) := by
  rw [statusOf]
  cases results.find? (·.recipient = projection.recipient) with
  | none => simpa using hstatus.symm
  | some result => rfl

theorem Answers.inStatus_eq (h : Answers projections results) {status : ResultOutcome}
    (hstatus : status ≠ .pending) :
    inStatus results projections status = results.countP (·.outcome = status) := by
  have hsubset : ∀ result ∈ results, ∃ projection ∈ projections,
      projection.recipient = result.recipient := by
    intro result hresult
    obtain ⟨projection, hprojection, hrecipient, _⟩ := h.reported result hresult
    exact ⟨projection, hprojection, hrecipient⟩
  rw [← countP_find? h.recipients h.distinct hsubset, inStatus]
  simp only [reported_iff hstatus]

theorem Answers.length_le (h : Answers projections results) :
    results.length ≤ projections.length := by
  have hsubset : results.map GroupResult.recipient ⊆ projections.map Projection.recipient := by
    intro recipient hrecipient
    obtain ⟨result, hresult, rfl⟩ := List.mem_map.mp hrecipient
    obtain ⟨projection, hprojection, hrecipient, _⟩ := h.reported result hresult
    exact hrecipient ▸ List.mem_map_of_mem hprojection
  have hle := (h.distinct.subperm hsubset).length_le
  rwa [List.length_map, List.length_map] at hle

theorem Answers.counted (h : Answers projections results) :
    let counted := results.foldl count
      { outcome := .partially, pending := projections.length - results.length, delivered := 0,
        rejected := 0, failed := 0 }
    counted.pending = inStatus results projections .pending ∧
      counted.delivered = inStatus results projections .delivered ∧
      counted.rejected = inStatus results projections .rejected ∧
      counted.failed = inStatus results projections .failed := by
  have hdelivered := h.inStatus_eq (show ResultOutcome.delivered ≠ .pending by decide)
  have hrejected := h.inStatus_eq (show ResultOutcome.rejected ≠ .pending by decide)
  have hfailed := h.inStatus_eq (show ResultOutcome.failed ≠ .pending by decide)
  have hresults := countP_statuses GroupResult.outcome results
  have hprojections := countP_statuses (statusOf results) projections
  have hlength := h.length_le
  obtain ⟨hpending, hcounted⟩ := foldl_count results
    { outcome := .partially, pending := projections.length - results.length, delivered := 0,
      rejected := 0, failed := 0 }
  simp only [Nat.zero_add] at hcounted
  intro counted
  refine ⟨?_, hcounted.1.trans hdelivered.symm, hcounted.2.1.trans hrejected.symm,
    hcounted.2.2.trans hfailed.symm⟩
  change (results.foldl count _).pending = _
  rw [hpending]
  simp only [inStatus] at hdelivered hrejected hfailed ⊢
  omega

end Accepted

end Group

namespace GroupState

variable {provider : Provider} {state : GroupState} {messageId : FixedBytes 16}
  {sender : FixedBytes 32} {payload : Bytes} {projections : List Projection}

/-- A member's message has projections, within the bound of its payload. -/
theorem projections_total (hvalid : state.validate = .ok ())
    (hsender : ∃ item ∈ state.members, item.endpoint = sender)
    (hpayload : payload.length ≤ maxGroupPayloadBytes) :
    ∃ projections, state.projections provider messageId sender payload = .ok projections := by
  obtain ⟨digest, hdigest⟩ := digest_total provider hvalid
  obtain ⟨_, hbound, _⟩ := validate_eq_ok.mp hvalid
  have hrecipients : (state.members.filter (·.endpoint ≠ sender)).length ≤ maxGroupProjections :=
    (List.length_filter_le _ _).trans hbound
  rw [GroupState.projections, hvalid, reject_of_not _ (not_lt.mpr hpayload),
    reject_of_not _ (not_not.mpr hsender)]
  simp only [Except.ok_bind]
  rw [reject_of_not _ (not_lt.mpr hrecipients), hdigest]
  exact ⟨_, rfl⟩

theorem projections_recipients
    (h : state.projections provider messageId sender payload = .ok projections) :
    projections.map Projection.recipient =
      (state.members.map Member.endpoint).filter (· ≠ sender) := by
  simp only [GroupState.projections, Except.bind_eq_ok, reject_eq_ok, exists_const, Except.pure_eq,
    Except.ok.injEq] at h
  obtain ⟨_, _, _, _, _, _, _, rfl⟩ := h
  rw [List.map_map, List.filter_map]
  rfl

end GroupState

/-- Each other member has one projection, in the order of the endpoints, and an accepted list of
results is counted without a projection lost or counted twice. -/
theorem aggregation_conserves (provider : Provider) {state : GroupState}
    {sender : FixedBytes 32} (hvalid : state.validate = .ok ())
    (hsender : ∃ item ∈ state.members, item.endpoint = sender) (messageId : FixedBytes 16)
    (payload : Bytes) :
    (payload.length ≤ maxGroupPayloadBytes →
      ∃ projections, state.projections provider messageId sender payload = .ok projections) ∧
    ∀ projections, state.projections provider messageId sender payload = .ok projections →
      projections.map Projection.recipient =
        (state.members.map Member.endpoint).filter (· ≠ sender) ∧
      ∀ results aggregate, aggregateResults projections results = .ok aggregate →
        results.length ≤ projections.length ∧
        aggregate.pending + aggregate.delivered + aggregate.rejected + aggregate.failed =
          projections.length ∧
        (aggregate.pending = inStatus results projections .pending ∧
          aggregate.delivered = inStatus results projections .delivered ∧
          aggregate.rejected = inStatus results projections .rejected ∧
          aggregate.failed = inStatus results projections .failed) ∧
        (aggregate.outcome = .complete ↔
          ∀ projection ∈ projections, statusOf results projection = .delivered) ∧
        (aggregate.outcome = .failed ↔ ∀ projection ∈ projections,
          statusOf results projection ≠ .delivered ∧ statusOf results projection ≠ .pending) ∧
        (aggregate.outcome = .partially ↔ aggregate.outcome ≠ .complete ∧
          aggregate.outcome ≠ .failed) := by
  refine ⟨GroupState.projections_total hvalid hsender, fun projections hprojections => ?_⟩
  refine ⟨GroupState.projections_recipients hprojections, fun results aggregate haggregate => ?_⟩
  obtain ⟨hsome, hanswers, rfl⟩ := aggregateResults_eq_ok haggregate
  obtain ⟨hpending, hdelivered, hrejected, hfailed⟩ := hanswers.counted
  have htotal := countP_statuses (statusOf results) projections
  have hpositive := List.length_pos_iff.mpr hsome
  have hcomplete : inStatus results projections .delivered = projections.length ↔
      ∀ projection ∈ projections, statusOf results projection = .delivered := by
    rw [inStatus, List.countP_eq_length]
    simp only [decide_eq_true_eq]
  have hnone (status : ResultOutcome) : inStatus results projections status = 0 ↔
      ∀ projection ∈ projections, statusOf results projection ≠ status := by
    rw [inStatus, List.countP_eq_zero]
    simp only [decide_eq_true_eq]
  refine ⟨hanswers.length_le, ?_, ⟨hpending, hdelivered, hrejected, hfailed⟩, ?_, ?_, ?_⟩
  · rw [hpending, hdelivered, hrejected, hfailed]
    exact htotal
  · rw [← hcomplete, hdelivered]
    split_ifs with hall hfailure <;> simp [hall]
  · rw [forall₂_and, ← hnone, ← hnone, hdelivered, hpending]
    split_ifs with hall hfailure
    · simp only [false_iff, not_and]
      omega
    · exact iff_of_true rfl hfailure
    · simpa using hfailure
  · split_ifs <;> simp

namespace Unreported

/-- Digests that keep the recipients apart. -/
def provider : Provider :=
  { tableProvider [] [] with sha256 := fun input => .replicate 32 (input.getLastD 0) }

def state : GroupState :=
  ⟨.zero 32, 0, none, [⟨.zero 32, .stateAuthority⟩, ⟨.replicate 32 1, .member⟩,
    ⟨.replicate 32 2, .member⟩, ⟨.replicate 32 3, .member⟩], .zero 32⟩

/-- The second recipient does not report. -/
def results : List GroupResult :=
  [⟨.replicate 16 0, .zero 32, .delivered, none, .endpointConfirmation⟩,
    ⟨.replicate 16 3, .replicate 32 3, .rejected, some 2, .none⟩]

theorem aggregated : Except.check (do
    let projections ← state.projections provider (.zero 16) (.replicate 32 1) []
    aggregateResults projections results)
    (fun aggregate => aggregate.outcome = .partially ∧ aggregate.pending = 1) = true := by
  decide +kernel

end Unreported

open Unreported in
/-- Of three recipients one has the message, one has rejected it and one is pending. -/
theorem aggregation_of_unreported : ∃ projections aggregate,
    state.projections provider (.zero 16) (.replicate 32 1) [] = .ok projections ∧
    projections.length = 3 ∧ aggregateResults projections results = .ok aggregate ∧
    aggregate.outcome = .partially ∧ aggregate.pending = 1 ∧
    inStatus results projections .pending = 1 ∧
    aggregate.pending + aggregate.delivered + aggregate.rejected + aggregate.failed = 3 := by
  obtain ⟨aggregate, haggregate, hpartially, hpending⟩ := Except.exists_of_check aggregated
  obtain ⟨projections, hprojections, haggregate⟩ := Except.bind_eq_ok.mp haggregate
  obtain ⟨hrecipients, haggregates⟩ :=
    (@aggregation_conserves provider state (.replicate 32 1) (by decide)
    ⟨_, List.mem_cons_of_mem _ List.mem_cons_self, rfl⟩ (.zero 16) []).2 projections hprojections
  have hlength : projections.length = 3 := by
    rw [← @List.length_map _ _ _ Projection.recipient, hrecipients]
    decide
  obtain ⟨_, htotal, ⟨hcounted, _⟩, _⟩ := haggregates results aggregate haggregate
  exact ⟨projections, aggregate, hprojections, hlength, haggregate, hpartially, hpending,
    hcounted ▸ hpending, hlength ▸ htotal⟩

end LicoArc
