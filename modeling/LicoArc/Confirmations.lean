import LicoArc.Group
import LicoArc.RankedFold
import LicoArc.Reliable

/-!
# Finality of a logical message

The confirmations of a message come in late, repeated and in any order. An
accepted one moves the finality of the message to a higher rank, every other
one leaves it.
-/

namespace LicoArc

open Reliable

/-- A confirmation as it comes in: its session and what the caller knows of its result. -/
structure Report where
  confirmation : EndpointConfirmation
  session : AuthorizedSession
  expectedResultDigest : Option (FixedBytes 32)
  attachmentComplete : Bool
  deriving DecidableEq

def FinalityState.Terminal (state : FinalityState) : Prop :=
  state = .completed ∨ state = .rejected ∨ state = .failed

theorem FinalityState.terminal_iff {state : FinalityState} : state.Terminal ↔ state.rank = 2 := by
  cases state <;> simp [Terminal, rank]

theorem FinalityState.rank_le (state : FinalityState) : state.rank ≤ 2 := by
  cases state <;> decide

namespace Report

def apply (self : Report) (logicalMessageId : FixedBytes 16) (current : FinalityState) :
    Except Error FinalityState :=
  applyEndpointConfirmation current logicalMessageId self.confirmation self.session
    self.expectedResultDigest self.attachmentComplete

def verdict (self : Report) : FinalityState :=
  finality self.confirmation.stage self.confirmation.outcome

def valid (self : Report) (logicalMessageId : FixedBytes 16) : Bool :=
  (self.apply logicalMessageId .pending).isOk

/-- The session speaks for the expected endpoint, and the confirmation lists the message. -/
structure Authorized (report : Report) (logicalMessageId : FixedBytes 16) : Prop where
  authenticated : report.session.authenticated
  authorized : report.session.senderAuthorized
  expected : report.session.senderEndpoint = report.session.expectedSenderEndpoint
  listed : logicalMessageId ∈ report.confirmation.confirmedMessageIds

structure Acceptable (report : Report) (logicalMessageId : FixedBytes 16) : Prop where
  ids : validateConfirmationIds report.confirmation.confirmedMessageIds = .ok ()
  sender : report.Authorized logicalMessageId
  failure : report.confirmation.failureCode.isSome ↔ report.confirmation.outcome ≠ .succeeded
  bounded : ∀ code ∈ report.confirmation.failureCode, code ≤ 13
  completed : report.confirmation.stage = .effectCompleted →
    report.confirmation.outcome = .succeeded ∧
      ∃ digest, report.expectedResultDigest = some digest ∧
        report.confirmation.resultDigest = some digest
  accepted : report.confirmation.stage = .endpointAccepted →
    report.confirmation.resultDigest = none
  attachment : report.attachmentComplete

theorem settled_eq_ok {current verdict next : FinalityState} {error : Error} :
    (if current = verdict then Except.ok current
      else do
        reject (verdict.rank ≤ current.rank ∨ current = .completed ∨ current = .rejected ∨
          current = .failed) error
        Except.ok verdict) = Except.ok next ↔
      next = verdict ∧ (current = verdict ∨ current.rank < verdict.rank) := by
  split_ifs with heq
  · subst heq
    simp [eq_comm]
  · have hterminal : current = .completed ∨ current = .rejected ∨ current = .failed →
        verdict.rank ≤ current.rank := by
      intro hterminal
      rw [FinalityState.terminal_iff.mp hterminal]
      exact verdict.rank_le
    simp only [Except.bind_eq_ok, reject_eq_ok, exists_const, Except.ok.injEq, heq, false_or,
      eq_comm (a := next), and_comm (a := verdict = next)]
    refine and_congr_left fun _ => ?_
    rw [or_iff_left_of_imp hterminal, not_le]

theorem failure_iff {outcome : ConfirmationOutcome} {failureCode : Option Nat} :
    ¬(decide (outcome = .rejected ∨ outcome = .failed) ≠ failureCode.isSome ∨
      Option.any (fun code => decide (code > 13)) failureCode = true ∨
      outcome = .succeeded ∧ failureCode.isSome = true) ↔
    (failureCode.isSome ↔ outcome ≠ .succeeded) ∧ ∀ code ∈ failureCode, code ≤ 13 := by
  cases outcome <;> cases failureCode <;> simp

theorem apply_eq_ok {report : Report} {logicalMessageId : FixedBytes 16}
    {current next : FinalityState} :
    report.apply logicalMessageId current = .ok next ↔
      report.Acceptable logicalMessageId ∧ next = report.verdict ∧
        (current = report.verdict ∨ current.rank < report.verdict.rank) := by
  simp only [apply, applyEndpointConfirmation, Except.bind_eq_ok, reject_eq_ok, exists_const,
    Except.pure_eq, failure_iff]
  rw [← verdict]
  constructor
  · rintro ⟨_, hids, hauthenticated, hsender, hlisted, ⟨hfailure, hbounded⟩, hstage⟩
    rw [not_or, not_not, not_not] at hsender
    have hauthorized : report.Authorized logicalMessageId :=
      ⟨not_not.mp hauthenticated, hsender.1, hsender.2, not_not.mp hlisted⟩
    by_cases heffect : report.confirmation.stage = .effectCompleted
    · rw [if_pos heffect] at hstage
      simp only [Except.bind_eq_ok, reject_eq_ok, exists_const, okOr_eq_ok, ne_eq,
        not_not] at hstage
      obtain ⟨hsucceeded, digest, hexpected, hdigest, hattachment, hsettled⟩ := hstage
      exact ⟨⟨hids, hauthorized, hfailure, hbounded, fun _ =>
        ⟨hsucceeded, digest, hexpected, hdigest⟩, fun haccepted =>
          absurd (heffect.symm.trans haccepted) (by decide), hattachment⟩,
        settled_eq_ok.mp hsettled⟩
    · rw [if_neg heffect] at hstage
      simp only [Except.bind_eq_ok, reject_eq_ok, exists_const, Bool.not_eq_true, Bool.not_eq_false,
        Option.isSome_eq_false_iff, Option.isNone_iff_eq_none] at hstage
      obtain ⟨hdigest, hattachment, hsettled⟩ := hstage
      exact ⟨⟨hids, hauthorized, hfailure, hbounded, fun hcompleted => absurd hcompleted heffect,
        fun _ => hdigest, hattachment⟩, settled_eq_ok.mp hsettled⟩
  · rintro ⟨h, hsettled⟩
    obtain ⟨hauthenticated, hauthorized, hexpected, hlisted⟩ := h.sender
    refine ⟨(), h.ids, not_not.mpr hauthenticated, ?_, not_not.mpr hlisted,
      ⟨h.failure, h.bounded⟩, ?_⟩
    · rw [not_or, not_not, not_not]
      exact ⟨hauthorized, hexpected⟩
    · by_cases heffect : report.confirmation.stage = .effectCompleted
      · rw [if_pos heffect]
        obtain ⟨hsucceeded, digest, hdigest, hresult⟩ := h.completed heffect
        simp only [Except.bind_eq_ok, reject_eq_ok, exists_const, okOr_eq_ok, ne_eq, not_not]
        exact ⟨hsucceeded, digest, hdigest, hresult, h.attachment, settled_eq_ok.mpr hsettled⟩
      · rw [if_neg heffect]
        have haccepted : report.confirmation.stage = .endpointAccepted := by
          cases hstage : report.confirmation.stage with
          | endpointAccepted => rfl
          | effectCompleted => exact absurd hstage heffect
        simp only [Except.bind_eq_ok, reject_eq_ok, exists_const, Bool.not_eq_true,
          Bool.not_eq_false, Option.isSome_eq_false_iff, Option.isNone_iff_eq_none]
        exact ⟨h.accepted haccepted, h.attachment, settled_eq_ok.mpr hsettled⟩
theorem valid_iff {report : Report} {logicalMessageId : FixedBytes 16} :
    report.valid logicalMessageId = true ↔ report.Acceptable logicalMessageId := by
  have hrank : FinalityState.rank .pending < report.verdict.rank := by
    rw [verdict]
    cases report.confirmation.stage <;> cases report.confirmation.outcome <;> decide
  constructor
  · intro h
    rw [valid] at h
    cases hrun : report.apply logicalMessageId .pending with
    | ok next => exact (apply_eq_ok.mp hrun).1
    | error fault =>
      rw [hrun] at h
      cases h
  · intro h
    rw [valid, apply_eq_ok.mpr ⟨h, rfl, .inr hrank⟩]
    rfl

/-- The state after a report, which an error leaves as it is. -/
def settle (logicalMessageId : FixedBytes 16) (current : FinalityState) (self : Report) :
    FinalityState :=
  match self.apply logicalMessageId current with
  | .ok next => next
  | .error _ => current

theorem settle_eq (logicalMessageId : FixedBytes 16) (current : FinalityState) (report : Report) :
    report.settle logicalMessageId current =
      if report.valid logicalMessageId then
        RankedFold.rise FinalityState.rank current report.verdict
      else current := by
  rw [settle, RankedFold.rise]
  cases hrun : report.apply logicalMessageId current with
  | ok next =>
    obtain ⟨hacceptable, rfl, hmoves⟩ := apply_eq_ok.mp hrun
    rw [if_pos (valid_iff.mpr hacceptable)]
    rcases hmoves with heq | hlt
    · rw [← heq, ite_self]
    · rw [if_pos hlt]
  | error fault =>
    split_ifs with hvalid hlt
    · have hok := apply_eq_ok.mpr ⟨valid_iff.mp hvalid, rfl, .inr hlt⟩
      cases hrun.symm.trans hok
    · rfl
    · rfl

theorem authorized_of_settle {logicalMessageId : FixedBytes 16} {current : FinalityState}
    {report : Report} (h : report.settle logicalMessageId current ≠ current) :
    report.Authorized logicalMessageId := by
  rw [settle_eq] at h
  split_ifs at h with hvalid
  · exact (valid_iff.mp hvalid).sender
  · exact absurd rfl h

end Report

/-! ## Runs -/

def finalityAfter (logicalMessageId : FixedBytes 16) (reports : List Report) : FinalityState :=
  reports.foldl (Report.settle logicalMessageId · ·) .pending

def verdicts (logicalMessageId : FixedBytes 16) (reports : List Report) : List FinalityState :=
  (reports.filter (·.valid logicalMessageId)).map Report.verdict

section Runs

variable {logicalMessageId : FixedBytes 16} {reports others : List Report}

theorem finalityAfter_append (before after : List Report) :
    finalityAfter logicalMessageId (before ++ after) =
      after.foldl (Report.settle logicalMessageId · ·) (finalityAfter logicalMessageId before) := by
  rw [finalityAfter, List.foldl_append]
  rfl

theorem foldl_settle (current : FinalityState) (reports : List Report) :
    reports.foldl (Report.settle logicalMessageId · ·) current =
      RankedFold.risen FinalityState.rank current (verdicts logicalMessageId reports) := by
  induction reports generalizing current with
  | nil => rfl
  | cons report reports ih =>
    rw [List.foldl_cons, ih, Report.settle_eq, verdicts, verdicts, List.filter_cons]
    split_ifs
    · rfl
    · rfl

theorem mem_verdicts_congr (h : ∀ report, report ∈ others ↔ report ∈ reports)
    (state : FinalityState) :
    state ∈ verdicts logicalMessageId others ↔ state ∈ verdicts logicalMessageId reports := by
  simp only [verdicts, List.mem_map, List.mem_filter, h]

/-- The reports that are accepted on their own name at most one terminal state. -/
def OneTerminal (logicalMessageId : FixedBytes 16) (reports : List Report) : Prop :=
  ∀ first ∈ reports, ∀ second ∈ reports, ∀ state state' : FinalityState,
    first.apply logicalMessageId .pending = .ok state →
    second.apply logicalMessageId .pending = .ok state' →
    state.Terminal → state'.Terminal → state = state'

theorem OneTerminal.injOn (h : OneTerminal logicalMessageId reports) :
    Set.InjOn FinalityState.rank
      { state | state ∈ FinalityState.pending :: verdicts logicalMessageId reports } := by
  intro state hstate state' hstate' hrank
  have hone : state.rank = 2 → state = state' := by
    intro htop
    have htop' : state'.rank = 2 := hrank.symm.trans htop
    have hofmem : ∀ {state : FinalityState}, state.rank = 2 →
        state ∈ FinalityState.pending :: verdicts logicalMessageId reports →
        ∃ report ∈ reports, report.apply logicalMessageId .pending = .ok state := by
      intro state htop hmem
      rcases List.mem_cons.mp hmem with rfl | hmem
      · cases htop
      · obtain ⟨report, hreport, rfl⟩ := List.mem_map.mp hmem
        obtain ⟨hreport, hvalid⟩ := List.mem_filter.mp hreport
        refine ⟨report, hreport, Report.apply_eq_ok.mpr ⟨Report.valid_iff.mp hvalid, rfl, .inr ?_⟩⟩
        rw [htop]
        decide
    obtain ⟨report, hreport, happly⟩ := hofmem htop hstate
    obtain ⟨report', hreport', happly'⟩ := hofmem htop' hstate'
    exact h report hreport report' hreport' state state' happly happly'
      (FinalityState.terminal_iff.mpr htop) (FinalityState.terminal_iff.mpr htop')
  cases state <;> cases state' <;> first | rfl | exact hone rfl | cases hrank

end Runs

/-! ## Members of a group -/

def applyMemberConfirmation (projection : Projection) (current : FinalityState)
    (confirmation : EndpointConfirmation) (session : AuthorizedSession)
    (expectedResultDigest : Option (FixedBytes 32)) : Except Error FinalityState :=
  applyEndpointConfirmation current projection.messageId confirmation session expectedResultDigest
    true

def memberFinalityAfter (projection : Projection)
    (confirmations : List (EndpointConfirmation × AuthorizedSession × Option (FixedBytes 32))) :
    FinalityState :=
  confirmations.foldl (fun current (confirmation, session, expectedResultDigest) =>
    match applyMemberConfirmation projection current confirmation session expectedResultDigest with
    | .ok next => next
    | .error _ => current) .pending

/-- The report of a member, whose attachments are complete. -/
def memberReport : EndpointConfirmation × AuthorizedSession × Option (FixedBytes 32) → Report :=
  fun (confirmation, session, expectedResultDigest) =>
    ⟨confirmation, session, expectedResultDigest, true⟩

/-- The members of a group are confirmed as a logical message is. -/
theorem memberFinalityAfter_eq (projection : Projection)
    (confirmations : List (EndpointConfirmation × AuthorizedSession × Option (FixedBytes 32))) :
    memberFinalityAfter projection confirmations =
      finalityAfter projection.messageId (confirmations.map memberReport) := by
  rw [memberFinalityAfter, finalityAfter, List.foldl_map]
  rfl

/-- The finality of a message never falls in rank, a terminal one stays, only authorised
confirmations of the message change it, and where they name one terminal state their order and
their repetitions do not matter. The members of a group are confirmed in the same way. -/
theorem finality_absorbs (logicalMessageId : FixedBytes 16) (reports : List Report) :
    (∀ before after, reports = before ++ after →
      (finalityAfter logicalMessageId before).rank ≤ (finalityAfter logicalMessageId reports).rank ∧
      ((finalityAfter logicalMessageId before).Terminal →
        finalityAfter logicalMessageId reports = finalityAfter logicalMessageId before)) ∧
    (∀ before report after, reports = before ++ report :: after →
      finalityAfter logicalMessageId (before ++ [report]) ≠ finalityAfter logicalMessageId before →
      report.Authorized logicalMessageId) ∧
    (OneTerminal logicalMessageId reports →
      ∀ others : List Report, (∀ report, report ∈ others ↔ report ∈ reports) →
        finalityAfter logicalMessageId others = finalityAfter logicalMessageId reports) ∧
    (∀ projection confirmations, projection.messageId = logicalMessageId →
      confirmations.map memberReport = reports →
        memberFinalityAfter projection confirmations = finalityAfter logicalMessageId reports) := by
  refine ⟨?_, ?_, ?_, ?_⟩
  · rintro before after rfl
    rw [finalityAfter_append, foldl_settle]
    refine ⟨RankedFold.le_risen, fun hterminal => RankedFold.risen_of_top fun state _ => ?_⟩
    rw [FinalityState.terminal_iff.mp hterminal]
    exact state.rank_le
  · rintro before report after rfl hchanged
    rw [finalityAfter_append] at hchanged
    exact Report.authorized_of_settle hchanged
  · intro hone others hmem
    rw [finalityAfter, finalityAfter, foldl_settle, foldl_settle]
    exact RankedFold.risen_congr hone.injOn (mem_verdicts_congr hmem)
  · rintro projection confirmations rfl rfl
    exact memberFinalityAfter_eq projection confirmations

end LicoArc
