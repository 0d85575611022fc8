import LicoArc.Confirmations
import LicoArc.ClosedRecords
import LicoArc.EncodingSize
import LicoArc.EntryMaps
import LicoArc.Interaction.Sequence

/-!
# Confirmation records

The record of a confirmation as a peer sends it. Its validator and the reducer
ask the same of the fields, except that the record of a refusal may name the
completed effect as its stage.
-/

namespace LicoArc

open Encoding (lookupEntry)

namespace Reliable

open Transport (closedMap unsigned boundedUnsigned)

def confirmedId : CborValue → Except Error (FixedBytes 16)
  | .bytes value => okOr (.validation .invalidRepresentation) (FixedBytes.ofBytes? 16 value)
  | _ => .error (.validation .invalidRepresentation)

def confirmedIds : Option CborValue → Except Error (List (FixedBytes 16))
  | some (.array values) => values.mapM confirmedId
  | _ => .error (.validation .invalidRepresentation)

def validateConfirmationRecord (value : CborValue) : Except Error Unit := do
  let encoded ← Encoding.encode value
  reject (encoded.length > 16384) (.validation .boundExceeded)
  let record ← closedMap value 5 [0, 1, 2, 3]
  fixedBytes (lookupEntry 0 record) 16
  boundedUnsigned (lookupEntry 1 record) 1
  boundedUnsigned (lookupEntry 2 record) 2
  let ids ← confirmedIds (lookupEntry 3 record)
  validateConfirmationIds ids
  optionalBoundedUnsigned (lookupEntry 4 record) 13
  optionalFixedBytes (lookupEntry 5 record) 32
  let stage ← unsigned (lookupEntry 1 record)
  let outcome ← unsigned (lookupEntry 2 record)
  let hasFailure : Bool := (lookupEntry 4 record).isSome
  let hasResult : Bool := (lookupEntry 5 record).isSome
  reject (hasFailure ≠ decide (outcome = 1 ∨ outcome = 2) ∨ (outcome = 0 ∧ hasFailure) ∨
    hasResult ≠ decide (stage = 1 ∧ outcome = 0)) (.validation .invalidRepresentation)

def stageValue : ConfirmationStage → Nat
  | .endpointAccepted => 0
  | .effectCompleted => 1

def outcomeValue : ConfirmationOutcome → Nat
  | .succeeded => 0
  | .rejected => 1
  | .failed => 2

end Reliable

open Reliable

namespace EndpointConfirmation

def entries (self : EndpointConfirmation) : List (Nat × CborValue) :=
  [(0, .bytes self.confirmationId.toList), (1, .unsigned (stageValue self.stage)),
    (2, .unsigned (outcomeValue self.outcome)),
    (3, .array (self.confirmedMessageIds.map fun id => .bytes id.toList))] ++
  (self.failureCode.map fun code => (4, CborValue.unsigned code)).toList ++
  (self.resultDigest.map fun digest => (5, CborValue.bytes digest.toList)).toList

def record (self : EndpointConfirmation) : CborValue := .map self.entries

/-- What the validator asks of the fields. -/
structure Representable (confirmation : EndpointConfirmation) : Prop where
  ids : validateConfirmationIds confirmation.confirmedMessageIds = .ok ()
  failure : confirmation.failureCode.isSome ↔ confirmation.outcome ≠ .succeeded
  bounded : ∀ code ∈ confirmation.failureCode, code ≤ 13
  result : confirmation.resultDigest.isSome ↔
    confirmation.stage = .effectCompleted ∧ confirmation.outcome = .succeeded

structure Reads (confirmation : EndpointConfirmation) (values : List (Nat × CborValue)) : Prop where
  confirmationId : lookupEntry 0 values = some (.bytes confirmation.confirmationId.toList)
  stage : lookupEntry 1 values = some (.unsigned (stageValue confirmation.stage))
  outcome : lookupEntry 2 values = some (.unsigned (outcomeValue confirmation.outcome))
  ids : lookupEntry 3 values =
    some (.array (confirmation.confirmedMessageIds.map fun id => .bytes id.toList))
  failure : lookupEntry 4 values = confirmation.failureCode.map .unsigned
  result : lookupEntry 5 values = confirmation.resultDigest.map fun digest => .bytes digest.toList

end EndpointConfirmation

/-! ## Reading the fields -/

namespace Reliable

open Transport (closedMap unsigned boundedUnsigned)

variable {value : Option CborValue}

theorem confirmedIds_eq_ok {ids : List (FixedBytes 16)} :
    confirmedIds value = .ok ids ↔
      value = some (.array (ids.map fun id => .bytes id.toList)) := by
  have hid (value : CborValue) (id : FixedBytes 16) :
      confirmedId value = .ok id ↔ value = .bytes id.toList ∧ True := by
    cases value <;> simp [confirmedId, FixedBytes.ofBytes?_eq_some]
  cases value with
  | none => simp [confirmedIds]
  | some found =>
    cases found with
    | array values =>
      rw [confirmedIds, Except.mapM_eq_ok_iff_map fun value _ id => hid value id]
      simp
    | null | bool | unsigned | map | text | bytes => simp [confirmedIds]

end Reliable

/-! ## Records of confirmations -/

namespace EndpointConfirmation

variable {confirmation : EndpointConfirmation} {values : List (Nat × CborValue)}

theorem entries_ascending (self : EndpointConfirmation) : Encoding.Ascending self.entries := by
  rw [entries]
  cases self.failureCode <;> cases self.resultDigest <;> simp [Encoding.Ascending]

theorem entries_labels (self : EndpointConfirmation) : ∀ entry ∈ self.entries, entry.1 ≤ 5 := by
  rw [entries]
  cases self.failureCode <;> cases self.resultDigest <;> simp

theorem reads_entries (self : EndpointConfirmation) : self.Reads self.entries := by
  rw [entries]
  constructor <;> cases self.failureCode <;> cases self.resultDigest <;> rfl

theorem Reads.eq_entries (h : confirmation.Reads values) (hascending : Encoding.Ascending values)
    (hlabels : ∀ entry ∈ values, entry.1 ≤ 5) : values = confirmation.entries := by
  have hprinted := confirmation.reads_entries
  refine hascending.ext confirmation.entries_ascending fun key => ?_
  by_cases hkey : key ≤ 5
  · interval_cases key
    · rw [h.confirmationId, hprinted.confirmationId]
    · rw [h.stage, hprinted.stage]
    · rw [h.outcome, hprinted.outcome]
    · rw [h.ids, hprinted.ids]
    · rw [h.failure, hprinted.failure]
    · rw [h.result, hprinted.result]
  · have hnone {others : List (Nat × CborValue)} (hothers : ∀ entry ∈ others, entry.1 ≤ 5) :
        lookupEntry key others = none := by
      cases hfound : lookupEntry key others with
      | none => rfl
      | some found => exact absurd (hothers _ (Encoding.mem_of_lookupEntry hfound)) hkey
    rw [hnone hlabels, hnone confirmation.entries_labels]

theorem record_wellFormed (self : EndpointConfirmation) : Encoding.WellFormed self.record := by
  refine Encoding.wellFormed_map.mpr ⟨self.entries_ascending, ?_⟩
  have hids : Encoding.WellFormed
    (.array (self.confirmedMessageIds.map fun id => .bytes id.toList)) := by
    rw [Encoding.WellFormed, Encoding.wellFormedItems_iff]
    intro value hvalue
    obtain ⟨id, _, rfl⟩ := List.mem_map.mp hvalue
    trivial
  rw [entries]
  cases self.failureCode <;> cases self.resultDigest <;> simp [Encoding.WellFormed] at hids ⊢ <;>
    exact hids

theorem Representable.length (h : confirmation.Representable) :
    confirmation.confirmedMessageIds.length ≤ 32 := by
  have hids := h.ids
  simp only [validateConfirmationIds, Except.bind_eq_ok, reject_eq_ok, not_or, not_lt, gt_iff_lt]
    at hids
  obtain ⟨_, ⟨_, hlength⟩, _⟩ := hids
  exact hlength

theorem itemsSize_ids (ids : List (FixedBytes 16)) :
    Encoding.itemsSize (ids.map fun id => .bytes id.toList) = 25 * ids.length := by
  induction ids with
  | nil => rfl
  | cons id ids ih =>
    rw [List.map_cons, Encoding.itemsSize, ih, Encoding.valueSize, List.Vector.toList_length,
      List.length_cons]
    ring

theorem itemsFit_ids (levels : Nat) (ids : List (FixedBytes 16)) :
    Encoding.ItemsFit levels (ids.map fun id => .bytes id.toList) := by
  induction ids with
  | nil => trivial
  | cons id ids ih =>
    refine ⟨?_, ih⟩
    rw [Encoding.Fits, List.Vector.toList_length]
    decide

theorem Representable.encode (h : confirmation.Representable) :
    ∃ encoded, Encoding.encode confirmation.record = .ok encoded ∧ encoded.length ≤ 16384 := by
  have hlength := h.length
  have hbounded := h.bounded
  have hfits : Encoding.Fits Encoding.maxDepth confirmation.record ∧
      Encoding.valueSize confirmation.record ≤ 16384 := by
    have hids := itemsFit_ids 14 confirmation.confirmedMessageIds
    have hsize := itemsSize_ids confirmation.confirmedMessageIds
    rw [record, entries]
    cases hcode : confirmation.failureCode <;> cases confirmation.resultDigest <;>
      cases confirmation.stage <;> cases confirmation.outcome <;>
      simp [Encoding.Fits, Encoding.EntriesFit, Encoding.valueSize, Encoding.entriesSize,
        Encoding.maxDepth, Encoding.maxCollectionItems, Encoding.maxInteger, Encoding.maxRawBytes,
        stageValue, outcomeValue, hsize, hids, hcode] at hbounded ⊢ <;> omega
  have hsize : Encoding.valueSize confirmation.record ≤ Encoding.maxEncodedBytes :=
    hfits.2.trans (by decide)
  exact ⟨_, Encoding.encode_ok hfits.1 hsize, (Encoding.encodeInto_length_le _).trans hfits.2⟩

/-! ## The validator -/

theorem exists_stage {n : Nat} (h : n ≤ 1) : ∃ stage, n = stageValue stage := by
  interval_cases n
  · exact ⟨.endpointAccepted, rfl⟩
  · exact ⟨.effectCompleted, rfl⟩

theorem exists_outcome {n : Nat} (h : n ≤ 2) : ∃ outcome, n = outcomeValue outcome := by
  interval_cases n
  · exact ⟨.succeeded, rfl⟩
  · exact ⟨.rejected, rfl⟩
  · exact ⟨.failed, rfl⟩

/-- The presence equations of the validator are those of the fields. -/
theorem presence_iff {stage : ConfirmationStage} {outcome : ConfirmationOutcome}
    {hasFailure hasResult : Bool} :
    ¬(hasFailure ≠ decide (outcomeValue outcome = 1 ∨ outcomeValue outcome = 2) ∨
      (outcomeValue outcome = 0 ∧ hasFailure) ∨
      hasResult ≠ decide (stageValue stage = 1 ∧ outcomeValue outcome = 0)) ↔
    (hasFailure ↔ outcome ≠ .succeeded) ∧
      (hasResult ↔ stage = .effectCompleted ∧ outcome = .succeeded) := by
  cases stage <;> cases outcome <;> cases hasFailure <;> cases hasResult <;> decide

theorem validate_eq_ok {value : CborValue} :
    validateConfirmationRecord value = .ok () ↔
      (∃ encoded, Encoding.encode value = .ok encoded ∧ encoded.length ≤ 16384) ∧
      ∃ (values : List (Nat × CborValue)) (confirmation : EndpointConfirmation),
        value = .map values ∧ (∀ entry ∈ values, entry.1 ≤ 5) ∧
          confirmation.Reads values ∧ confirmation.Representable := by
  simp only [validateConfirmationRecord, Except.bind_eq_ok, closedMap_eq_ok, fixedBytes_eq_ok,
    boundedUnsigned_eq_ok, confirmedIds_eq_ok, optionalBoundedUnsigned_eq_ok,
    optionalFixedBytes_eq_ok, unsigned_eq_ok, reject_eq_ok, exists_const]
  constructor
  · rintro ⟨encoded, hencoded, hsize, values, ⟨rfl, hlabels, _⟩, ⟨id, hid⟩, ⟨m, hm, hstage⟩,
      ⟨n, hn, houtcome⟩, ids, hids, _, hvalid, ⟨code, hcode, hfailure⟩, ⟨digest, hresult⟩, m',
      hstage', n', houtcome', hpresence⟩
    cases hstage.symm.trans hstage'
    cases houtcome.symm.trans houtcome'
    obtain ⟨stage, rfl⟩ := exists_stage hm
    obtain ⟨outcome, rfl⟩ := exists_outcome hn
    rw [hfailure, hresult, Option.isSome_map, Option.isSome_map] at hpresence
    obtain ⟨hhasFailure, hhasResult⟩ := presence_iff.mp hpresence
    exact ⟨⟨encoded, hencoded, not_lt.mp hsize⟩, values, ⟨id, ids, stage, outcome, code, digest⟩,
      rfl, hlabels, ⟨hid, hstage, houtcome, hids, hfailure, hresult⟩,
      ⟨hvalid, hhasFailure, hcode, hhasResult⟩⟩
  · rintro ⟨⟨encoded, hencoded, hsize⟩, values, confirmation, rfl, hlabels, hreads, hrepresentable⟩
    have hrequired : ∀ key ∈ [0, 1, 2, 3], lookupEntry key values ≠ none := by
      simp [hreads.confirmationId, hreads.stage, hreads.outcome, hreads.ids]
    have hstage : stageValue confirmation.stage ≤ 1 := by cases confirmation.stage <;> decide
    have houtcome : outcomeValue confirmation.outcome ≤ 2 := by
      cases confirmation.outcome <;> decide
    refine ⟨encoded, hencoded, not_lt.mpr hsize, values, ⟨rfl, hlabels, hrequired⟩,
      ⟨_, hreads.confirmationId⟩, ⟨_, hstage, hreads.stage⟩, ⟨_, houtcome, hreads.outcome⟩, _,
      hreads.ids, (), hrepresentable.ids, ⟨_, hrepresentable.bounded, hreads.failure⟩,
      ⟨_, hreads.result⟩, _, hreads.stage, _, hreads.outcome, ?_⟩
    rw [hreads.failure, hreads.result, Option.isSome_map, Option.isSome_map]
    exact presence_iff.mpr ⟨hrepresentable.failure, hrepresentable.result⟩

theorem validate_record_iff {value : CborValue} (hwell : Encoding.WellFormed value) :
    validateConfirmationRecord value = .ok () ↔
      ∃ confirmation : EndpointConfirmation, value = confirmation.record ∧
        confirmation.Representable := by
  constructor
  · intro h
    obtain ⟨_, values, confirmation, rfl, hlabels, hreads, hrepresentable⟩ := validate_eq_ok.mp h
    have hascending := (Encoding.wellFormed_map.mp hwell).1
    rw [hreads.eq_entries hascending hlabels]
    exact ⟨confirmation, rfl, hrepresentable⟩
  · rintro ⟨confirmation, rfl, hrepresentable⟩
    exact validate_eq_ok.mpr ⟨hrepresentable.encode, _, confirmation, rfl,
      confirmation.entries_labels, confirmation.reads_entries, hrepresentable⟩

/-! ## The reducer -/

/-- The confirmation refuses an effect that it reports as completed. -/
def RefusesEffect (confirmation : EndpointConfirmation) : Prop :=
  confirmation.stage = .effectCompleted ∧ confirmation.outcome ≠ .succeeded

section Reducer

variable {logicalMessageId : FixedBytes 16} {session : AuthorizedSession}

def report (self : EndpointConfirmation) (session : AuthorizedSession) : Report :=
  ⟨self, session, self.resultDigest, true⟩

theorem Representable.acceptable_iff (h : confirmation.Representable)
    (hsender : (confirmation.report session).Authorized logicalMessageId) :
    (confirmation.report session).Acceptable logicalMessageId ↔ ¬confirmation.RefusesEffect := by
  constructor
  · rintro hacceptable ⟨hstage, houtcome⟩
    exact houtcome (hacceptable.completed hstage).1
  · intro hrefuses
    refine ⟨h.ids, hsender, h.failure, h.bounded, fun hstage => ?_, fun hstage => ?_, rfl⟩
    · have houtcome : confirmation.outcome = .succeeded :=
        not_not.mp fun hfailed => hrefuses ⟨hstage, hfailed⟩
      obtain ⟨digest, hdigest⟩ := Option.isSome_iff_exists.mp (h.result.mpr ⟨hstage, houtcome⟩)
      exact ⟨houtcome, digest, hdigest, hdigest⟩
    · have hresult : ¬confirmation.resultDigest.isSome := by
        rw [h.result]
        rintro ⟨hcompleted, _⟩
        cases hstage.symm.trans hcompleted
      exact Option.not_isSome_iff_eq_none.mp hresult

/-- The reducer refuses the refusal of a completed effect as a transition. -/
theorem Representable.refused (h : confirmation.Representable)
    (hsender : (confirmation.report session).Authorized logicalMessageId)
    (hrefuses : confirmation.RefusesEffect) :
    (confirmation.report session).apply logicalMessageId .pending =
      .error (.validation .invalidTransition) := by
  have hauthenticated : session.authenticated := hsender.authenticated
  have hlisted : logicalMessageId ∈ confirmation.confirmedMessageIds := hsender.listed
  have hsession : ¬(¬session.senderAuthorized ∨
      session.senderEndpoint ≠ session.expectedSenderEndpoint) :=
    not_or.mpr ⟨not_not.mpr hsender.authorized, not_not.mpr hsender.expected⟩
  have hfailure := Report.failure_iff.mpr ⟨h.failure, h.bounded⟩
  change applyEndpointConfirmation .pending logicalMessageId confirmation session
    confirmation.resultDigest true = _
  rw [applyEndpointConfirmation, h.ids, reject_of_not _ (not_not.mpr hauthenticated),
    reject_of_not _ hsession, reject_of_not _ (not_not.mpr hlisted)]
  simp only [Except.ok_bind]
  rw [reject_of_not _ hfailure, Except.ok_bind, if_pos hrefuses.1, reject, if_pos hrefuses.2]
  rfl

theorem representable_of_apply {report : Report} {current next : FinalityState}
    (h : report.apply logicalMessageId current = .ok next) :
    report.confirmation.Representable := by
  obtain ⟨hacceptable, _⟩ := Report.apply_eq_ok.mp h
  refine ⟨hacceptable.ids, hacceptable.failure, hacceptable.bounded, ?_⟩
  constructor
  · intro hresult
    cases hstage : report.confirmation.stage with
    | endpointAccepted =>
      rw [hacceptable.accepted hstage] at hresult
      cases hresult
    | effectCompleted => exact ⟨rfl, (hacceptable.completed hstage).1⟩
  · rintro ⟨hstage, _⟩
    obtain ⟨_, digest, _, hdigest⟩ := hacceptable.completed hstage
    rw [hdigest]
    rfl

end Reducer

/-- The reducer applies the confirmation of every accepted record but the refusal of a completed
effect, and every confirmation that it applies has an accepted record. -/
theorem confirmation_records_agree :
    (∀ value, Encoding.WellFormed value → validateConfirmationRecord value = .ok () →
      ∃ confirmation : EndpointConfirmation, value = confirmation.record ∧
        ∀ (logicalMessageId : FixedBytes 16) (session : AuthorizedSession),
          session.authenticated → session.senderAuthorized →
          session.senderEndpoint = session.expectedSenderEndpoint →
          logicalMessageId ∈ confirmation.confirmedMessageIds →
          ((∃ next, applyEndpointConfirmation .pending logicalMessageId confirmation session
              confirmation.resultDigest true = .ok next) ↔
            ¬(confirmation.stage = .effectCompleted ∧ confirmation.outcome ≠ .succeeded)) ∧
          (confirmation.stage = .effectCompleted ∧ confirmation.outcome ≠ .succeeded →
            applyEndpointConfirmation .pending logicalMessageId confirmation session
              confirmation.resultDigest true = .error (.validation .invalidTransition))) ∧
    ∀ current logicalMessageId confirmation session expectedResultDigest attachmentComplete next,
      applyEndpointConfirmation current logicalMessageId confirmation session expectedResultDigest
        attachmentComplete = .ok next →
      validateConfirmationRecord confirmation.record = .ok () := by
  constructor
  · intro value hwell hvalid
    obtain ⟨confirmation, rfl, h⟩ := (validate_record_iff hwell).mp hvalid
    refine ⟨confirmation, rfl, fun logicalMessageId session hauthenticated hauthorized hexpected
      hlisted => ?_⟩
    have hsender : (confirmation.report session).Authorized logicalMessageId :=
      ⟨hauthenticated, hauthorized, hexpected, hlisted⟩
    refine ⟨?_, h.refused hsender⟩
    change (∃ next, (confirmation.report session).apply logicalMessageId .pending = .ok next) ↔
      ¬confirmation.RefusesEffect
    rw [← h.acceptable_iff hsender, ← Report.valid_iff, Report.valid]
    cases (confirmation.report session).apply logicalMessageId .pending with
    | ok next => exact iff_of_true ⟨next, rfl⟩ rfl
    | error fault => exact iff_of_false (by rintro ⟨_, ⟨⟩⟩) (by rintro ⟨⟩)
  · intro current logicalMessageId confirmation session expectedResultDigest attachmentComplete next
      happly
    have h := @representable_of_apply logicalMessageId
      ⟨confirmation, session, expectedResultDigest, attachmentComplete⟩ current next happly
    exact (validate_record_iff confirmation.record_wellFormed).mpr ⟨confirmation, rfl, h⟩

/-- A failure that names the completed effect as its stage. -/
def failedEffect : EndpointConfirmation :=
  { confirmationId := .replicate 16 5, confirmedMessageIds := [.replicate 16 1],
    stage := .effectCompleted, outcome := .failed, failureCode := some 3, resultDigest := none }

def sampleSession : AuthorizedSession :=
  { sessionId := .replicate 16 0, senderEndpoint := .replicate 32 4,
    expectedSenderEndpoint := .replicate 32 4, authenticated := true, senderAuthorized := true }

theorem failed_effect_disagrees : ∃ (confirmation : EndpointConfirmation)
    (session : AuthorizedSession) (logicalMessageId : FixedBytes 16),
    Encoding.WellFormed confirmation.record ∧
    validateConfirmationRecord confirmation.record = .ok () ∧
    session.authenticated ∧ session.senderAuthorized ∧
    session.senderEndpoint = session.expectedSenderEndpoint ∧
    logicalMessageId ∈ confirmation.confirmedMessageIds ∧
    ∀ next, applyEndpointConfirmation .pending logicalMessageId confirmation session
      confirmation.resultDigest true ≠ .ok next := by
  have h : failedEffect.Representable := ⟨by decide, by decide, by decide, by decide⟩
  have hwell := failedEffect.record_wellFormed
  refine ⟨failedEffect, sampleSession, .replicate 16 1, hwell,
    (validate_record_iff hwell).mpr ⟨_, rfl, h⟩, rfl, rfl, rfl, List.mem_singleton_self _, ?_⟩
  intro next hnext
  have hrefused := @Representable.refused _ (.replicate 16 1) sampleSession h
    ⟨rfl, rfl, rfl, List.mem_singleton_self _⟩ ⟨rfl, by decide⟩
  cases hnext.symm.trans hrefused

end EndpointConfirmation

end LicoArc
