import LicoArc.Messaging

/-!
# Updates of a receive state

A receiver may miss updates of an attachment and see others twice. What it
accepts one after another it accepts at once.
-/

namespace LicoArc

open Messaging

namespace ReceiveState

def validateSuccessor (self next : ReceiveState) (completionVerified : Bool) :
    Except Error Unit := do
  self.validate
  next.validate
  reject (self.attachmentId ≠ next.attachmentId ∨ next.stateUpdate < self.stateUpdate ∨
    next.recoveryRound < self.recoveryRound) (.validation .invalidTransition)
  if next.stateUpdate = self.stateUpdate then
    reject (self ≠ next) (.validation .conflict)
  else
    reject (self.outcome ≠ .pending ∨ (next.outcome = .complete ∧ ¬completionVerified))
      (.validation .invalidTransition)

/-- A later update of a pending state. -/
structure Updates (state next : ReceiveState) (completionVerified : Bool) : Prop where
  attachment : state.attachmentId = next.attachmentId
  update : state.stateUpdate < next.stateUpdate
  round : state.recoveryRound ≤ next.recoveryRound
  pending : state.outcome = .pending
  verified : next.outcome = .complete → completionVerified

variable {state next last : ReceiveState} {verified verified' : Bool}

theorem validateSuccessor_eq_ok : state.validateSuccessor next verified = .ok () ↔
    state.validate = .ok () ∧ next.validate = .ok () ∧
      (next = state ∨ state.Updates next verified) := by
  simp only [validateSuccessor, Except.bind_eq_ok, reject_eq_ok, exists_const, not_or, not_not,
    not_lt]
  constructor
  · rintro ⟨_, hstate, _, hnext, ⟨hattachment, hupdate, hround⟩, hmoves⟩
    refine ⟨hstate, hnext, ?_⟩
    split_ifs at hmoves with hsame
    · exact .inl (not_not.mp (reject_eq_ok.mp hmoves)).symm
    · obtain ⟨hpending, hverified⟩ := not_or.mp (reject_eq_ok.mp hmoves)
      refine .inr ⟨hattachment, lt_of_le_of_ne hupdate (Ne.symm hsame), hround,
        not_not.mp hpending, fun hcomplete => ?_⟩
      exact not_not.mp fun hunverified => hverified ⟨hcomplete, hunverified⟩
  · rintro ⟨hstate, hnext, rfl | h⟩
    · refine ⟨(), hstate, (), hnext, ⟨rfl, le_rfl, le_rfl⟩, ?_⟩
      rw [if_pos rfl]
      exact reject_of_not _ (not_not.mpr rfl)
    · refine ⟨(), hstate, (), hnext, ⟨h.attachment, h.update.le, h.round⟩, ?_⟩
      rw [if_neg h.update.ne']
      refine reject_of_not _ (not_or.mpr ⟨not_not.mpr h.pending, ?_⟩)
      rintro ⟨hcomplete, hunverified⟩
      exact hunverified (h.verified hcomplete)

theorem Updates.trans (h : state.Updates next verified) (h' : next.Updates last verified') :
    state.Updates last (verified || verified') where
  attachment := h.attachment.trans h'.attachment
  update := h.update.trans h'.update
  round := h.round.trans h'.round
  pending := h.pending
  verified hcomplete := by rw [h'.verified hcomplete, Bool.or_true]

theorem Updates.weaken (h : state.Updates next verified) (himp : verified → verified') :
    state.Updates next verified' :=
  ⟨h.attachment, h.update, h.round, h.pending, fun hcomplete => himp (h.verified hcomplete)⟩

theorem validateSuccessor_self (h : state.validate = .ok ()) :
    state.validateSuccessor state verified = .ok () :=
  validateSuccessor_eq_ok.mpr ⟨h, h, .inl rfl⟩

/-- A receiver that misses an update accepts the one after it. -/
theorem validateSuccessor_trans (h : state.validateSuccessor next verified = .ok ())
    (h' : next.validateSuccessor last verified' = .ok ()) :
    state.validateSuccessor last (verified || verified') = .ok () := by
  obtain ⟨hstate, _, hfirst⟩ := validateSuccessor_eq_ok.mp h
  obtain ⟨_, hlast, hsecond⟩ := validateSuccessor_eq_ok.mp h'
  refine validateSuccessor_eq_ok.mpr ⟨hstate, hlast, ?_⟩
  rcases hfirst with rfl | hfirst
  · rcases hsecond with rfl | hsecond
    · exact .inl rfl
    · exact .inr (hsecond.weaken fun hverified => by rw [hverified, Bool.or_true])
  · rcases hsecond with rfl | hsecond
    · exact .inr (hfirst.weaken fun hverified => by rw [hverified, Bool.true_or])
    · exact .inr (hfirst.trans hsecond)

def Accepts (state next : ReceiveState) : Prop :=
  ∃ completionVerified, state.validateSuccessor next completionVerified = .ok ()

instance : IsTrans ReceiveState Accepts where
  trans _ _ _ := fun ⟨_, h⟩ ⟨_, h'⟩ => ⟨_, validateSuccessor_trans h h'⟩

/-- What the states of a run have in common with each later one. -/
structure Precedes (state next : ReceiveState) : Prop where
  attachment : next.attachmentId = state.attachmentId
  update : state.stateUpdate ≤ next.stateUpdate
  round : state.recoveryRound ≤ next.recoveryRound
  same : next.stateUpdate = state.stateUpdate → next = state
  terminal : state.outcome ≠ .pending → next = state

theorem Accepts.precedes (h : state.Accepts next) : state.Precedes next := by
  obtain ⟨verified, h⟩ := h
  obtain ⟨_, _, rfl | hupdates⟩ := validateSuccessor_eq_ok.mp h
  · exact ⟨rfl, le_rfl, le_rfl, fun _ => rfl, fun _ => rfl⟩
  · exact ⟨hupdates.attachment.symm, hupdates.update.le, hupdates.round,
      fun hsame => absurd hsame hupdates.update.ne',
      fun hterminal => absurd hupdates.pending hterminal⟩

/-- A successor is an exact copy or a later update, and a copy of a valid state always is one.
Succession is transitive, and along every accepted run the attachment is fixed, the counters do not
fall, an update names one state and a terminal state is only copied. -/
theorem succession_tolerates :
    (∀ (a b : ReceiveState) (f : Bool), a.validateSuccessor b f = .ok () ↔
      a.validate = .ok () ∧ b.validate = .ok () ∧ (b = a ∨ a.Updates b f)) ∧
    (∀ (a : ReceiveState) (f : Bool), a.validate = .ok () → a.validateSuccessor a f = .ok ()) ∧
    (∀ (a b c : ReceiveState) (f g : Bool), a.validateSuccessor b f = .ok () →
      b.validateSuccessor c g = .ok () → a.validateSuccessor c (f || g) = .ok ()) ∧
    ∀ states : List ReceiveState, states.IsChain Accepts →
      states.Pairwise fun earlier later =>
        later.attachmentId = earlier.attachmentId ∧
        earlier.stateUpdate ≤ later.stateUpdate ∧ earlier.recoveryRound ≤ later.recoveryRound ∧
        (later.stateUpdate = earlier.stateUpdate → later = earlier) ∧
        (earlier.outcome = .complete ∨ earlier.outcome = .cancelled ∨ earlier.outcome = .failed →
          later = earlier) := by
  refine ⟨fun _ _ _ => validateSuccessor_eq_ok, fun _ _ h => validateSuccessor_self h,
    fun a b c f g hab hbc => validateSuccessor_trans hab hbc, fun states hchain => ?_⟩
  refine (List.isChain_iff_pairwise.mp hchain).imp fun haccepts => ?_
  obtain ⟨hattachment, hupdate, hround, hsame, hterminal⟩ := haccepts.precedes
  refine ⟨hattachment, hupdate, hround, hsame, fun houtcome => hterminal ?_⟩
  rcases houtcome with houtcome | houtcome | houtcome <;> rw [houtcome] <;> decide

def sample (update : Nat) (outcome : ReceiveOutcome) : ReceiveState :=
  ⟨.zero 16, if outcome = .complete then [] else [⟨0, 2⟩], update, outcome, none, 0⟩

/-- An update, a copy of it, a later one, the completion and its copy. -/
theorem succession_tolerates_run :
    [sample 1 .pending, sample 1 .pending, sample 3 .pending, sample 4 .complete,
      sample 4 .complete].Pairwise fun earlier later =>
        later.attachmentId = earlier.attachmentId ∧
        earlier.stateUpdate ≤ later.stateUpdate ∧ earlier.recoveryRound ≤ later.recoveryRound ∧
        (later.stateUpdate = earlier.stateUpdate → later = earlier) ∧
        (earlier.outcome = .complete ∨ earlier.outcome = .cancelled ∨ earlier.outcome = .failed →
          later = earlier) := by
  obtain ⟨_, hcopy, _, hrun⟩ := succession_tolerates
  refine hrun _ ?_
  exact .cons_cons ⟨true, hcopy _ _ (by decide)⟩ (.cons_cons ⟨true, by decide⟩
    (.cons_cons ⟨true, by decide⟩ (.cons_cons ⟨true, hcopy _ _ (by decide)⟩ (.singleton _))))

end ReceiveState

end LicoArc
