import Mathlib

/-!
# Membership with revocation

The life of one member of a list: it is admitted with evidence, may renew the
evidence, and may be revoked. A revoked entry stays as it is until it is
dropped, and a dropped member may be admitted again. What is fresh in a step is
a parameter.
-/

namespace LicoArc

inductive Listing (ε : Type)
  | absent
  | active (evidence : ε)
  | revoked (evidence : ε)

namespace Listing

variable {ε : Type}

inductive Move (fresh : ε → Prop) : Listing ε → Listing ε → Prop
  | stay : Move fresh absent absent
  | enlist (e : ε) : fresh e → Move fresh absent (active e)
  | keep (e : ε) : Move fresh (active e) (active e)
  | renew (e e' : ε) : fresh e' → Move fresh (active e) (active e')
  | revoke (e : ε) : Move fresh (active e) (revoked e)
  | frozen (e : ε) : Move fresh (revoked e) (revoked e)
  | drop (e : ε) : Move fresh (revoked e) absent

theorem Move.mono {fresh fresh' : ε → Prop} {before after : Listing ε} (h : Move fresh before after)
    (himp : ∀ e, fresh e → fresh' e) : Move fresh' before after := by
  cases h with
  | stay => exact .stay
  | enlist e hfresh => exact .enlist e (himp e hfresh)
  | keep e => exact .keep e
  | renew e e' hfresh => exact .renew e e' (himp e' hfresh)
  | revoke e => exact .revoke e
  | frozen e => exact .frozen e
  | drop e => exact .drop e

/-- A history of one member: nobody is listed before the first state. -/
structure History (fresh : Nat → ε → Prop) (listing : Nat → Listing ε) (last : Nat) : Prop where
  start : Move (fresh 0) absent (listing 0)
  step : ∀ i < last, Move (fresh (i + 1)) (listing i) (listing (i + 1))

def Lists (e : ε) (entry : Listing ε) : Prop := entry = active e ∨ entry = revoked e

variable {fresh : Nat → ε → Prop} {listing : Nat → Listing ε} {last : Nat} {e : ε}

theorem History.admitted_since (h : History fresh listing last) {i j : Nat} (hij : i ≤ j)
    (hj : j ≤ last) (hi : listing i = absent ∨ ∃ e, listing i = active e ∧ fresh i e)
    (he : Lists e (listing j)) : ∃ k, i ≤ k ∧ k ≤ j ∧ fresh k e ∧ listing k = active e := by
  induction j, hij using Nat.le_induction generalizing e with
  | base =>
    rcases hi with hi | ⟨e', hi, hfresh⟩
    · rcases he with he | he <;> cases hi.symm.trans he
    · rcases he with he | he
      · cases hi.symm.trans he
        exact ⟨i, le_rfl, le_rfl, hfresh, hi⟩
      · cases hi.symm.trans he
  | succ j hij ih =>
    have hearlier : Lists e (listing j) →
        ∃ k, i ≤ k ∧ k ≤ j + 1 ∧ fresh k e ∧ listing k = active e := fun hlists => by
      obtain ⟨k, hik, hkj, hk⟩ := ih (by omega) hlists
      exact ⟨k, hik, by omega, hk⟩
    have hmove := h.step j (by omega)
    generalize hbefore : listing j = before at hmove hearlier
    generalize hafter : listing (j + 1) = after at hmove he
    cases hmove with
    | stay => rcases he with he | he <;> cases he
    | enlist e' hfresh | renew _ e' hfresh =>
      rcases he with he | he <;> cases he
      exact ⟨j + 1, by omega, le_rfl, hfresh, hafter⟩
    | keep e' | frozen e' => exact hearlier he
    | revoke e' =>
      rcases he with he | he <;> cases he
      exact hearlier (.inl rfl)
    | drop e' => rcases he with he | he <;> cases he

theorem History.admitted (h : History fresh listing last) {i : Nat} (hi : i ≤ last)
    (he : Lists e (listing i)) : ∃ k ≤ i, fresh k e ∧ listing k = active e := by
  have hstart : listing 0 = absent ∨ ∃ e, listing 0 = active e ∧ fresh 0 e := by
    have hmove := h.start
    generalize listing 0 = first at hmove
    cases hmove with
    | stay => exact .inl rfl
    | enlist e hfresh => exact .inr ⟨e, rfl, hfresh⟩
  obtain ⟨k, _, hk⟩ := h.admitted_since (Nat.zero_le i) hi hstart he
  exact ⟨k, hk⟩

theorem History.frozen_until (h : History fresh listing last) {i j : Nat} (hij : i ≤ j)
    (hj : j ≤ last) (hi : listing i = revoked e) :
    listing j = revoked e ∨ ∃ k, i < k ∧ k ≤ j ∧ listing k = absent := by
  induction j, hij using Nat.le_induction with
  | base => exact .inl hi
  | succ j hij ih =>
    rcases ih (by omega) with hrevoked | ⟨k, hik, hkj, hk⟩
    · have hmove := h.step j (by omega)
      rw [hrevoked] at hmove
      generalize hafter : listing (j + 1) = after at hmove
      cases hmove with
      | frozen => exact .inl rfl
      | drop => exact .inr ⟨j + 1, by omega, le_rfl, hafter⟩
    · exact .inr ⟨k, hik, by omega, hk⟩

/-- After its revocation a member is active only where it was dropped and admitted anew. -/
theorem History.readmitted (h : History fresh listing last) {i j : Nat} (hij : i ≤ j)
    (hj : j ≤ last) {e' : ε} (hi : listing i = revoked e) (hactive : listing j = active e') :
    ∃ dropped admitted, i < dropped ∧ dropped < admitted ∧ admitted ≤ j ∧
      listing dropped = absent ∧ fresh admitted e' ∧ listing admitted = active e' := by
  rcases h.frozen_until hij hj hi with hrevoked | ⟨k, hik, hkj, hk⟩
  · cases hactive.symm.trans hrevoked
  · obtain ⟨m, hkm, hmj, hfresh, hm⟩ := h.admitted_since hkj hj (.inl hk) (.inl hactive)
    refine ⟨k, m, hik, lt_of_le_of_ne hkm ?_, hmj, hk, hfresh, hm⟩
    rintro rfl
    cases hk.symm.trans hm

end Listing

end LicoArc
