import LicoArc.CallCounts
import LicoArc.RatchetLaws

/-!
# Bounds on the skipped keys

Whatever its peer sends, a ratchet state retains a bounded number of message
keys, derives a bounded number of them for one record, and accepts no
coordinate twice while its peer does not return to an earlier public key.
-/

namespace LicoArc

/-- The chain key `count` message steps after number `number`. -/
def advanceChain (provider : Provider) : (count number : Nat) → Secret → Except Error Secret
  | 0, _, chain => .ok chain
  | count + 1, number, chain => do
    let step ← messageStep provider chain number
    advanceChain provider count (number + 1) step.next

theorem retainSkipped_spec {provider : Provider} {dh : FixedBytes 32} {count : Nat} :
    ∀ {number : Nat} {chain last : Secret} {skipped retained : SkippedKeys},
      retainSkipped provider dh count number chain skipped = .ok (last, retained) →
      advanceChain provider count number chain = .ok last ∧
      retained.size ≤ skipped.size + count ∧
      (∀ coordinate, (∀ k, number ≤ k → k < number + count → coordinate ≠ (dh, k)) →
        retained[coordinate]? = skipped[coordinate]?) ∧
      ∀ k, number ≤ k → k < number + count → (dh, k) ∈ retained := by
  induction count with
  | zero =>
    intro number chain last skipped retained h
    cases h
    exact ⟨rfl, le_rfl, fun _ _ => rfl, fun k hk hlt => by omega⟩
  | succ count ih =>
    intro number chain last skipped retained h
    obtain ⟨step, hstep, h⟩ := Except.bind_eq_ok.mp h
    obtain ⟨hlast, hsize, hother, hkept⟩ := ih h
    refine ⟨by rw [advanceChain, hstep]; exact hlast, ?_, ?_, ?_⟩
    · have hinsert : (skipped.insert (dh, number) (step.key, step.nonce)).size ≤
          skipped.size + 1 := Std.ExtTreeMap.size_insert_le
      omega
    · intro coordinate hne
      rw [hother coordinate fun k hk hlt => hne k (by omega) (by omega),
        Std.ExtTreeMap.getElem?_insert, if_neg]
      intro heq
      exact hne number le_rfl (by omega) (Std.LawfulEqCmp.eq_of_compare heq).symm
    · intro k hk hlt
      rcases Nat.eq_or_lt_of_le hk with rfl | hk
      · have hkeep := hother (dh, number) fun k' hk' _ heq => by
          have hnumber := congrArg Prod.snd heq
          simp only at hnumber
          omega
        rw [Std.ExtTreeMap.mem_iff_isSome_getElem?, hkeep]
        simp
      · exact hkept k (by omega) (by omega)

/-- The coordinates that the skip loop retains are those it had and those it passes. -/
theorem mem_retainSkipped {provider : Provider} {dh : FixedBytes 32} {count number : Nat}
    {chain last : Secret} {skipped retained : SkippedKeys} {coordinate : Coordinate}
    (h : retainSkipped provider dh count number chain skipped = .ok (last, retained)) :
    coordinate ∈ retained ↔ coordinate ∈ skipped ∨
      coordinate.1 = dh ∧ number ≤ coordinate.2 ∧ coordinate.2 < number + count := by
  obtain ⟨_, _, hother, hkept⟩ := retainSkipped_spec h
  by_cases hpassed : coordinate.1 = dh ∧ number ≤ coordinate.2 ∧ coordinate.2 < number + count
  · obtain ⟨rfl, hlow, hhigh⟩ := hpassed
    exact iff_of_true (hkept coordinate.2 hlow hhigh) (.inr ⟨rfl, hlow, hhigh⟩)
  · rw [or_iff_left hpassed, Std.ExtTreeMap.mem_iff_isSome_getElem?,
      Std.ExtTreeMap.mem_iff_isSome_getElem?, hother]
    intro k hlow hhigh heq
    subst heq
    exact hpassed ⟨rfl, hlow, hhigh⟩

namespace RatchetState

variable {provider : Provider} {state next : RatchetState}

theorem mem_retainPrevious {distance : Nat} {skipped : SkippedKeys}
    (h : state.retainPrevious provider distance = .ok skipped) {coordinate : Coordinate} :
    coordinate ∈ skipped ↔ coordinate ∈ state.skipped ∨ coordinate.1 = state.peerPublic ∧
      state.nr ≤ coordinate.2 ∧ coordinate.2 < state.nr + distance := by
  rw [retainPrevious] at h
  split_ifs at h with hzero
  · simp only [Except.bind_eq_ok, Prod.exists, Except.pure_eq, Except.ok.injEq] at h
    obtain ⟨chain, _, last, retained, hretained, rfl⟩ := h
    exact mem_retainSkipped hretained
  · cases h
    have hdistance : distance = 0 := not_not.mp hzero
    rw [or_iff_left]
    omega

theorem retainPrevious_size {distance : Nat} {skipped : SkippedKeys}
    (h : state.retainPrevious provider distance = .ok skipped) :
    skipped.size ≤ state.skipped.size + distance := by
  rw [retainPrevious] at h
  split_ifs at h with hzero
  · simp only [Except.bind_eq_ok, Prod.exists, Except.pure_eq, Except.ok.injEq] at h
    obtain ⟨chain, _, last, retained, hretained, rfl⟩ := h
    exact (retainSkipped_spec hretained).2.1
  · cases h
    exact Nat.le_add_right _ _

theorem size_erase_le (skipped : SkippedKeys) (coordinate : Coordinate) :
    (skipped.erase coordinate).size ≤ skipped.size := by
  rw [Std.ExtTreeMap.size_erase]
  split <;> omega

variable {m : Type → Type} [Monad m] (o : Outcomes m) {custody : KeyCustody m}

/-! ## One operation -/

theorem receiveDhTransition_spec {header : RatchetHeader}
    {fresh : Option (StagedSecretHandle .x25519Private)}
    (h : o.mayOk (state.receiveDhTransition provider custody header fresh) next) :
    next.peerPublic = header.dh ∧ next.nr = 0 ∧
      (state.skipped.size ≤ maxSkippedKeys → next.skipped.size ≤ maxSkippedKeys) ∧
      ∀ coordinate, coordinate ∈ next.skipped → coordinate ∈ state.skipped ∨
        coordinate.1 = state.peerPublic ∧ state.nr ≤ coordinate.2 := by
  obtain ⟨_, _, _, _, _, _, _, _, hroom, hskipped, rfl⟩ := receiveDhTransition_next o h
  refine ⟨rfl, rfl, fun _ => (retainPrevious_size hskipped).trans hroom, ?_⟩
  intro coordinate hmem
  rcases (mem_retainPrevious hskipped).mp hmem with hold | ⟨hpeer, hlow, _⟩
  · exact .inl hold
  · exact .inr ⟨hpeer, hlow⟩

theorem receiveInChain_spec {header : RatchetHeader} {headerBytes body plaintext : Bytes}
    (hnr : state.nr ≤ header.n)
    (h : state.receiveInChain provider header headerBytes body = .ok (next, plaintext)) :
    next.peerPublic = state.peerPublic ∧ next.nr = header.n + 1 ∧
      next.skipped.size ≤ maxSkippedKeys ∧
      ∀ coordinate, coordinate ∈ next.skipped ↔ coordinate ∈ state.skipped ∨
        coordinate.1 = header.dh ∧ state.nr ≤ coordinate.2 ∧ coordinate.2 < header.n := by
  obtain ⟨_, hroom, _, _, _, skipped, _, _, hretain, _, _, rfl⟩ := (receiveInChain_of_le hnr).mp h
  have hsize := (retainSkipped_spec hretain).2.1
  refine ⟨rfl, rfl, hsize.trans hroom, fun coordinate => ?_⟩
  have hsum : state.nr + (header.n - state.nr) = header.n := Nat.add_sub_of_le hnr
  rw [mem_retainSkipped hretain, hsum]

end RatchetState

end LicoArc
