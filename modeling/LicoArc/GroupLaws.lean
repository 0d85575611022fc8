import LicoArc.EncodingLaws
import LicoArc.Group
import LicoArc.TableProvider

/-!
# The history under a group digest

A state names the digest of its predecessor and the record of the operation
that made it, so that its own digest fixes everything before it.
-/

namespace LicoArc

open Encoding LicoArc.Group

namespace GroupState

/-! ## Encoded values -/

def value (self : GroupState) : CborValue :=
  .map <| [(0, .bytes self.groupId.toList), (1, .unsigned self.epoch)] ++
    (match self.previousDigest with
      | some previous => [(2, CborValue.bytes previous.toList)]
      | none => []) ++
    [(3, .array (self.members.map memberValue)), (4, .bytes self.transitionDigest.toList)]

def transitionValue (self : GroupState) (previousDigest author : FixedBytes 32)
    (operationRecord : CborValue) : CborValue :=
  .map [(0, .bytes self.groupId.toList), (1, .bytes previousDigest.toList),
    (2, .unsigned (self.epoch + 1)), (3, .bytes author.toList), (4, operationRecord)]

def operationRecord : GroupOperation → CborValue
  | .add member => .map [(0, .unsigned 1), (1, .bytes member.endpoint.toList),
      (2, .unsigned (roleValue member.role))]
  | .remove endpoint => .map [(0, .unsigned 2), (1, .bytes endpoint.toList)]
  | .changeRole endpoint role => .map [(0, .unsigned 3), (1, .bytes endpoint.toList),
      (2, .unsigned (roleValue role))]

theorem applyOperation_record {members members' : List Member} {operation : GroupOperation}
    {record : CborValue} (h : applyOperation members operation = .ok (members', record)) :
    record = operationRecord operation := by
  cases operation with
  | add member =>
    simp only [applyOperation, Except.bind_eq_ok, Except.pure_eq, Except.ok.injEq,
      Prod.mk.injEq] at h
    obtain ⟨_, _, _, rfl⟩ := h
    rfl
  | remove endpoint =>
    simp only [applyOperation, Except.bind_eq_ok, Except.pure_eq, Except.ok.injEq,
      Prod.mk.injEq] at h
    obtain ⟨_, _, _, rfl⟩ := h
    rfl
  | changeRole endpoint role =>
    simp only [applyOperation, Except.bind_eq_ok, Except.pure_eq, Except.ok.injEq,
      Prod.mk.injEq] at h
    obtain ⟨_, _, _, _, _, rfl⟩ := h
    rfl

theorem roleValue_injective {role role' : MemberRole} (h : roleValue role = roleValue role') :
    role = role' := by
  cases role <;> cases role' <;> first | rfl | cases h

theorem memberValue_injective : Function.Injective memberValue := by
  intro member member' h
  simp only [memberValue, CborValue.map.injEq, List.cons.injEq, Prod.mk.injEq,
    CborValue.bytes.injEq, CborValue.unsigned.injEq, true_and, and_true] at h
  obtain ⟨hendpoint, hrole⟩ := h
  cases member
  cases member'
  cases FixedBytes.toList_injective hendpoint
  cases roleValue_injective hrole
  rfl

theorem value_injective : Function.Injective value := by
  intro state state' h
  obtain ⟨groupId, epoch, previous, members, transition⟩ := state
  obtain ⟨groupId', epoch', previous', members', transition'⟩ := state'
  cases previous <;> cases previous' <;>
    simp only [value, List.cons_append, List.nil_append, CborValue.map.injEq, List.cons.injEq,
      Prod.mk.injEq, CborValue.bytes.injEq, CborValue.unsigned.injEq, CborValue.array.injEq,
      FixedBytes.toList_injective.eq_iff, memberValue_injective.list_map.eq_iff, true_and,
      and_true, reduceCtorEq, and_false, Nat.reduceEqDiff] at h
  · obtain ⟨rfl, rfl, rfl, rfl⟩ := h
    rfl
  · obtain ⟨rfl, rfl, rfl, rfl, rfl⟩ := h
    rfl

theorem operationRecord_injective : Function.Injective operationRecord := by
  intro operation operation' h
  cases operation with
  | add member =>
    cases operation' with
    | add member' =>
      simp only [operationRecord, CborValue.map.injEq, List.cons.injEq, Prod.mk.injEq,
        CborValue.bytes.injEq, CborValue.unsigned.injEq, true_and, and_true] at h
      cases member
      cases member'
      cases FixedBytes.toList_injective h.1
      cases roleValue_injective h.2
      rfl
    | remove => simp [operationRecord] at h
    | changeRole => simp [operationRecord] at h
  | remove endpoint =>
    cases operation' with
    | remove endpoint' =>
      simp only [operationRecord, CborValue.map.injEq, List.cons.injEq, Prod.mk.injEq,
        CborValue.bytes.injEq, true_and, and_true] at h
      rw [FixedBytes.toList_injective h]
    | add => simp [operationRecord] at h
    | changeRole => simp [operationRecord] at h
  | changeRole endpoint role =>
    cases operation' with
    | changeRole endpoint' role' =>
      simp only [operationRecord, CborValue.map.injEq, List.cons.injEq, Prod.mk.injEq,
        CborValue.bytes.injEq, CborValue.unsigned.injEq, true_and, and_true] at h
      rw [FixedBytes.toList_injective h.1, roleValue_injective h.2]
    | add => simp [operationRecord] at h
    | remove => simp [operationRecord] at h

theorem value_wellFormed (self : GroupState) : WellFormed self.value := by
  have hmembers : WellFormed (.array (self.members.map memberValue)) := by
    refine wellFormedItems_iff.mpr fun value hvalue => ?_
    obtain ⟨member, _, rfl⟩ := List.mem_map.mp hvalue
    simp [memberValue, WellFormed, WellFormedEntries]
  rw [value]
  cases self.previousDigest <;>
    simpa [WellFormed, WellFormedEntries] using hmembers

theorem operationRecord_wellFormed (operation : GroupOperation) :
    WellFormed (operationRecord operation) := by
  cases operation <;> simp [operationRecord, WellFormed, WellFormedEntries]

theorem transitionValue_wellFormed (self : GroupState) (previousDigest author : FixedBytes 32)
    (operation : GroupOperation) :
    WellFormed (self.transitionValue previousDigest author (operationRecord operation)) := by
  simp [transitionValue, WellFormed, WellFormedEntries, operationRecord_wellFormed]

/-! ## Totality of the digest -/

theorem collectionEncodedLength_members (members : List Member) (start : Nat) :
    collectionEncodedLength 1 start (members.map memberValue) =
      .ok (start + 38 * members.length) := by
  induction members generalizing start with
  | nil => rfl
  | cons member members ih =>
    have hmember : encodedLength 2 (memberValue member) = .ok 38 := by
      have hcount : 2 ≤ maxCollectionItems := by decide
      refine encodedLength_map (by decide) hcount ?_ (by decide)
      refine entriesEncodedLength_cons (by decide)
        (encodedLength_bytes (by decide) (by simp [maxRawBytes])) ?_
      refine entriesEncodedLength_cons (by decide)
        (encodedLength_unsigned (by decide) (by cases member.role <;> decide)) ?_
      cases member.role <;> simp [entriesEncodedLength, headLength, roleValue]
    rw [List.map_cons, collectionEncodedLength_cons hmember (ih _), List.length_cons]
    congr 1
    omega

theorem headLength_le (value : Nat) : headLength value ≤ 9 := by
  simp only [headLength]
  split_ifs <;> omega

theorem validate_eq_ok {self : GroupState} {u : Unit} : self.validate = .ok u ↔
    self.members ≠ [] ∧ self.members.length ≤ maxGroupMembers ∧ self.epoch ≤ maxEpoch ∧
    (self.epoch = 0 ↔ self.previousDigest = none) ∧
    (self.members.map fun member => member.endpoint.toList).IsChain (· < ·) ∧
    ∃ member ∈ self.members, member.role = .stateAuthority := by
  simp only [validate, Except.bind_eq_ok, reject_eq_ok, not_or, not_not, exists_const, not_lt,
    gt_iff_lt, ne_eq, and_assoc]
  cases self.previousDigest <;> simp

theorem encode_value {self : GroupState} (h : self.validate = .ok ()) :
    ∃ encoded, encode self.value = .ok encoded := by
  obtain ⟨_, hmembers, hepoch, _⟩ := validate_eq_ok.mp h
  suffices hlength : ∃ length, encodedLength 0 self.value = .ok length from
    ⟨_, encode_eq_ok.mpr ⟨hlength, rfl⟩⟩
  have hdigest (digest : FixedBytes 32) :
      encodedLength 1 (.bytes digest.toList) = .ok 34 :=
    (encodedLength_bytes (by decide) (by simp [maxRawBytes])).trans (by simp [headLength])
  have hnumber := encodedLength_unsigned (show 1 ≤ maxDepth by decide) hepoch
  have harray : encodedLength 1 (.array (self.members.map memberValue)) =
      .ok (headLength self.members.length + 38 * self.members.length) := by
    refine encodedLength_array (by decide) ((List.length_map _).trans_le hmembers) ?_ ?_
    · rw [List.length_map]
      exact collectionEncodedLength_members _ _
    · have hhead := headLength_le self.members.length
      simp only [maxGroupMembers] at hmembers
      simp only [maxEncodedBytes]
      omega
  have htotal : ∀ start ≤ 200, start + headLength self.epoch +
      (headLength self.members.length + 38 * self.members.length) ≤ maxEncodedBytes := by
    intro start hstart
    have hhead := headLength_le self.members.length
    have hhead' := headLength_le self.epoch
    simp only [maxGroupMembers] at hmembers
    simp only [maxEncodedBytes]
    omega
  rw [value]
  cases self.previousDigest with
  | none =>
    refine ⟨_, encodedLength_map (by decide) (by simp [maxCollectionItems])
      (entriesEncodedLength_cons (by decide) (hdigest _)
        (entriesEncodedLength_cons (by decide) hnumber
          (entriesEncodedLength_cons (by decide) harray
            (entriesEncodedLength_cons (by decide) (hdigest _) rfl)))) ?_⟩
    have hbound := htotal 73 (by decide)
    change 1 + 1 + 34 + 1 + headLength self.epoch + 1 +
      (headLength self.members.length + 38 * self.members.length) + 1 + 34 ≤ maxEncodedBytes
    omega
  | some previous =>
    refine ⟨_, encodedLength_map (by decide) (by simp [maxCollectionItems])
      (entriesEncodedLength_cons (by decide) (hdigest _)
        (entriesEncodedLength_cons (by decide) hnumber
          (entriesEncodedLength_cons (by decide) (hdigest _)
            (entriesEncodedLength_cons (by decide) harray
              (entriesEncodedLength_cons (by decide) (hdigest _) rfl))))) ?_⟩
    have hbound := htotal 108 (by decide)
    change 1 + 1 + 34 + 1 + headLength self.epoch + 1 + 34 + 1 +
      (headLength self.members.length + 38 * self.members.length) + 1 + 34 ≤ maxEncodedBytes
    omega

/-! ## Digests and transitions -/

theorem digest_eq_ok {provider : Provider} {self : GroupState} {digest : FixedBytes 32} :
    self.digest provider = .ok digest ↔
      self.validate = .ok () ∧ ∃ encoded, encode self.value = .ok encoded ∧
        digest = provider.sha256 (dGroupState ++ encoded) := by
  change (self.validate >>= fun _ => encode self.value >>= fun encoded =>
    pure (provider.sha256 (dGroupState ++ encoded))) = .ok digest ↔ _
  simp only [Except.bind_eq_ok, Except.pure_eq, Except.ok.injEq, eq_comm (a := digest)]
  constructor
  · rintro ⟨_, hvalid, h⟩
    exact ⟨hvalid, h⟩
  · rintro ⟨hvalid, h⟩
    exact ⟨(), hvalid, h⟩

theorem digest_total (provider : Provider) {self : GroupState} (h : self.validate = .ok ()) :
    ∃ digest, self.digest provider = .ok digest := by
  obtain ⟨encoded, hencoded⟩ := encode_value h
  exact ⟨_, digest_eq_ok.mpr ⟨h, encoded, hencoded, rfl⟩⟩

/-- A transition links the next state to its predecessor and to the record of the operation. -/
theorem applyTransition_eq_ok {provider : Provider} {self next : GroupState}
    {author : FixedBytes 32} {operation : GroupOperation}
    (h : self.applyTransition provider author operation = .ok next) :
    ∃ previous encoded, self.digest provider = .ok previous ∧
      encode (self.transitionValue previous author (operationRecord operation)) = .ok encoded ∧
      next.groupId = self.groupId ∧ next.epoch = self.epoch + 1 ∧
      next.previousDigest = some previous ∧
      next.transitionDigest = provider.sha256 (dGroupTransition ++ encoded) ∧
      next.validate = .ok () := by
  simp only [applyTransition, Except.bind_eq_ok, Except.pure_eq, Except.ok.injEq, Prod.exists,
    Group.transitionDigest] at h
  obtain ⟨_, _, _, _, _, record, hrecord, _, _, previous, hprevious, _, ⟨encoded, hencoded, rfl⟩, _,
    hvalid, rfl⟩ := h
  cases applyOperation_record hrecord
  exact ⟨previous, encoded, hprevious, hencoded, rfl, rfl, rfl, rfl, hvalid⟩

/-! ## Runs -/

def digestInput (self : GroupState) : List Bytes :=
  match encode self.value with
  | .ok encoded => [dGroupState ++ encoded]
  | .error _ => []

def transitionInput (self : GroupState) (provider : Provider) (author : FixedBytes 32)
    (operation : GroupOperation) : List Bytes :=
  match (do encode (self.transitionValue (← self.digest provider) author
    (operationRecord operation))) with
  | .ok encoded => [dGroupTransition ++ encoded]
  | .error _ => []

/-- The states of a group, newest first, with the author and the operation of every step. -/
inductive Grows (provider : Provider) :
    List GroupState → List (FixedBytes 32 × GroupOperation) → Prop
  | genesis {state : GroupState} (first : state.epoch = 0) : Grows provider [state] []
  | step {state next : GroupState} {older : List GroupState} {author : FixedBytes 32}
      {operation : GroupOperation} {steps : List (FixedBytes 32 × GroupOperation)}
      (run : Grows provider (state :: older) steps)
      (applied : state.applyTransition provider author operation = .ok next) :
      Grows provider (next :: state :: older) ((author, operation) :: steps)

/-- Everything that a run hashes, the digest of its last state included. -/
def hashed (provider : Provider) :
    List GroupState → List (FixedBytes 32 × GroupOperation) → List Bytes
  | next :: state :: older, (author, operation) :: steps =>
    digestInput next ++ (transitionInput state provider author operation ++
      hashed provider (state :: older) steps)
  | state :: _, _ => digestInput state
  | [], _ => []

theorem digestInput_subset_hashed {provider : Provider} {state : GroupState}
    {older : List GroupState} {steps : List (FixedBytes 32 × GroupOperation)} :
    digestInput state ⊆ hashed provider (state :: older) steps := by
  cases older with
  | nil => exact fun _ h => h
  | cons previous older =>
    cases steps with
    | nil => exact fun _ h => h
    | cons step steps => exact List.subset_append_left _ _

section

variable {provider : Provider} {state state' : GroupState} {digest : FixedBytes 32}
  {inputs : Set Bytes}

theorem eq_of_digest_eq (hfree : Set.InjOn provider.sha256 inputs)
    (hinput : ∀ input ∈ digestInput state, input ∈ inputs)
    (hinput' : ∀ input ∈ digestInput state', input ∈ inputs)
    (h : state.digest provider = .ok digest) (h' : state'.digest provider = .ok digest) :
    state = state' := by
  obtain ⟨_, encoded, hencoded, hdigest⟩ := digest_eq_ok.mp h
  obtain ⟨_, encoded', hencoded', hdigest'⟩ := digest_eq_ok.mp h'
  have hmem : dGroupState ++ encoded ∈ inputs := hinput _ (by simp [digestInput, hencoded])
  have hmem' : dGroupState ++ encoded' ∈ inputs := hinput' _ (by simp [digestInput, hencoded'])
  have hsame := List.append_cancel_left (hfree hmem hmem' (hdigest.symm.trans hdigest'))
  rw [← hsame] at hencoded'
  exact value_injective
    (encode_injective (value_wellFormed _) (value_wellFormed _) hencoded hencoded')

theorem transition_eq (hfree : Set.InjOn provider.sha256 inputs) {author author' : FixedBytes 32}
    {operation operation' : GroupOperation} {next : GroupState}
    (hinput : ∀ input ∈ transitionInput state provider author operation, input ∈ inputs)
    (hinput' : ∀ input ∈ transitionInput state' provider author' operation', input ∈ inputs)
    (h : state.applyTransition provider author operation = .ok next)
    (h' : state'.applyTransition provider author' operation' = .ok next) :
    author = author' ∧ operation = operation' ∧
      ∃ previous, state.digest provider = .ok previous ∧ state'.digest provider = .ok previous := by
  obtain ⟨previous, encoded, hprevious, hencoded, _, _, hlink, hdigest, _⟩ :=
    applyTransition_eq_ok h
  obtain ⟨previous', encoded', hprevious', hencoded', _, _, hlink', hdigest', _⟩ :=
    applyTransition_eq_ok h'
  cases hlink.symm.trans hlink'
  have hmem : dGroupTransition ++ encoded ∈ inputs :=
    hinput _ (by simp [transitionInput, hprevious, hencoded])
  have hmem' : dGroupTransition ++ encoded' ∈ inputs :=
    hinput' _ (by simp [transitionInput, hprevious', hencoded'])
  have hsame := List.append_cancel_left (hfree hmem hmem' (hdigest.symm.trans hdigest'))
  rw [← hsame] at hencoded'
  have hvalue := encode_injective (transitionValue_wellFormed _ _ _ _)
    (transitionValue_wellFormed _ _ _ _) hencoded hencoded'
  simp only [transitionValue, CborValue.map.injEq, List.cons.injEq, Prod.mk.injEq,
    CborValue.bytes.injEq, true_and, and_true] at hvalue
  obtain ⟨_, _, hauthor, hrecord⟩ := hvalue
  exact ⟨FixedBytes.toList_injective hauthor, operationRecord_injective hrecord, previous,
    hprevious, hprevious'⟩

theorem Grows.eq_of_digest_eq {older older' : List GroupState}
    {steps steps' : List (FixedBytes 32 × GroupOperation)}
    (hrun : Grows provider (state :: older) steps)
    (hrun' : Grows provider (state' :: older') steps')
    (hfree : Set.InjOn provider.sha256 inputs)
    (hinputs : ∀ input ∈ hashed provider (state :: older) steps, input ∈ inputs)
    (hinputs' : ∀ input ∈ hashed provider (state' :: older') steps', input ∈ inputs)
    (h : state.digest provider = .ok digest) (h' : state'.digest provider = .ok digest) :
    steps = steps' ∧ state :: older = state' :: older' := by
  have hstate : state = state' := GroupState.eq_of_digest_eq hfree
    (fun _ hmem => hinputs _ (digestInput_subset_hashed hmem))
    (fun _ hmem => hinputs' _ (digestInput_subset_hashed hmem)) h h'
  generalize hstates : state :: older = states at hrun
  induction hrun generalizing state state' older older' steps' digest with
  | @genesis first hfirst =>
    cases hstates
    cases hrun' with
    | genesis => exact ⟨rfl, by rw [hstate]⟩
    | step run applied =>
      obtain ⟨_, _, _, _, _, hepoch, _⟩ := applyTransition_eq_ok applied
      rw [hstate] at hfirst
      omega
  | @step before next older author operation steps run applied ih =>
    cases hstates
    cases hrun' with
    | genesis hfirst =>
      obtain ⟨_, _, _, _, _, hepoch, _⟩ := applyTransition_eq_ok applied
      rw [hstate] at hepoch
      omega
    | step run' applied' =>
      subst hstate
      simp only [hashed, List.mem_append] at hinputs hinputs'
      obtain ⟨rfl, rfl, previous, hprevious, hprevious'⟩ := transition_eq hfree
        (fun _ hmem => hinputs _ (.inr (.inl hmem))) (fun _ hmem => hinputs' _ (.inr (.inl hmem)))
        applied applied'
      have hrest := fun input hmem => hinputs input (.inr (.inr hmem))
      have hrest' := fun input hmem => hinputs' input (.inr (.inr hmem))
      have hbefore := GroupState.eq_of_digest_eq hfree
        (fun _ hmem => hrest _ (digestInput_subset_hashed hmem))
        (fun _ hmem => hrest' _ (digestInput_subset_hashed hmem)) hprevious hprevious'
      obtain ⟨rfl, hstates⟩ := ih run' hrest hrest' hprevious hprevious' hbefore rfl
      exact ⟨rfl, by rw [hstates]⟩

/-- The digest never fails on a valid state, and without collisions on what two runs hash it fixes
their length, their steps and all their states. -/
theorem group_digest_fixes_history :
    (∀ state : GroupState, state.validate = .ok () → ∃ digest, state.digest provider = .ok digest) ∧
    ∀ (state state' : GroupState) (older older' : List GroupState)
      (steps steps' : List (FixedBytes 32 × GroupOperation)) (digest : FixedBytes 32),
      Grows provider (state :: older) steps → Grows provider (state' :: older') steps' →
      Set.InjOn provider.sha256 {input | input ∈ hashed provider (state :: older) steps ∨
        input ∈ hashed provider (state' :: older') steps'} →
      state.digest provider = .ok digest → state'.digest provider = .ok digest →
      steps = steps' ∧ state :: older = state' :: older' :=
  ⟨fun _ => digest_total provider, fun _ _ _ _ _ _ _ hrun hrun' hfree =>
    hrun.eq_of_digest_eq hrun' hfree (fun _ => .inl) fun _ => .inr⟩

end

/-! ## A run of one step -/

/-- A provider whose digest is the length of its input. -/
def lengthProvider : Provider :=
  { tableProvider [] [] with
    sha256 := fun input => List.Vector.replicate 32 (UInt8.ofNat input.length) }

def pairState : GroupState :=
  ⟨.zero 32, 0, none, [⟨.zero 32, .stateAuthority⟩, ⟨List.Vector.replicate 32 1, .member⟩],
  .zero 32⟩

def soleState : GroupState :=
  ⟨.zero 32, 1, some (List.Vector.replicate 32 171), [⟨.zero 32, .stateAuthority⟩],
    List.Vector.replicate 32 172⟩

def removal : GroupOperation := .remove (List.Vector.replicate 32 1)

theorem pairState_removal :
    pairState.applyTransition lengthProvider (.zero 32) removal = .ok soleState := by
  have hdigest : pairState.digest lengthProvider = .ok (List.Vector.replicate 32 171) := by
    decide +kernel
  have htransition : Group.transitionDigest lengthProvider (pairState.transitionValue
      (List.Vector.replicate 32 171) (.zero 32) (operationRecord removal)) =
      .ok (List.Vector.replicate 32 172) := by
    decide +kernel
  have hmembers : applyOperation pairState.members removal =
      .ok ([⟨.zero 32, .stateAuthority⟩], operationRecord removal) := rfl
  have hvalid : pairState.validate = .ok () := by decide
  have hnext : soleState.validate = .ok () := by decide
  simp only [applyTransition, Except.bind_eq_ok, Prod.exists]
  exact ⟨(), hvalid, (), by decide, _, _, hmembers, (), by decide, _, hdigest, _, htransition, (),
    by rw [List.mergeSort_singleton]; exact hnext, by rw [List.mergeSort_singleton]; rfl⟩

theorem group_digest_fixes_history_one_step :
    [(FixedBytes.zero 32, removal)] = [(FixedBytes.zero 32, removal)] ∧
    [soleState, pairState] = [soleState, pairState] := by
  have hrun : Grows lengthProvider [soleState, pairState] [(.zero 32, removal)] :=
    .step (.genesis rfl) pairState_removal
  have hdigests : (hashed lengthProvider [soleState, pairState] [(.zero 32, removal)]).map
      lengthProvider.sha256 = [List.Vector.replicate 32 168, List.Vector.replicate 32 172,
        List.Vector.replicate 32 171] := by
    decide +kernel
  have hnodup : ((hashed lengthProvider [soleState, pairState] [(.zero 32, removal)]).map
      lengthProvider.sha256).Nodup := by
    rw [hdigests]
    decide
  have hvalid : soleState.validate = .ok () := by decide
  obtain ⟨digest, hdigest⟩ := digest_total lengthProvider hvalid
  refine (@group_digest_fixes_history lengthProvider).2 _ _ _ _ _ _ digest hrun hrun ?_ hdigest
    hdigest
  intro a ha b hb hab
  exact List.inj_on_of_nodup_map hnodup (or_self_iff.mp ha) (or_self_iff.mp hb) hab

end GroupState

end LicoArc
