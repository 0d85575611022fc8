import LicoArc.LocalKeys
import LicoArc.Runs
import LicoArc.TableProvider

/-!
# Custody conservation

The handles that a durable state references are the keys that an endpoint has
adopted: no commit leaks an adopted key, and no state points at a key that is
deleted or merely staged.
-/

namespace LicoArc

open Backend

/-- The purposes of the keys that an endpoint adopts and deletes on its own. -/
def Purpose.owned : Purpose → Bool
  | .x25519Private | .mlKem768Private => true
  | _ => false

/-- The handles of a phase: both of every active prekey, or the one of the ratchet. -/
def Phase.references : Phase → List (Purpose × Nat)
  | responderReady _ active => active.toList.flatMap fun entry =>
    [(.x25519Private, entry.2.x25519Private.custodyToken),
      (.mlKem768Private, entry.2.mlKemPrivate.custodyToken)]
  | initiatorAwaiting _ _ _ _ ratchet => [(.x25519Private, ratchet.localPrivate.custodyToken)]
  | established session _ _ _ _ => [(.x25519Private, session.localPrivate.custodyToken)]
  | initiatorNew | deleted _ => []

theorem mem_references_ready {highWater : Nat} {active : ActivePrekeys} {purpose : Purpose}
    {token : Nat} :
    (purpose, token) ∈ (Phase.responderReady highWater active).references ↔
      ∃ (key : Nat) (entry : ActivePrekey), active[key]? = some entry ∧
        (purpose = .x25519Private ∧ token = entry.x25519Private.custodyToken ∨
          purpose = .mlKem768Private ∧ token = entry.mlKemPrivate.custodyToken) := by
  simp only [Phase.references, List.mem_flatMap, Prod.exists, List.mem_cons, Prod.mk.injEq,
    List.not_mem_nil, or_false]
  constructor
  · rintro ⟨key, entry, hmem, h⟩
    exact ⟨key, entry, Std.ExtTreeMap.mem_toList_iff_getElem?_eq_some.mp hmem, h⟩
  · rintro ⟨key, entry, hmem, h⟩
    exact ⟨key, entry, Std.ExtTreeMap.mem_toList_iff_getElem?_eq_some.mpr hmem, h⟩

theorem active_insert_of_ne {active : ActivePrekeys} {key other : Nat} {entry : ActivePrekey}
    (h : key ≠ other) : (active.insert key entry)[other]? = active[other]? := by
  rw [Std.ExtTreeMap.getElem?_insert, if_neg (by rwa [Nat.compare_eq_eq])]

def Keys.adopted (keys : Keys) (purpose : Purpose) (token : Nat) : Prop :=
  ∃ record, keys token = some record ∧ record.is .adopted purpose

namespace Keys

variable {keys : Keys} {mutations : List KeyMutation} {purpose : Purpose} {token : Nat}

/-- What mutations adopt and what they leave adopted. -/
theorem adopted_mutateAll (hnodup : (mutations.map KeyMutation.custodyToken).Nodup)
    (hpermits : ∀ mutation ∈ mutations, keys.permits mutation) :
    (keys.mutateAll mutations).adopted purpose token ↔
      (∃ mutation ∈ mutations, mutation.lifecycle = .staged ∧ mutation.purpose = purpose ∧
        mutation.custodyToken = token) ∨
      keys.adopted purpose token ∧ ∀ mutation ∈ mutations, mutation.custodyToken ≠ token := by
  by_cases htoken : token ∈ mutations.map KeyMutation.custodyToken
  · obtain ⟨mutation, hmem, rfl⟩ := List.mem_map.mp htoken
    have hunique : ∀ other ∈ mutations, other.custodyToken = mutation.custodyToken →
        other = mutation :=
      fun other hother heq => List.inj_on_of_nodup_map hnodup hother hmem heq
    have hpermit := hpermits mutation hmem
    rw [permits, Option.any_eq_true] at hpermit
    obtain ⟨record, hrecord, his⟩ := hpermit
    rw [adopted, mutateAll_of_mem hnodup hmem, hrecord]
    simp only [KeyRecord.is, Bool.decide_and, Bool.and_eq_true, decide_eq_true_eq] at his ⊢
    rw [KeyMutation.applied]
    constructor
    · rintro ⟨after, hafter, _, hpurpose⟩
      cases hlifecycle : mutation.lifecycle with
      | staged =>
        rw [hlifecycle] at hafter
        cases hafter
        exact .inl ⟨mutation, hmem, hlifecycle, his.2.symm.trans hpurpose, rfl⟩
      | adopted =>
        rw [hlifecycle] at hafter
        cases hafter
    · rintro (⟨other, hother, hlifecycle, hpurpose, heq⟩ | ⟨_, hnone⟩)
      · cases hunique other hother heq
        rw [hlifecycle]
        exact ⟨_, rfl, rfl, his.2.trans hpurpose⟩
      · exact absurd rfl (hnone mutation hmem)
  · rw [adopted, mutateAll_of_not_mem htoken]
    constructor
    · intro h
      exact .inr ⟨h, fun mutation hmem heq => htoken (heq ▸ List.mem_map_of_mem hmem)⟩
    · rintro (⟨mutation, hmem, _, _, rfl⟩ | ⟨h, _⟩)
      · exact absurd (List.mem_map_of_mem hmem) htoken
      · exact h

theorem adopted_abort {other : Nat} {aborted : Purpose} :
    (keys.abort aborted other).adopted purpose token ↔ keys.adopted purpose token := by
  constructor
  · rintro ⟨record, hrecord, his⟩
    exact ⟨record, abort_eq_some hrecord, his⟩
  · rintro ⟨record, hrecord, his⟩
    refine ⟨record, abort_of_adopted hrecord ?_, his⟩
    simp only [KeyRecord.is, Bool.decide_and, Bool.and_eq_true, decide_eq_true_eq] at his
    exact his.1

theorem adopted_purpose {other : Purpose} (h : keys.adopted purpose token)
    (h' : keys.adopted other token) : purpose = other := by
  obtain ⟨record, hrecord, his⟩ := h
  obtain ⟨record', hrecord', his'⟩ := h'
  cases hrecord.symm.trans hrecord'
  simp only [KeyRecord.is, Bool.decide_and, Bool.and_eq_true, decide_eq_true_eq] at his his'
  exact his.2.symm.trans his'.2

theorem not_adopted_of_staged {mutation : KeyMutation} (h : keys.permits mutation)
    (hstaged : mutation.lifecycle = .staged) : ¬keys.adopted purpose mutation.custodyToken := by
  rintro ⟨record, hrecord, his⟩
  rw [permits, hrecord, Option.any_some] at h
  simp only [KeyRecord.is, Bool.decide_and, Bool.and_eq_true, decide_eq_true_eq, hstaged] at h his
  exact absurd (h.1.symm.trans his.1) (by decide)

end Keys

/-- The world of an endpoint that has just been created, in either role. -/
structure World.Genesis (w : World) : Prop where
  entries : w.snapshots.entries = [.initial .initiator] ∨
    w.snapshots.entries = [.initial .responder]
  unowned (purpose : Purpose) (token : Nat) : purpose.owned → ¬w.keys.adopted purpose token

theorem World.Genesis.durable {w : World} (h : w.Genesis) :
    w.durable = .initial .initiator ∨ w.durable = .initial .responder :=
  h.entries.imp (fun heq => (List.cons.inj heq).1) fun heq => (List.cons.inj heq).1

def World.stocked (state : EndpointState) (keys : List (Nat × KeyRecord))
    (hnodup : (keys.map Prod.fst).Nodup) : World where
  snapshots := .single (.initial state)
  keys token := (keys.find? (·.1 = token)).map Prod.snd
  issued := keys.map fun entry => (entry.1, entry.2.material)
  unique := by rwa [List.map_map]
  known token record h := by
    obtain ⟨entry, hentry, rfl⟩ := Option.map_eq_some_iff.mp h
    have htoken := List.find?_some hentry
    simp only [decide_eq_true_eq] at htoken
    subst htoken
    exact List.mem_map_of_mem (List.mem_of_find?_eq_some hentry)

theorem World.stocked_genesis {state : EndpointState} {keys : List (Nat × KeyRecord)}
    {hnodup : (keys.map Prod.fst).Nodup} (hstate : state = .initiator ∨ state = .responder)
    (hkeys : ∀ entry ∈ keys, entry.2.lifecycle = .adopted →
      entry.2.material.purpose.owned = false) : (World.stocked state keys hnodup).Genesis where
  entries := by
    rcases hstate with rfl | rfl
    · exact .inl rfl
    · exact .inr rfl
  unowned purpose token howned := by
    rintro ⟨record, hrecord, his⟩
    obtain ⟨entry, hentry, rfl⟩ := Option.map_eq_some_iff.mp hrecord
    obtain ⟨hadopted, rfl⟩ := of_decide_eq_true his
    rw [hkeys entry (List.mem_of_find?_eq_some hentry) hadopted] at howned
    cases howned

structure ActivePrekeys.WellKept (highWater : Nat) (active : ActivePrekeys) : Prop where
  sequence (key : Nat) (entry : ActivePrekey) : active[key]? = some entry →
    entry.bundle.pairSequence = key ∧ key ≠ 0 ∧ key ≤ highWater
  size : active.size ≤ maxActivePrekeyPairs
  distinct (key other : Nat) (entry entry' : ActivePrekey) : active[key]? = some entry →
    active[other]? = some entry' → entry.x25519Private = entry'.x25519Private → key = other

theorem ActivePrekeys.WellKept.insert {highWater pairSequence : Nat} {active : ActivePrekeys}
    (h : active.WellKept highWater) {entry : ActivePrekey} (hsequence : highWater < pairSequence)
    (hbundle : entry.bundle.pairSequence = pairSequence)
    (hroom : active.size < maxActivePrekeyPairs)
    (hfresh : ∀ (key : Nat) (other : ActivePrekey), active[key]? = some other →
      other.x25519Private ≠ entry.x25519Private) :
    ActivePrekeys.WellKept pairSequence (active.insert pairSequence entry) where
  sequence key other hother := by
    by_cases hkey : pairSequence = key
    · subst hkey
      rw [Std.ExtTreeMap.getElem?_insert_self] at hother
      cases hother
      exact ⟨hbundle, by omega, le_refl _⟩
    · rw [active_insert_of_ne hkey] at hother
      obtain ⟨hkept, hzero, hle⟩ := h.sequence _ _ hother
      exact ⟨hkept, hzero, by omega⟩
  size := le_trans Std.ExtTreeMap.size_insert_le hroom
  distinct key other first second hfirst hsecond heq := by
    by_cases hkey : pairSequence = key
    · by_cases hother : pairSequence = other
      · exact hkey.symm.trans hother
      · subst hkey
        rw [Std.ExtTreeMap.getElem?_insert_self] at hfirst
        rw [active_insert_of_ne hother] at hsecond
        cases hfirst
        exact absurd heq.symm (hfresh _ _ hsecond)
    · rw [active_insert_of_ne hkey] at hfirst
      by_cases hother : pairSequence = other
      · subst hother
        rw [Std.ExtTreeMap.getElem?_insert_self] at hsecond
        cases hsecond
        exact absurd heq (hfresh _ _ hfirst)
      · rw [active_insert_of_ne hother] at hsecond
        exact h.distinct _ _ _ _ hfirst hsecond heq

/-! ## The mutations of the two operations that delete -/

theorem mem_acceptMutations {active : ActivePrekeys} {pairSequence : Nat} {mutation : KeyMutation} :
    mutation ∈ Endpoint.acceptMutations active pairSequence ↔
      ∃ (key : Nat) (entry : ActivePrekey), active[key]? = some entry ∧
        (mutation = .deleteMlKem768 entry.mlKemPrivate ∨
          entry.bundle.pairSequence ≠ pairSequence ∧
            mutation = .deleteX25519 entry.x25519Private) := by
  simp only [Endpoint.acceptMutations, List.mem_flatMap, Prod.exists, List.mem_cons,
    Std.ExtTreeMap.mem_toList_iff_getElem?_eq_some]
  refine exists_congr fun key => exists_congr fun entry => and_congr_right fun _ =>
    or_congr_right ?_
  split <;> simp_all

theorem deletion_lifecycle {phase : Phase} {mutation : KeyMutation}
    (h : mutation ∈ (Endpoint.deletion phase).2) : mutation.lifecycle = .adopted := by
  cases phase with
  | responderReady highWater active =>
    obtain ⟨entry, _, hmem⟩ := List.mem_flatMap.mp h
    rcases List.mem_pair.mp hmem with rfl | rfl <;> rfl
  | established =>
    cases List.mem_singleton.mp h
    rfl
  | initiatorAwaiting =>
    cases List.mem_singleton.mp h
    rfl
  | initiatorNew => cases h
  | deleted => cases h

theorem deletion_references {phase : Phase} {purpose : Purpose} {token : Nat}
    (h : (purpose, token) ∈ phase.references) :
    ∃ mutation ∈ (Endpoint.deletion phase).2, mutation.custodyToken = token := by
  cases phase with
  | responderReady highWater active =>
    obtain ⟨entry, hentry, hmem⟩ := List.mem_flatMap.mp h
    simp only [List.mem_cons, Prod.mk.injEq, List.not_mem_nil, or_false] at hmem
    rcases hmem with ⟨_, rfl⟩ | ⟨_, rfl⟩
    · exact ⟨_, List.mem_flatMap.mpr ⟨entry, hentry, List.mem_cons_self⟩, rfl⟩
    · exact ⟨_, List.mem_flatMap.mpr
        ⟨entry, hentry, List.mem_cons_of_mem _ List.mem_cons_self⟩, rfl⟩
  | established =>
    cases List.mem_singleton.mp h
    exact ⟨_, List.mem_singleton_self _, rfl⟩
  | initiatorAwaiting =>
    cases List.mem_singleton.mp h
    exact ⟨_, List.mem_singleton_self _, rfl⟩
  | initiatorNew => cases h
  | deleted => cases h

/-! ## The invariant -/

/-- The invariant of the custody: what is adopted is what the durable phase references. -/
structure Conserved (w : World) : Prop where
  adopted (purpose : Purpose) (token : Nat) : purpose.owned →
    (w.keys.adopted purpose token ↔ (purpose, token) ∈ w.durable.state.phase.references)
  wellKept (highWater : Nat) (active : ActivePrekeys) :
    w.durable.state.phase = .responderReady highWater active → active.WellKept highWater

namespace Conserved

variable {provider : Provider} {w w' : World} {next : EndpointState} {pending : List PendingItem}
  {mutations : List KeyMutation}

/-- A commit conserves the custody when its mutations turn the old references into the new ones. -/
theorem advance (h : Conserved w) (hnodup : (mutations.map KeyMutation.custodyToken).Nodup)
    (hpermits : ∀ mutation ∈ mutations, w.keys.permits mutation)
    (hreferences : ∀ purpose token, purpose.owned →
      (((∃ mutation ∈ mutations, mutation.lifecycle = .staged ∧ mutation.purpose = purpose ∧
          mutation.custodyToken = token) ∨
        (purpose, token) ∈ w.durable.state.phase.references ∧
          ∀ mutation ∈ mutations, mutation.custodyToken ≠ token) ↔
      (purpose, token) ∈ next.phase.references))
    (hready : ∀ highWater active, next.phase = .responderReady highWater active →
      active.WellKept highWater) :
    Conserved (w.advance next pending mutations) where
  adopted purpose token howned := by
    refine (Keys.adopted_mutateAll hnodup hpermits).trans ?_
    rw [h.adopted purpose token howned]
    exact hreferences purpose token howned
  wellKept := hready

theorem keep (h : Conserved w)
    (hreferences : next.phase.references = w.durable.state.phase.references)
    (hready : ∀ highWater active, next.phase = .responderReady highWater active →
      active.WellKept highWater) :
    Conserved (w.advance next pending []) := by
  refine h.advance List.nodup_nil (fun _ hmem => nomatch hmem) (fun purpose token _ => ?_) hready
  rw [hreferences]
  simp

theorem rotate (h : Conserved w) {staged : StagedSecretHandle .x25519Private}
    {replaced : SecretHandle .x25519Private}
    (hcurrent : w.durable.state.phase.references = [(.x25519Private, replaced.custodyToken)])
    (hnext : next.phase.references = [(.x25519Private, staged.custodyToken)])
    (hready : ∀ highWater active, next.phase ≠ .responderReady highWater active)
    (hnodup : ((Endpoint.rotation replaced (some staged)).map KeyMutation.custodyToken).Nodup)
    (hpermits : ∀ mutation ∈ Endpoint.rotation replaced (some staged), w.keys.permits mutation) :
    Conserved (w.advance next pending (Endpoint.rotation replaced (some staged))) := by
  refine h.advance hnodup hpermits (fun purpose token _ => ?_)
    fun highWater active heq => absurd heq (hready highWater active)
  rw [hcurrent, hnext]
  simp only [Endpoint.rotation, List.mem_cons, List.not_mem_nil, or_false, Prod.mk.injEq,
    exists_eq_or_imp, exists_eq_left, forall_eq_or_imp, forall_eq, KeyMutation.lifecycle,
    KeyMutation.purpose, KeyMutation.custodyToken, reduceCtorEq, false_and, true_and]
  constructor
  · rintro (⟨rfl, rfl⟩ | ⟨⟨_, rfl⟩, _, hne⟩)
    · exact ⟨rfl, rfl⟩
    · exact absurd rfl hne
  · rintro ⟨rfl, rfl⟩
    exact .inl ⟨rfl, rfl⟩

/-- A token of the durable references is not one that a commit may adopt. -/
theorem ne_of_staged (h : Conserved w) {purpose : Purpose} {token : Nat} (howned : purpose.owned)
    (hmem : (purpose, token) ∈ w.durable.state.phase.references) {mutation : KeyMutation}
    (hpermit : w.keys.permits mutation) (hstaged : mutation.lifecycle = .staged) :
    mutation.custodyToken ≠ token := by
  rintro rfl
  exact Keys.not_adopted_of_staged hpermit hstaged ((h.adopted purpose _ howned).mpr hmem)

theorem admits (h : Conserved w) {highWater pairSequence : Nat} {active : ActivePrekeys}
    {bundle : PrekeyBundle} {x : StagedSecretHandle .x25519Private}
    {kem : StagedSecretHandle .mlKem768Private}
    (hphase : w.durable.state.phase = .responderReady highWater active)
    (hsequence : highWater < pairSequence) (hbundle : bundle.pairSequence = pairSequence)
    (hroom : active.size < maxActivePrekeyPairs)
    (hnodup : ([KeyMutation.adoptX25519 x, .adoptMlKem768 kem].map KeyMutation.custodyToken).Nodup)
    (hpermits : ∀ mutation ∈ [KeyMutation.adoptX25519 x, .adoptMlKem768 kem],
      w.keys.permits mutation) :
    Conserved (w.advance ⟨.responderReady pairSequence (active.insert pairSequence
      ⟨bundle, x.adoptedHandle, kem.adoptedHandle⟩)⟩ pending
      [.adoptX25519 x, .adoptMlKem768 kem]) := by
  have hkept := h.wellKept highWater active hphase
  have hnew : active[pairSequence]? = none := by
    cases hentry : active[pairSequence]? with
    | none => rfl
    | some entry =>
      have hle := (hkept.sequence _ _ hentry).2.2
      omega
  have hstaged : ∀ mutation ∈ [KeyMutation.adoptX25519 x, .adoptMlKem768 kem],
      mutation.lifecycle = .staged := by
    simp [KeyMutation.lifecycle]
  refine h.advance hnodup hpermits (fun purpose token howned => ?_) ?_
  · have hold : ∀ mutation ∈ [KeyMutation.adoptX25519 x, .adoptMlKem768 kem],
        (purpose, token) ∈ w.durable.state.phase.references → mutation.custodyToken ≠ token :=
      fun mutation hmem hreference =>
        h.ne_of_staged howned hreference (hpermits mutation hmem) (hstaged mutation hmem)
    rw [hphase] at hold ⊢
    simp only [mem_references_ready] at hold ⊢
    constructor
    · rintro (⟨mutation, hmem, _, rfl, rfl⟩ | ⟨⟨key, entry, hentry, htoken⟩, _⟩)
      · refine ⟨pairSequence, _, Std.ExtTreeMap.getElem?_insert_self, ?_⟩
        rcases List.mem_pair.mp hmem with rfl | rfl
        · exact .inl ⟨rfl, rfl⟩
        · exact .inr ⟨rfl, rfl⟩
      · refine ⟨key, entry, ?_, htoken⟩
        rw [active_insert_of_ne fun heq => by simp [← heq, hnew] at hentry]
        exact hentry
    · rintro ⟨key, entry, hentry, htoken⟩
      by_cases hkey : pairSequence = key
      · subst hkey
        rw [Std.ExtTreeMap.getElem?_insert_self] at hentry
        cases hentry
        left
        rcases htoken with ⟨rfl, rfl⟩ | ⟨rfl, rfl⟩
        · exact ⟨.adoptX25519 x, by simp, rfl, rfl, rfl⟩
        · exact ⟨.adoptMlKem768 kem, by simp, rfl, rfl, rfl⟩
      · rw [active_insert_of_ne hkey] at hentry
        exact .inr ⟨⟨key, entry, hentry, htoken⟩,
          fun mutation hmem => hold mutation hmem ⟨key, entry, hentry, htoken⟩⟩
  · rintro highWater' active' heq
    cases heq
    have hfresh : ∀ (key : Nat) (entry : ActivePrekey), active[key]? = some entry →
        entry.x25519Private ≠ x.adoptedHandle := by
      intro key entry hentry heq
      refine @ne_of_staged _ h .x25519Private _ rfl ?_ _
        (hpermits (.adoptX25519 x) List.mem_cons_self) rfl rfl
      rw [hphase]
      exact mem_references_ready.mpr ⟨key, entry, hentry, .inl ⟨rfl, by rw [heq]; rfl⟩⟩
    exact hkept.insert hsequence hbundle hroom hfresh

/-- An acceptance keeps the X25519 key of the accepted pair and deletes every other key. -/
theorem accept (h : Conserved w) {highWater : Nat} {active : ActivePrekeys} {prekey : ActivePrekey}
    {session : RatchetState} {replay : Option (FixedBytes 32)} {retry : Option SessionAccept}
    {kept : Option Nat} {pairSequence : Nat}
    (hphase : w.durable.state.phase = .responderReady highWater active)
    (hprekey : active[pairSequence]? = some prekey)
    (hsession : session.localPrivate = prekey.x25519Private)
    (hnodup : ((Endpoint.acceptMutations active pairSequence).map KeyMutation.custodyToken).Nodup)
    (hpermits : ∀ mutation ∈ Endpoint.acceptMutations active pairSequence,
      w.keys.permits mutation) :
    Conserved (w.advance ⟨.established session replay retry kept none⟩ pending
      (Endpoint.acceptMutations active pairSequence)) := by
  have hkept := h.wellKept highWater active hphase
  refine h.advance hnodup hpermits (fun purpose token howned => ?_) fun _ _ heq => nomatch heq
  have hadopted : ∀ (purpose : Purpose) (token : Nat), purpose.owned →
      (purpose, token) ∈ (Phase.responderReady highWater active).references →
      w.keys.adopted purpose token :=
    fun purpose token howned hmem => (h.adopted purpose token howned).mpr (hphase ▸ hmem)
  rw [hphase]
  constructor
  · rintro (⟨mutation, hmem, hstaged, _⟩ | ⟨hreference, hnone⟩)
    · obtain ⟨_, _, _, rfl | ⟨_, rfl⟩⟩ := mem_acceptMutations.mp hmem <;> cases hstaged
    · obtain ⟨key, entry, hentry, ⟨rfl, rfl⟩ | ⟨rfl, rfl⟩⟩ := mem_references_ready.mp hreference
      · by_cases hkey : entry.bundle.pairSequence = pairSequence
        · have hsame : key = pairSequence := (hkept.sequence _ _ hentry).1.symm.trans hkey
          subst hsame
          cases hentry.symm.trans hprekey
          simp [Phase.references, hsession]
        · exact absurd rfl (hnone _ (mem_acceptMutations.mpr
            ⟨key, entry, hentry, .inr ⟨hkey, rfl⟩⟩))
      · exact absurd rfl (hnone _ (mem_acceptMutations.mpr ⟨key, entry, hentry, .inl rfl⟩))
  · intro hreference
    simp only [Phase.references, hsession, List.mem_singleton, Prod.mk.injEq] at hreference
    obtain ⟨rfl, rfl⟩ := hreference
    have haccepted : (Purpose.x25519Private, prekey.x25519Private.custodyToken) ∈
        (Phase.responderReady highWater active).references :=
      mem_references_ready.mpr ⟨pairSequence, prekey, hprekey, .inl ⟨rfl, rfl⟩⟩
    refine .inr ⟨haccepted, fun mutation hmem heq => ?_⟩
    obtain ⟨key, entry, hentry, rfl | ⟨hother, rfl⟩⟩ := mem_acceptMutations.mp hmem
    · -- One token would be adopted for two purposes.
      have hkem := hadopted .mlKem768Private _ rfl
        (mem_references_ready.mpr ⟨key, entry, hentry, .inr ⟨rfl, rfl⟩⟩)
      have hx := hadopted .x25519Private _ rfl haccepted
      rw [← heq] at hx
      cases Keys.adopted_purpose hkem hx
    · have hsame := hkept.distinct _ _ _ _ hentry hprekey (SecretHandle.ext heq)
      exact hother ((hkept.sequence _ _ hentry).1.trans hsame)

theorem create (h : Conserved w) {x : StagedSecretHandle .x25519Private}
    {entropy : SecretHandle .mlKemEncapsulationEntropy} {packet : FirstPacket}
    {transcript context : FixedBytes 32} {hybrid : HybridSecrets}
    {ratchet : RatchetState}
    (hratchet : ratchet.localPrivate = x.adoptedHandle)
    (hphase : w.durable.state.phase = .initiatorNew)
    (hnodup : ([KeyMutation.adoptX25519 x, .deleteMlKemEncapsulationEntropy entropy].map
      KeyMutation.custodyToken).Nodup)
    (hpermits : ∀ mutation ∈ [KeyMutation.adoptX25519 x, .deleteMlKemEncapsulationEntropy entropy],
      w.keys.permits mutation) :
    Conserved (w.advance ⟨.initiatorAwaiting packet transcript context hybrid ratchet⟩ pending
      [.adoptX25519 x, .deleteMlKemEncapsulationEntropy entropy]) := by
  refine h.advance hnodup hpermits (fun purpose token _ => ?_) fun _ _ heq => nomatch heq
  rw [hphase]
  simp [Phase.references, hratchet, KeyMutation.lifecycle, KeyMutation.purpose,
    KeyMutation.custodyToken, StagedSecretHandle.adoptedHandle, eq_comm]

theorem delete (h : Conserved w)
    (hnodup : ((Endpoint.deletion w.durable.state.phase).2.map KeyMutation.custodyToken).Nodup)
    (hpermits : ∀ mutation ∈ (Endpoint.deletion w.durable.state.phase).2,
      w.keys.permits mutation) {highWater : Option Nat} :
    Conserved (w.advance ⟨.deleted highWater⟩ pending
      (Endpoint.deletion w.durable.state.phase).2) := by
  refine h.advance hnodup hpermits (fun purpose token _ => ?_) fun _ _ heq => nomatch heq
  refine iff_of_false ?_ List.not_mem_nil
  rintro (⟨mutation, hmem, hstaged, _⟩ | ⟨hreference, hnone⟩)
  · exact absurd hstaged (by rw [deletion_lifecycle hmem]; exact nofun)
  · obtain ⟨mutation, hmem, heq⟩ := deletion_references hreference
    exact hnone mutation hmem heq

/-! ## Every step -/

theorem abort (h : Conserved w) (purpose : Purpose) (token : Nat) :
    Conserved (w.abort purpose token) where
  adopted purpose' token' howned := Keys.adopted_abort.trans (h.adopted purpose' token' howned)
  wellKept := h.wellKept

theorem settled (h : Conserved w) {revision : Revision} {id : PendingId}
    (hsettled : w.Settled revision id w') : Conserved w' := by
  rw [hsettled.advanced]
  exact h.keep rfl h.wellKept

theorem surroundings (h : Conserved w) (hmoved : Surroundings w w') : Conserved w' := by
  cases hmoved with
  | discard => exact h.abort _ _
  | @issue token record fresh lifecycle =>
    refine ⟨fun purpose other howned => ?_, h.wellKept⟩
    refine Iff.trans ?_ (h.adopted purpose other howned)
    change (∃ r, Function.update w.keys token (some record) other = some r ∧ _) ↔ _
    by_cases hother : other = token
    · subst hother
      rw [Function.update_self]
      constructor
      · rintro ⟨_, heq, his⟩
        cases heq
        simp only [KeyRecord.is, Bool.decide_and, Bool.and_eq_true, decide_eq_true_eq] at his
        rcases lifecycle with hstaged | ⟨hx, hkem⟩
        · cases his.1.symm.trans hstaged
        · rw [his.2] at hx hkem
          cases purpose with
          | x25519Private => exact absurd rfl hx
          | mlKem768Private => exact absurd rfl hkem
          | _ => cases howned
      · rintro ⟨r, hr, _⟩
        exact absurd (List.mem_map_of_mem (w.known other r hr)) fresh
    · rw [Function.update_of_ne hother]
      rfl

theorem committed (h : Conserved w) {line : RuntimeLine} {operation : Operation}
    (hcommitted : operation.Committed provider line w w') : Conserved w' := by
  obtain ⟨plan, items, hplans, hbounded, hpermits, rfl⟩ := hcommitted.planned
  obtain ⟨_, _, _, hnodup, _⟩ := Commit.bounded_eq_ok.mp hbounded
  obtain ⟨unused, hdecided⟩ := hplans.decided
  cases operation with
  | admitPrekey =>
    obtain ⟨admission, heq⟩ := Endpoint.mayOk_decideAdmitPrekey _ hdecided
    cases heq
    exact h.admits admission.phase admission.fresh (admission.bundle_eq ▸ rfl) admission.room hnodup
      hpermits
  | acceptFirstPacket =>
    obtain ⟨_, _, _, _, _, ⟨_, heq⟩ | ⟨acceptance, heq⟩⟩ :=
      (Endpoint.mayOk_decideAcceptFirstPacket _).mp hdecided
    · cases heq
    · cases heq
      exact h.accept acceptance.phase acceptance.stocked acceptance.localPrivate hnodup hpermits
  | createFirstPacket =>
    obtain ⟨_, _, _, _, _, ⟨_, heq⟩ | ⟨hphase, creation, heq⟩⟩ :=
      (Endpoint.mayOk_decideCreateFirstPacket _).mp hdecided
    · cases heq
    · cases heq
      exact h.create creation.localPrivate hphase hnodup hpermits
  | verifySessionAccept =>
    obtain ⟨verification, heq⟩ := (Endpoint.mayOk_decideVerifySessionAccept _).mp hdecided
    cases heq
    exact h.keep (by rw [verification.phase]; rfl) fun _ _ heq => nomatch heq
  | sendRecord _ bootstrap =>
    obtain ⟨_, sending, heq⟩ := Endpoint.mayOk_decideSendRecord _ hdecided
    cases heq
    have hnext := RatchetState.send_localPrivate sending.sent
    have hratchet := sending.readied
    cases bootstrap with
    | none =>
      have hsame := (Outcomes.mayOk_pure _ _ _).mp hratchet
      refine h.keep ?_ fun _ _ heq => nomatch heq
      rw [sending.phase]
      simp [Phase.references, hnext, hsame]
    | some staged =>
      obtain ⟨_, _, _, hadopted, _⟩ := RatchetState.mayOk_bootstrapResponder_sender _ hratchet
      refine h.rotate (by rw [sending.phase]; rfl) ?_ (fun _ _ heq => nomatch heq) hnodup hpermits
      simp [Phase.references, hnext, hadopted, StagedSecretHandle.adoptedHandle]
  | receiveRecord packet fresh =>
    obtain ⟨_, receipt, heq⟩ := Endpoint.mayOk_decideReceiveRecord _ hdecided
    cases heq
    rcases receipt.rotates with ⟨hrotated, _, _, hmutations⟩ | ⟨hkept, _, hmutations⟩
    · rcases RatchetState.mayOk_receive_sender _ receipt.received with
        hsame | ⟨staged, _, rfl, _, hnext, _⟩
      · exact absurd hsame.localPrivate hrotated
      · rw [hmutations] at hnodup hpermits ⊢
        refine h.rotate (by rw [receipt.phase]; rfl) ?_ (fun _ _ heq => nomatch heq) hnodup hpermits
        simp [Phase.references, hnext, StagedSecretHandle.adoptedHandle]
    · rw [hmutations]
      refine h.keep ?_ fun _ _ heq => nomatch heq
      rw [receipt.phase]
      simp [Phase.references, hkept]
  | bootstrapCapabilities =>
    obtain ⟨established, heq⟩ := Endpoint.mayOk_decideBootstrapCapabilities _ hdecided
    cases heq
    exact h.keep (by rw [established.phase]; rfl) fun _ _ heq => nomatch heq
  | applyCompleteCapabilityFlow =>
    obtain ⟨_, application, heq⟩ := Endpoint.mayOk_decideApplyCompleteCapabilityFlow _ hdecided
    cases heq
    obtain ⟨_, _, hsend⟩ := application.reduction.sends
    have hnext := RatchetState.send_localPrivate hsend
    refine h.keep ?_ fun _ _ heq => nomatch heq
    rw [application.phase]
    simp [Phase.references, hnext]
  | deleteSession =>
    obtain ⟨_, heq⟩ := Endpoint.mayOk_decideDeleteSession _ hdecided
    cases heq
    exact h.delete hnodup hpermits

end Conserved

section

variable {ι : Type} [DecidableEq ι] {provider : Provider}
  {guard : (system provider).Config ι → (system provider).Event ι → Prop}
  {c₀ c : (system provider).Config ι} {log : List ((system provider).Event ι)}

theorem conserved_of_genesis {w : World} (h : w.Genesis) : Conserved w where
  adopted purpose token howned := by
    refine iff_of_false (h.unowned purpose token howned) ?_
    rcases h.durable with heq | heq <;> rw [heq] <;> exact nofun
  wellKept highWater active hphase := by
    rcases h.durable with heq | heq <;> rw [heq] at hphase <;> cases hphase
    exact ⟨fun _ _ hentry => by simp at hentry, by simp, fun _ _ _ _ hentry => by simp at hentry⟩

theorem run_conserved (hidle : c₀.allIdle) (hgenesis : c₀.world.Genesis)
    (h : (system provider).Run guard c₀ log c) : Conserved c.world :=
  run_invariant hidle (conserved_of_genesis hgenesis)
    (fun _ _ _ _ h hcommitted => h.committed hcommitted)
    (fun _ _ _ _ h hsettled => h.settled hsettled) (fun _ _ _ h => h.abort _ _)
      (fun _ _ h hmoved => h.surroundings hmoved) h

/-- Custody conservation: in every run the adopted keys are those that the durable phase
references. -/
theorem custody_conservation (hidle : c₀.allIdle) (hgenesis : c₀.world.Genesis)
    (h : (system provider).Run guard c₀ log c) (purpose : Purpose) (howned : purpose.owned)
    (token : Nat) :
    c.world.keys.adopted purpose token ↔
      (purpose, token) ∈ c.world.durable.state.phase.references :=
  (run_conserved hidle hgenesis h).adopted purpose token howned

end

end LicoArc
