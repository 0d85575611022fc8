import LicoArc.GroupLaws
import LicoArc.KeyedLists

/-!
# Group transitions as roster updates

A group state holds the roster of its group: the role of each endpoint. A
transition is an update of the roster at one endpoint, and it succeeds exactly
when its author and its operation allow it.
-/

namespace LicoArc

open LicoArc.Group

namespace GroupState

def roster (self : GroupState) : FixedBytes 32 → Option MemberRole :=
  tableOf Member.endpoint Member.role self.members

end GroupState

namespace GroupOperation

/-- The operation changes the roster, within the bound of a group. -/
def Applies (self : GroupState) : GroupOperation → Prop
  | add member => self.members.length < maxGroupMembers ∧ self.roster member.endpoint = none
  | remove endpoint => self.roster endpoint ≠ none
  | changeRole endpoint role =>
    self.roster endpoint ≠ none ∧ self.roster endpoint ≠ some role

def update (roster : FixedBytes 32 → Option MemberRole) :
    GroupOperation → FixedBytes 32 → Option MemberRole
  | add member => Function.update roster member.endpoint (some member.role)
  | remove endpoint => Function.update roster endpoint none
  | changeRole endpoint role => Function.update roster endpoint (some role)

end GroupOperation

namespace GroupState

open Encoding

/-! ## The roster of a valid state -/

theorem pairwise_endpoints {members : List Member} :
    (members.map fun member => member.endpoint.toList).IsChain (· < ·) ↔
      members.Pairwise fun a b => a.endpoint.toList < b.endpoint.toList := by
  rw [List.isChain_iff_pairwise, List.pairwise_map]

theorem nodup_endpoints {members : List Member}
    (h : members.Pairwise fun a b => a.endpoint.toList < b.endpoint.toList) :
    (members.map Member.endpoint).Nodup := by
  refine List.pairwise_map.mpr (h.imp ?_)
  intro a b hlt heq
  rw [heq] at hlt
  exact Std.lt_irrefl hlt

theorem holds_roster {self : GroupState} (h : self.validate = .ok ()) :
    Holds Member.endpoint Member.role self.members self.roster := by
  obtain ⟨_, _, _, _, hchain, _⟩ := validate_eq_ok.mp h
  exact holds_tableOf (nodup_endpoints (pairwise_endpoints.mp hchain))

section

variable {members : List Member} {roster : FixedBytes 32 → Option MemberRole}

theorem exists_member_iff (h : Holds Member.endpoint Member.role members roster)
    {role : MemberRole} :
    (∃ member ∈ members, member.role = role) ↔ ∃ endpoint, roster endpoint = some role := by
  constructor
  · rintro ⟨member, hmember, rfl⟩
    exact ⟨member.endpoint, h.of_mem hmember⟩
  · rintro ⟨endpoint, hendpoint⟩
    obtain ⟨member, hmember, _, hrole⟩ := (h.entry _ _).mp hendpoint
    exact ⟨member, hmember, hrole⟩

theorem author_iff (h : Holds Member.endpoint Member.role members roster)
    {author : FixedBytes 32} :
    (∃ item ∈ members, item.endpoint = author ∧ item.role = .stateAuthority) ↔
      roster author = some .stateAuthority :=
  (h.entry _ _).symm

end

/-! ## Operations -/

/-- A change of role keeps every member at its place. -/
theorem set_role {members : List Member} {roster : FixedBytes 32 → Option MemberRole}
    (h : Holds Member.endpoint Member.role members roster) {member : Member}
    (hmember : member ∈ members) (role : MemberRole) :
    members.set (members.findIdx (·.endpoint = member.endpoint)) { member with role } =
      members.map fun item =>
        if item.endpoint = member.endpoint then { item with role } else item := by
  rw [h.set_findIdx hmember]
  refine List.map_congr_left fun item _ => ?_
  by_cases hitem : item.endpoint = member.endpoint
  · rw [if_pos hitem, if_pos hitem, hitem]
  · rw [if_neg hitem, if_neg hitem]

theorem applyOperation_eq_ok {self : GroupState} (h : self.validate = .ok ())
    {operation : GroupOperation} {members : List Member} {record : CborValue}
    (happlied : applyOperation self.members operation = .ok (members, record)) :
    operation.Applies self ∧
      Holds Member.endpoint Member.role members (operation.update self.roster) ∧
      members.length ≤ maxGroupMembers := by
  have hholds := holds_roster h
  obtain ⟨_, hbound, _⟩ := validate_eq_ok.mp h
  cases operation with
  | add member =>
    simp only [applyOperation, Except.bind_eq_ok, reject_eq_ok, exists_const, Except.pure_eq,
      Except.ok.injEq, Prod.mk.injEq, not_or, not_exists, not_and] at happlied
    obtain ⟨⟨hroom, hfresh⟩, rfl, _⟩ := happlied
    have habsent : self.roster member.endpoint = none := hholds.absent_iff.mpr hfresh
    refine ⟨⟨by omega, habsent⟩, hholds.concat habsent, ?_⟩
    rw [List.length_append, List.length_singleton]
    omega
  | remove endpoint =>
    simp only [applyOperation, Except.bind_eq_ok, reject_eq_ok, exists_const, Except.pure_eq,
      Except.ok.injEq, Prod.mk.injEq, List.length_filter_eq_length_iff] at happlied
    obtain ⟨hremoved, rfl, _⟩ := happlied
    refine ⟨?_, hholds.filter endpoint, (List.length_filter_le _ _).trans hbound⟩
    refine hholds.present_iff.mpr ?_
    simpa using hremoved
  | changeRole endpoint role =>
    simp only [applyOperation, Except.bind_eq_ok, reject_eq_ok, exists_const, Except.pure_eq,
      Except.ok.injEq, Prod.mk.injEq, okOr_eq_ok] at happlied
    obtain ⟨member, hfind, hrole, rfl, _⟩ := happlied
    have hmember := List.mem_of_find?_eq_some hfind
    have hendpoint := List.find?_some hfind
    obtain rfl := of_decide_eq_true hendpoint
    have hpresent : self.roster member.endpoint ≠ none := by simp [hholds.of_mem hmember]
    refine ⟨⟨hpresent, ?_⟩, ?_, ?_⟩
    · rw [hholds.of_mem hmember]
      exact fun heq => hrole (Option.some.inj heq)
    · rw [set_role hholds hmember]
      exact hholds.revalue (fun _ => rfl) (fun _ => rfl) hpresent
    · rwa [List.length_set]

theorem applyOperation_of_applies {self : GroupState} (h : self.validate = .ok ())
    {operation : GroupOperation} (happlies : operation.Applies self) :
    ∃ members, applyOperation self.members operation =
      .ok (members, operationRecord operation) := by
  have hholds := holds_roster h
  cases operation with
  | add member =>
    obtain ⟨hroom, hfresh⟩ := happlies
    have hopen : ¬(self.members.length = maxGroupMembers ∨
        ∃ item ∈ self.members, item.endpoint = member.endpoint) := by
      rintro (hfull | ⟨item, hitem, hendpoint⟩)
      · omega
      · exact hholds.absent_iff.mp hfresh item hitem hendpoint
    exact ⟨_, by rw [applyOperation, reject_of_not _ hopen]; rfl⟩
  | remove endpoint =>
    obtain ⟨member, hmember, hendpoint⟩ := hholds.present_iff.mp happlies
    have hremoved : ¬(self.members.filter (·.endpoint ≠ endpoint)).length =
      self.members.length := by
      rw [List.length_filter_eq_length_iff]
      exact fun hkept => of_decide_eq_true (hkept member hmember) hendpoint
    exact ⟨_, by rw [applyOperation, reject_of_not _ hremoved]; rfl⟩
  | changeRole endpoint role =>
    obtain ⟨hpresent, hrole⟩ := happlies
    obtain ⟨old, hold⟩ := Option.ne_none_iff_exists'.mp hpresent
    rw [roster, tableOf, Option.map_eq_some_iff] at hold
    obtain ⟨member, hfind, rfl⟩ := hold
    have hother : ¬member.role = role := by
      rintro rfl
      exact hrole (by rw [roster, tableOf, hfind]; rfl)
    exact ⟨_, by
      rw [applyOperation, hfind]
      simp only [okOr, Except.ok_bind]
      rw [reject_of_not _ hother]
      rfl⟩

/-! ## Transitions -/

theorem encode_transition {self : GroupState} (hepoch : self.epoch < maxEpoch)
    (previousDigest author : FixedBytes 32) (operation : GroupOperation) :
    ∃ encoded,
      encode (self.transitionValue previousDigest author (operationRecord operation)) =
        .ok encoded := by
  have hdigest {depth : Nat} (hdepth : depth ≤ maxDepth) (digest : FixedBytes 32) :
      encodedLength depth (.bytes digest.toList) = .ok 34 :=
    (encodedLength_bytes hdepth (by simp [maxRawBytes])).trans (by simp [headLength])
  have hrole (role : MemberRole) : encodedLength 2 (.unsigned (roleValue role)) = .ok 1 := by
    cases role <;> rfl
  have hrecord : ∃ length, encodedLength 1 (operationRecord operation) = .ok length ∧
      length ≤ 40 := by
    have hthree : 3 ≤ maxCollectionItems := by decide
    have htwo : 2 ≤ maxCollectionItems := by decide
    cases operation with
    | add member =>
      exact ⟨40, encodedLength_map (by decide) hthree
        (entriesEncodedLength_cons (by decide) rfl (entriesEncodedLength_cons (by decide)
          (hdigest (by decide) _) (entriesEncodedLength_cons (by decide) (hrole _) rfl)))
        (by decide), by decide⟩
    | remove endpoint =>
      exact ⟨38, encodedLength_map (by decide) htwo
        (entriesEncodedLength_cons (by decide) rfl (entriesEncodedLength_cons (by decide)
          (hdigest (by decide) _) rfl)) (by decide), by decide⟩
    | changeRole endpoint role =>
      exact ⟨40, encodedLength_map (by decide) hthree
        (entriesEncodedLength_cons (by decide) rfl (entriesEncodedLength_cons (by decide)
          (hdigest (by decide) _) (entriesEncodedLength_cons (by decide) (hrole _) rfl)))
        (by decide), by decide⟩
  obtain ⟨length, hlength, hbound⟩ := hrecord
  have hnumber := encodedLength_unsigned (show 1 ≤ maxDepth by decide)
    (show self.epoch + 1 ≤ maxInteger from hepoch)
  have hfive : 5 ≤ maxCollectionItems := by decide
  have hhead := headLength_le (self.epoch + 1)
  refine ⟨_, encode_eq_ok.mpr ⟨⟨_, encodedLength_map (by decide) hfive
    (entriesEncodedLength_cons (by decide) (hdigest (by decide) _)
      (entriesEncodedLength_cons (by decide) (hdigest (by decide) _)
        (entriesEncodedLength_cons (by decide) hnumber
          (entriesEncodedLength_cons (by decide) (hdigest (by decide) _)
            (entriesEncodedLength_cons (by decide) hlength rfl))))) ?_⟩, rfl⟩⟩
  change 1 + 1 + 34 + 1 + 34 + 1 + headLength (self.epoch + 1) + 1 + 34 + 1 + length ≤
    maxEncodedBytes
  simp only [maxEncodedBytes]
  omega

section

variable {provider : Provider} {self : GroupState} {author : FixedBytes 32}
  {operation : GroupOperation}

theorem sorted_members {members : List Member} {roster : FixedBytes 32 → Option MemberRole}
    (h : Holds Member.endpoint Member.role members roster) :
    let sorted := members.mergeSort fun a b => a.endpoint.toList ≤ b.endpoint.toList
    (sorted.Pairwise fun a b => a.endpoint.toList < b.endpoint.toList) ∧
      Holds Member.endpoint Member.role sorted roster ∧ sorted.length = members.length := by
  have hranks : (members.map fun member => member.endpoint.toList).Nodup := by
    have hmap := h.nodup.map (f := List.Vector.toList) FixedBytes.toList_injective
    rwa [List.map_map] at hmap
  exact ⟨pairwise_lt_mergeSort hranks, h.perm (List.mergeSort_perm _ _), List.length_mergeSort _⟩

theorem transition_updates (h : self.validate = .ok ()) {next : GroupState}
    (happlied : self.applyTransition provider author operation = .ok next) :
    self.roster author = some .stateAuthority ∧ self.epoch < maxEpoch ∧ operation.Applies self ∧
      (∃ endpoint, operation.update self.roster endpoint = some .stateAuthority) ∧
      next.groupId = self.groupId ∧ next.epoch = self.epoch + 1 ∧
      (next.members.Pairwise fun a b => a.endpoint.toList < b.endpoint.toList) ∧
      Holds Member.endpoint Member.role next.members (operation.update self.roster) := by
  simp only [applyTransition, Except.bind_eq_ok, Except.pure_eq, Except.ok.injEq, Prod.exists,
    reject_eq_ok, not_not] at happlied
  obtain ⟨_, _, _, hauthor, members, record, hoperation, _, hepoch, previous, _, transition, _, _,
    hvalid, rfl⟩ := happlied
  obtain ⟨happlies, hholds, _⟩ := applyOperation_eq_ok h hoperation
  obtain ⟨hsorted, hlisted, _⟩ := sorted_members hholds
  obtain ⟨_, _, _, _, _, hauthority⟩ := validate_eq_ok.mp hvalid
  exact ⟨(author_iff (holds_roster h)).mp hauthor, not_lt.mp hepoch, happlies,
    (exists_member_iff hlisted).mp hauthority, rfl, rfl, hsorted, hlisted⟩

theorem transition_succeeds (h : self.validate = .ok ())
    (hauthor : self.roster author = some .stateAuthority) (hepoch : self.epoch < maxEpoch)
    (happlies : operation.Applies self)
    (hauthority : ∃ endpoint, operation.update self.roster endpoint = some .stateAuthority) :
    ∃ next, self.applyTransition provider author operation = .ok next := by
  obtain ⟨members, hoperation⟩ := applyOperation_of_applies h happlies
  obtain ⟨_, hholds, hbound⟩ := applyOperation_eq_ok h hoperation
  obtain ⟨hsorted, hlisted, hlength⟩ := sorted_members hholds
  obtain ⟨previous, hprevious⟩ := digest_total provider h
  obtain ⟨encoded, hencoded⟩ := encode_transition hepoch previous author operation
  obtain ⟨member, hmember, hrole⟩ := (exists_member_iff hlisted).mpr hauthority
  have hpresent : ¬¬∃ item ∈ self.members, item.endpoint = author ∧ item.role = .stateAuthority :=
    not_not.mpr ((author_iff (holds_roster h)).mpr hauthor)
  have hnext : ¬self.epoch + 1 > maxEpoch := by omega
  have hvalid : validate ⟨self.groupId, self.epoch + 1, some previous,
      members.mergeSort fun a b => a.endpoint.toList ≤ b.endpoint.toList,
      provider.sha256 (dGroupTransition ++ encoded)⟩ = .ok () := by
    refine validate_eq_ok.mpr ⟨List.ne_nil_of_mem hmember, hlength.trans_le hbound, hepoch, ?_,
      pairwise_endpoints.mpr hsorted, member, hmember, hrole⟩
    simp
  have htransition : Group.transitionDigest provider (self.transitionValue previous author
      (operationRecord operation)) = .ok (provider.sha256 (dGroupTransition ++ encoded)) := by
    rw [Group.transitionDigest, hencoded]
    rfl
  simp only [applyTransition, Except.bind_eq_ok, Prod.exists, Except.pure_eq, Except.ok.injEq]
  exact ⟨_, (), h, (), reject_of_not _ hpresent, members, _, hoperation, (), reject_of_not _ hnext,
    previous, hprevious, _, htransition, (), hvalid, rfl⟩

/-- A transition of a valid state succeeds exactly on the authorised updates of its roster, and
gives the sorted list of the updated roster. -/
theorem transition_is_roster_update (h : self.validate = .ok ()) :
    ((∃ next, self.applyTransition provider author operation = .ok next) ↔
      self.roster author = some .stateAuthority ∧ self.epoch < maxEpoch ∧
        operation.Applies self ∧
        ∃ endpoint, operation.update self.roster endpoint = some .stateAuthority) ∧
    ∀ next, self.applyTransition provider author operation = .ok next →
      next.groupId = self.groupId ∧ next.epoch = self.epoch + 1 ∧
      ∀ members : List Member, next.members = members ↔
        (members.Pairwise fun a b => a.endpoint.toList < b.endpoint.toList) ∧
        ∀ endpoint role, (⟨endpoint, role⟩ : Member) ∈ members ↔
          operation.update self.roster endpoint = some role := by
  refine ⟨⟨?_, ?_⟩, ?_⟩
  · rintro ⟨next, happlied⟩
    obtain ⟨hauthor, hepoch, happlies, hauthority, _⟩ := transition_updates h happlied
    exact ⟨hauthor, hepoch, happlies, hauthority⟩
  · rintro ⟨hauthor, hepoch, happlies, hauthority⟩
    exact transition_succeeds h hauthor hepoch happlies hauthority
  · intro next happlied
    obtain ⟨_, _, _, _, hgroup, hepoch, hsorted, hholds⟩ := transition_updates h happlied
    have hentry (endpoint : FixedBytes 32) (role : MemberRole) :
        (⟨endpoint, role⟩ : Member) ∈ next.members ↔
          operation.update self.roster endpoint = some role := by
      rw [hholds.entry]
      constructor
      · intro hmember
        exact ⟨_, hmember, rfl, rfl⟩
      · rintro ⟨member, hmember, rfl, rfl⟩
        exact hmember
    refine ⟨hgroup, hepoch, fun members => ⟨?_, ?_⟩⟩
    · rintro rfl
      exact ⟨hsorted, hentry⟩
    · rintro ⟨hsorted', hentry'⟩
      exact eq_of_pairwise_lt hsorted hsorted' fun member =>
        (hentry member.endpoint member.role).trans (hentry' member.endpoint member.role).symm

end

/-- The removal of the only other member. -/
theorem transition_is_roster_update_removal : pairState.validate = .ok () ∧
    ∃ next, pairState.applyTransition lengthProvider (.zero 32) removal = .ok next ∧
      next.epoch = 1 ∧ next.members = [⟨.zero 32, .stateAuthority⟩] := by
  have hvalid : pairState.validate = .ok () := by decide
  have hupdate := (@transition_is_roster_update lengthProvider _ (.zero 32) removal hvalid).2
    soleState pairState_removal
  exact ⟨hvalid, soleState, pairState_removal, hupdate.2.1, rfl⟩

end GroupState

end LicoArc
