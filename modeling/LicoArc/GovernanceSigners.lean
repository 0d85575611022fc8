import LicoArc.GovernanceLaws
import Mathlib.Data.Finset.Card
import Mathlib.Data.List.Dedup

/-!
# The signers behind a role

The role threshold counts triples of root, key and role. What it says about
keys depends on whether a key stands under one root or under several.
-/

namespace LicoArc

namespace Governance

/-- The triples that the threshold of a role counts. -/
def counted (role : Role) (authorizations : List Authorization) : List Authorization :=
  (authorizations.filter (·.role = role)).dedup

def countedUnder (role : Role) (authorizations : List Authorization) (root : FixedBytes 16) :
    List Authorization :=
  (counted role authorizations).filter (·.root = root)

def signers (role : Role) (authorizations : List Authorization) : Finset (FixedBytes 16) :=
  ((counted role authorizations).map Authorization.key).toFinset

def signersUnder (role : Role) (authorizations : List Authorization) (root : FixedBytes 16) :
    Finset (FixedBytes 16) :=
  ((countedUnder role authorizations root).map Authorization.key).toFinset

structure Quorum (role : Role) (authorizations : List Authorization) : Prop where
  bounded : authorizations.length ≤ roleCount * maxSignaturesPerRole
  boundedRole : (authorizations.filter (·.role = role)).length ≤ maxSignaturesPerRole
  four : 4 ≤ (counted role authorizations).length
  roots : 2 ≤ ((((counted role authorizations).map Authorization.root).dedup.filter
    fun root => 2 ≤ (countedUnder role authorizations root).length)).length

/-- Four keys, two roots with two keys each, and no key counted twice. -/
structure DistinctSigners (role : Role) (authorizations : List Authorization) : Prop where
  four : 4 ≤ (signers role authorizations).card
  roots : ∃ first second, first ≠ second ∧ 2 ≤ (signersUnder role authorizations first).card ∧
    2 ≤ (signersUnder role authorizations second).card
  once (key : FixedBytes 16) : (counted role authorizations).countP (·.key = key) ≤ 1

def KeysUnderOneRoot (role : Role) (authorizations : List Authorization) : Prop :=
  ∀ first ∈ authorizations, ∀ second ∈ authorizations, first.role = role → second.role = role →
    first.key = second.key → first.root = second.root

variable {role : Role} {authorizations : List Authorization} {entry : Authorization}

theorem mem_counted :
    entry ∈ counted role authorizations ↔ entry ∈ authorizations ∧ entry.role = role := by
  simp [counted]

theorem counted_nodup (role : Role) (authorizations : List Authorization) :
    (counted role authorizations).Nodup :=
  List.nodup_dedup _

theorem validateRoleThreshold_eq_ok :
    validateRoleThreshold role authorizations = .ok () ↔ Quorum role authorizations := by
  simp only [validateRoleThreshold, Except.bind_eq_ok, reject_eq_ok, exists_const, not_or, not_lt]
  constructor
  · intro h
    exact ⟨h.1.1, h.1.2, h.2.1, h.2.2.2⟩
  · intro h
    have hroots := h.roots.trans (List.length_filter_le _ _)
    exact ⟨⟨h.bounded, h.boundedRole⟩, h.four, hroots, h.roots⟩

theorem KeysUnderOneRoot.key_inj (h : KeysUnderOneRoot role authorizations) :
    ∀ first ∈ counted role authorizations, ∀ second ∈ counted role authorizations,
      first.key = second.key → first = second := by
  intro first hfirst second hsecond hkey
  rw [mem_counted] at hfirst hsecond
  have hroot := h first hfirst.1 second hsecond.1 hfirst.2 hsecond.2 hkey
  have hrole : first.role = second.role := hfirst.2.trans hsecond.2.symm
  cases first
  cases second
  simp_all

theorem KeysUnderOneRoot.card_keys (h : KeysUnderOneRoot role authorizations)
    {entries : List Authorization} (hentries : entries.Sublist (counted role authorizations)) :
    (entries.map Authorization.key).toFinset.card = entries.length := by
  have hnodup : (entries.map Authorization.key).Nodup := by
    apply List.Nodup.map_on
    · intro first hfirst second hsecond
      exact h.key_inj first (hentries.subset hfirst) second (hentries.subset hsecond)
    · exact (counted_nodup role authorizations).sublist hentries
  rw [List.toFinset_card_of_nodup hnodup, List.length_map]

theorem KeysUnderOneRoot.once (h : KeysUnderOneRoot role authorizations) (key : FixedBytes 16) :
    (counted role authorizations).countP (·.key = key) ≤ 1 := by
  rw [List.countP_eq_length_filter, ← h.card_keys List.filter_sublist, Finset.card_le_one]
  intro first hfirst second hsecond
  simp only [List.mem_toFinset, List.mem_map, List.mem_filter, decide_eq_true_eq] at hfirst hsecond
  obtain ⟨_, ⟨_, hkey⟩, rfl⟩ := hfirst
  obtain ⟨_, ⟨_, hkey'⟩, rfl⟩ := hsecond
  exact hkey.trans hkey'.symm

theorem Quorum.two_roots (h : Quorum role authorizations) :
    ∃ first second, first ≠ second ∧ 2 ≤ (countedUnder role authorizations first).length ∧
      2 ≤ (countedUnder role authorizations second).length := by
  have hnodup := (List.nodup_dedup ((counted role authorizations).map Authorization.root)).filter
    fun root => 2 ≤ (countedUnder role authorizations root).length
  have hcard := h.roots
  rw [← List.toFinset_card_of_nodup hnodup] at hcard
  obtain ⟨first, hfirst, second, hsecond, hne⟩ := Finset.one_lt_card.mp hcard
  simp only [List.mem_toFinset, List.mem_filter, decide_eq_true_eq] at hfirst hsecond
  exact ⟨first, second, hne, hfirst.2, hsecond.2⟩

theorem Quorum.distinctSigners (h : Quorum role authorizations)
    (hkeys : KeysUnderOneRoot role authorizations) : DistinctSigners role authorizations where
  four := h.four.trans (hkeys.card_keys (List.Sublist.refl _)).ge
  roots := by
    obtain ⟨first, second, hne, hfirst, hsecond⟩ := h.two_roots
    exact ⟨first, second, hne, hfirst.trans (hkeys.card_keys List.filter_sublist).ge,
      hsecond.trans (hkeys.card_keys List.filter_sublist).ge⟩
  once := hkeys.once

theorem DistinctSigners.keysUnderOneRoot (h : DistinctSigners role authorizations) :
    KeysUnderOneRoot role authorizations := by
  intro first hfirst second hsecond hrole hrole' hkey
  have hmem : first ∈ (counted role authorizations).filter (·.key = second.key) := by
    simp [mem_counted, hfirst, hrole, hkey]
  have hmem' : second ∈ (counted role authorizations).filter (·.key = second.key) := by
    simp [mem_counted, hsecond, hrole']
  have hlength := h.once second.key
  rw [List.countP_eq_length_filter] at hlength
  have heq : first = second := by
    cases hentries : (counted role authorizations).filter (·.key = second.key) with
    | nil => simp [hentries] at hmem
    | cons entry rest =>
      have hrest : rest = [] := by
        rw [hentries, List.length_cons] at hlength
        exact List.length_eq_zero_iff.mp (by omega)
      rw [hentries, hrest, List.mem_singleton] at hmem hmem'
      exact hmem.trans hmem'.symm
  rw [heq]

/-- The threshold counts keys exactly where no key of the role stands under two roots. -/
theorem role_threshold_iff (role : Role) (authorizations : List Authorization) :
    (validateRoleThreshold role authorizations = .ok () → DistinctSigners role authorizations) ↔
      (Quorum role authorizations → KeysUnderOneRoot role authorizations) := by
  rw [validateRoleThreshold_eq_ok]
  constructor
  · intro h hquorum
    exact (h hquorum).keysUnderOneRoot
  · intro h hquorum
    exact hquorum.distinctSigners (h hquorum)

/-- Two keys, each under both roots. -/
def twoKeys : List Authorization :=
  [⟨.replicate 16 1, .replicate 16 7, .membership⟩, ⟨.replicate 16 1, .replicate 16 8, .membership⟩,
    ⟨.replicate 16 2, .replicate 16 7, .membership⟩,
    ⟨.replicate 16 2, .replicate 16 8, .membership⟩]

theorem two_keys_meet_threshold :
    ¬∀ role authorizations, validateRoleThreshold role authorizations = .ok () →
      DistinctSigners role authorizations := by
  intro h
  have hsigners := h .membership twoKeys (by decide +kernel)
  exact absurd hsigners.four (by decide +kernel)

end Governance

end LicoArc
