import LicoArc.EncodingLaws

/-!
# Maps with given labels

A decoded map is compared with the entries that a record prints: the map is
those entries where it has as many and holds each of them. The length of an
encoded map is the sum over its entries.
-/

namespace LicoArc

namespace Encoding

def Ascending (entries : List (Nat × CborValue)) : Prop :=
  entries.Pairwise fun first second => first.1 < second.1

theorem wellFormed_map {entries : List (Nat × CborValue)} :
    WellFormed (.map entries) ↔ Ascending entries ∧ ∀ entry ∈ entries, WellFormed entry.2 := by
  rw [WellFormed, wellFormedEntries_iff, List.pairwise_map, Ascending]

theorem mem_of_lookupEntry {key : Nat} {value : CborValue} {entries : List (Nat × CborValue)}
    (h : lookupEntry key entries = some value) : (key, value) ∈ entries := by
  induction entries with
  | nil => cases h
  | cons entry entries ih =>
    obtain ⟨first, other⟩ := entry
    rw [lookupEntry] at h
    split at h
    · rename_i hkey
      rw [hkey, Option.some.inj h]
      exact List.mem_cons_self
    · exact List.mem_cons_of_mem _ (ih h)

theorem lookupEntry_of_mem {key : Nat} {value : CborValue} {entries : List (Nat × CborValue)}
    (hascending : Ascending entries) (h : (key, value) ∈ entries) :
    lookupEntry key entries = some value := by
  induction entries with
  | nil => cases h
  | cons entry entries ih =>
    obtain ⟨first, other⟩ := entry
    obtain ⟨hfirst, hrest⟩ := List.pairwise_cons.mp hascending
    rw [lookupEntry]
    rcases List.mem_cons.mp h with heq | hmem
    · cases heq
      rw [if_pos rfl]
    · have hlt : first < key := hfirst _ hmem
      rw [if_neg hlt.ne', ih hrest hmem]

theorem Ascending.nodup {entries : List (Nat × CborValue)} (h : Ascending entries) :
    entries.Nodup :=
  h.imp fun hlt heq => absurd (heq ▸ hlt) (lt_irrefl _)

theorem Ascending.eq_of_perm {entries others : List (Nat × CborValue)}
    (hentries : Ascending entries) (hothers : Ascending others) (h : entries.Perm others) :
    entries = others := by
  have hantisymm : ∀ a b : Nat × CborValue, a ∈ entries → b ∈ others → a.1 < b.1 → b.1 < a.1 →
      a = b := fun _ _ _ _ hlt hgt => absurd hgt (not_lt.mpr hlt.le)
  exact List.Perm.eq_of_pairwise hantisymm hentries hothers h

/-- A map that holds the given entries and no more of them is those entries. -/
theorem eq_of_lookupEntry {entries printed : List (Nat × CborValue)}
    (hascending : Ascending entries) (hprinted : Ascending printed)
    (hlength : entries.length ≤ printed.length)
    (h : ∀ entry ∈ printed, lookupEntry entry.1 entries = some entry.2) : entries = printed := by
  have hsubset : printed ⊆ entries := fun entry hentry => mem_of_lookupEntry (h entry hentry)
  exact hascending.eq_of_perm hprinted
    ((hprinted.nodup.subperm hsubset).perm_of_length_le hlength).symm

theorem Ascending.ext {entries others : List (Nat × CborValue)} (hentries : Ascending entries)
    (hothers : Ascending others) (h : ∀ key, lookupEntry key entries = lookupEntry key others) :
    entries = others := by
  refine hentries.eq_of_perm hothers
    ((List.perm_ext_iff_of_nodup hentries.nodup hothers.nodup).mpr fun entry => ?_)
  constructor
  · intro hmem
    exact mem_of_lookupEntry ((h entry.1).symm.trans (lookupEntry_of_mem hentries hmem))
  · intro hmem
    exact mem_of_lookupEntry ((h entry.1).trans (lookupEntry_of_mem hothers hmem))

/-! ## Removing and joining -/

theorem lookupEntry_removeEntry_ne {key other : Nat} (h : key ≠ other)
    (entries : List (Nat × CborValue)) :
    lookupEntry key (removeEntry other entries) = lookupEntry key entries := by
  induction entries with
  | nil => rfl
  | cons entry entries ih =>
    obtain ⟨first, value⟩ := entry
    by_cases hfirst : first = other
    · rw [removeEntry, List.filter_cons_of_neg (by simpa using hfirst), lookupEntry,
        if_neg (hfirst ▸ h)]
      exact ih
    · rw [removeEntry, List.filter_cons_of_pos (by simpa using hfirst), lookupEntry, lookupEntry]
      split
      · rfl
      · exact ih

theorem removeEntry_of_none {key : Nat} {entries : List (Nat × CborValue)}
    (h : lookupEntry key entries = none) : removeEntry key entries = entries := by
  induction entries with
  | nil => rfl
  | cons entry entries ih =>
    obtain ⟨first, value⟩ := entry
    rw [lookupEntry] at h
    split at h
    · cases h
    · rename_i hkey
      rw [removeEntry, List.filter_cons_of_pos (by simpa using Ne.symm hkey)]
      exact congrArg _ (ih h)

theorem lookupEntry_append (key : Nat) (entries others : List (Nat × CborValue)) :
    lookupEntry key (entries ++ others) = (lookupEntry key entries).or
    (lookupEntry key others) := by
  induction entries with
  | nil => rfl
  | cons entry entries ih =>
    rw [List.cons_append, lookupEntry, lookupEntry]
    split
    · rfl
    · exact ih

/-! ## Lengths -/

theorem encodedLength_fixed {depth n : Nat} (hdepth : depth ≤ maxDepth) (hn : n ≤ maxRawBytes)
    (value : FixedBytes n) :
    encodedLength depth (.bytes value.toList) = .ok (headLength n + n) := by
  have h := @encodedLength_bytes depth value.toList hdepth (by rwa [List.Vector.toList_length])
  rwa [List.Vector.toList_length] at h

theorem encodedLength_sized {depth n : Nat} {value : Bytes} (hvalue : value.length = n)
    (hdepth : depth ≤ maxDepth) (hn : n ≤ maxRawBytes) :
    encodedLength depth (.bytes value) = .ok (headLength n + n) := by
  subst hvalue
  exact encodedLength_bytes hdepth hn

theorem entriesEncodedLength_of_forall₂ {depth start : Nat} {entries : List (Nat × CborValue)}
    {sizes : List Nat} (hlabels : ∀ entry ∈ entries, entry.1 ≤ 23)
    (h : List.Forall₂ (fun entry size => encodedLength (depth + 1) entry.2 = .ok size) entries
      sizes) :
    entriesEncodedLength depth start entries = .ok (start + entries.length + sizes.sum) := by
  induction h generalizing start with
  | nil => rfl
  | cons hentry _ ih =>
    rw [List.forall_mem_cons] at hlabels
    refine entriesEncodedLength_cons hlabels.1 hentry ((ih hlabels.2).trans ?_)
    rw [List.length_cons, List.sum_cons]
    congr 1
    omega

theorem encodedLength_map_of_forall₂ {depth : Nat} {entries : List (Nat × CborValue)}
    {sizes : List Nat} (hdepth : depth ≤ maxDepth) (hcount : entries.length ≤ maxCollectionItems)
    (hlabels : ∀ entry ∈ entries, entry.1 ≤ 23)
    (h : List.Forall₂ (fun entry size => encodedLength (depth + 1) entry.2 = .ok size) entries
      sizes)
    (hbound : headLength entries.length + entries.length + sizes.sum ≤ maxEncodedBytes) :
    encodedLength depth (.map entries) =
      .ok (headLength entries.length + entries.length + sizes.sum) :=
  encodedLength_map hdepth hcount (entriesEncodedLength_of_forall₂ hlabels h) hbound

end Encoding

end LicoArc
