import LicoArc.JsonOrder

/-!
# The order of UTF-16 names

Strings compare by their code points, canonical names by their UTF-16 code
units. The two orders agree except on names that first differ at a character
from U+E000 to U+FFFF and one beyond U+FFFF: the surrogates of the second come
before the first.
-/

namespace LicoArc

namespace Json

def codeUnits (c : Char) : List Nat :=
  if c.toNat < 0x10000 then [c.toNat]
  else [0xd800 + (c.toNat - 0x10000) / 0x400, 0xdc00 + (c.toNat - 0x10000) % 0x400]

/-- The first character is below the second, and its code unit above theirs. -/
def Straddles (a b : Char) : Prop := 0xe000 ≤ a.toNat ∧ a.toNat < 0x10000 ∧ 0x10000 ≤ b.toNat

/-- The first texts differ first at characters of which one code unit is above the others. -/
inductive Straddling : List Char → List Char → Prop
  | here {a b : Char} {as bs : List Char} (h : Straddles a b) : Straddling (a :: as) (b :: bs)
  | there {c : Char} {as bs : List Char} (h : Straddling as bs) : Straddling (c :: as) (c :: bs)

theorem Straddling.exists_mem {as bs : List Char} (h : Straddling as bs) :
    ∃ a ∈ as, 0xe000 ≤ a.toNat ∧ a.toNat < 0x10000 := by
  induction h with
  | here h => exact ⟨_, List.mem_cons_self, h.1, h.2.1⟩
  | there _ ih =>
    obtain ⟨a, ha, hrange⟩ := ih
    exact ⟨a, List.mem_cons_of_mem _ ha, hrange⟩

theorem toNat_not_surrogate (c : Char) : c.toNat < 0xd800 ∨ 0xe000 ≤ c.toNat := by
  rcases c.valid with h | h
  · exact .inl h
  · exact .inr (Nat.succ_le_of_lt h.1)

theorem toNat_lt_of_lt {a b : Char} (h : a < b) : a.toNat < b.toNat := h

theorem Straddles.lt {a b : Char} (h : Straddles a b) : a < b := by
  obtain ⟨_, ha, hb⟩ := h
  have hlt : a.toNat < b.toNat := by omega
  exact hlt

theorem codeUnits_lt {a b : Char} (h : a < b) (hstraddles : ¬Straddles a b) (as bs : List Nat) :
    codeUnits a ++ as < codeUnits b ++ bs := by
  have hlt := toNat_lt_of_lt h
  have ha := toNat_not_surrogate a
  unfold Straddles at hstraddles
  unfold codeUnits
  split_ifs with hsmall hsmall' hsmall'
  · exact List.cons_lt_cons_iff.mpr (.inl hlt)
  · exact List.cons_lt_cons_iff.mpr (.inl (by omega))
  · omega
  · simp only [List.cons_append, List.nil_append, List.cons_lt_cons_iff]
    omega

theorem codeUnits_gt {a b : Char} (h : Straddles a b) (as bs : List Nat) :
    codeUnits b ++ bs < codeUnits a ++ as := by
  obtain ⟨hlow, hsmall, hlarge⟩ := h
  have hb : b.toNat < 0x110000 := by
    rcases b.valid with h | h
    · exact h.trans (by decide)
    · exact h.2
  rw [codeUnits, codeUnits, if_neg (by omega), if_pos hsmall]
  exact List.cons_lt_cons_iff.mpr (.inl (by omega))

theorem Straddling.lt {as bs : List Char} (h : Straddling as bs) : as < bs := by
  induction h with
  | here h => exact List.cons_lt_cons_iff.mpr (.inl h.lt)
  | there _ ih => exact List.cons_lt_cons_iff.mpr (.inr ⟨rfl, ih⟩)

theorem Straddling.utf16_gt {as bs : List Char} (h : Straddling as bs) :
    bs.flatMap codeUnits < as.flatMap codeUnits := by
  induction h with
  | here h => exact codeUnits_gt h _ _
  | there _ ih => exact List.append_left_lt ih

theorem utf16_lt {as bs : List Char} (h : as < bs) (hstraddling : ¬Straddling as bs) :
    as.flatMap codeUnits < bs.flatMap codeUnits := by
  induction as generalizing bs with
  | nil =>
    cases bs with
    | nil => exact absurd h (List.lt_irrefl _)
    | cons b bs =>
      rw [List.flatMap_nil, List.flatMap_cons, codeUnits]
      split_ifs <;> exact List.nil_lt_cons _ _
  | cons a as ih =>
    cases bs with
    | nil => exact absurd h (List.not_lt_nil _)
    | cons b bs =>
      rcases List.cons_lt_cons_iff.mp h with hlt | ⟨rfl, hlt⟩
      · exact codeUnits_lt hlt (fun hhere => hstraddling (.here hhere)) _ _
      · exact List.append_left_lt (ih hlt fun hthere => hstraddling (.there hthere))

theorem pairwise_of_lt {names : List String} {R : String → String → Prop}
    (h : names.Pairwise (· < ·)) (hR : names.Pairwise R) {a b : String} (ha : a ∈ names)
    (hb : b ∈ names) (hlt : a < b) : R a b := by
  induction names with
  | nil => cases ha
  | cons name names ih =>
    obtain ⟨hfirst, hrest⟩ := List.pairwise_cons.mp h
    obtain ⟨hfirstR, hrestR⟩ := List.pairwise_cons.mp hR
    rcases List.mem_cons.mp ha with rfl | hlater
    · rcases List.mem_cons.mp hb with rfl | hlater'
      · exact absurd hlt (lt_irrefl _)
      · exact hfirstR b hlater'
    · rcases List.mem_cons.mp hb with rfl | hlater'
      · exact absurd (hfirst a hlater) (lt_asymm hlt)
      · exact ih hrest hrestR hlater hlater'

theorem sortEntries_eq_self {α : Type} {entries : List (String × α)}
    (h : (entries.map Prod.fst).Pairwise fun a b => encodeUtf16 a ≤ encodeUtf16 b) :
    sortEntries entries = entries := by
  rw [List.pairwise_map] at h
  exact h.insertionSort_eq

/-- Names in ascending order are in UTF-16 order where no two of them straddle. -/
theorem sortEntries_eq_self_iff {α : Type} {entries : List (String × α)}
    (h : (entries.map Prod.fst).Pairwise (· < ·)) :
    sortEntries entries = entries ↔ ∀ name ∈ entries.map Prod.fst, ∀ other ∈ entries.map Prod.fst,
      ¬Straddling name.toList other.toList := by
  constructor
  · intro hsorted name hname other hother hstraddling
    have hpairwise : (entries.map Prod.fst).Pairwise fun a b => encodeUtf16 a ≤ encodeUtf16 b := by
      rw [List.pairwise_map, ← hsorted]
      exact List.pairwise_insertionSort _ _
    have hlt : name < other := String.lt_iff_toList_lt.mpr hstraddling.lt
    exact absurd hstraddling.utf16_gt (not_lt.mpr (pairwise_of_lt h hpairwise hname hother hlt))
  · intro hnames
    refine sortEntries_eq_self (h.imp_of_mem fun hname hother hlt => le_of_lt ?_)
    exact utf16_lt (String.lt_iff_toList_lt.mp hlt) (hnames _ hname _ hother)

end Json

end LicoArc
