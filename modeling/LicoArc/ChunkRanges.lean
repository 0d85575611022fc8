import LicoArc.ClosedRecords
import LicoArc.EntryMaps
import LicoArc.Messaging
import LicoArc.RangeLists
import LicoArc.State

/-!
# Chunk ranges

The requested chunks of a receive state and the retransmitted chunks of a
reliable record are canonical range lists. Two loops check them, with limits of
their own.
-/

namespace LicoArc

open Encoding (lookupEntry)

open Messaging

namespace Reliable

open Transport (closedMap unsigned)

def maxSafeInteger : Nat := 9007199254740991
def maxAttachmentRetransmittedChunks : Nat := 256

def validateRangeValues : (previousEnd : Option Nat) → (retransmittedChunks : Nat) →
    List CborValue → Except Error Unit
  | _, _, [] => .ok ()
  | previousEnd, retransmittedChunks, range :: ranges => do
    let values ← closedMap range 1 [0, 1]
    let start ← unsigned (lookupEntry 0 values)
    let stop ← unsigned (lookupEntry 1 values)
    reject (start > maxSafeInteger ∨ stop > maxSafeInteger ∨ start ≥ stop ∨
      previousEnd.any (start ≤ ·)) (.validation .invalidRepresentation)
    let retransmittedChunks := retransmittedChunks + (stop - start)
    reject (retransmittedChunks > maxAttachmentRetransmittedChunks) (.validation .boundExceeded)
    validateRangeValues (some stop) retransmittedChunks ranges

def validateChunkRanges : CborValue → Except Error Unit
  | .array ranges => do
    reject (ranges.length > 32) (.validation .boundExceeded)
    validateRangeValues none 0 ranges
  | _ => .error (.validation .invalidRepresentation)

end Reliable

namespace Messaging

def ChunkRange.pair (self : ChunkRange) : Nat × Nat := (self.start, self.stop)

def ChunkRange.value (self : ChunkRange) : CborValue :=
  .map [(0, .unsigned self.start), (1, .unsigned self.stop)]

def pairs (ranges : List ChunkRange) : List (Nat × Nat) := ranges.map ChunkRange.pair

def rangesValue (ranges : List ChunkRange) : CborValue := .array (ranges.map ChunkRange.value)

def coveredChunks (ranges : List ChunkRange) : Finset Nat := RangeList.covered (pairs ranges)

variable {ranges before after : List ChunkRange} {range : ChunkRange}

theorem pairs_injective : Function.Injective pairs :=
  List.map_injective_iff.mpr fun a b h => by
    cases a
    cases b
    cases h
    rfl

theorem value_injective : Function.Injective ChunkRange.value := by
  intro a b h
  cases a
  cases b
  cases h
  rfl

theorem exists_pairs (list : List (Nat × Nat)) : ∃ ranges, pairs ranges = list := by
  refine ⟨list.map fun pair => ⟨pair.1, pair.2⟩, ?_⟩
  rw [pairs, List.map_map]
  exact List.map_id _

theorem pairs_cons : pairs (range :: ranges) = range.pair :: pairs ranges := rfl

theorem pairs_append : pairs (before ++ after) = pairs before ++ pairs after := List.map_append

def Beyond (previousEnd : Option Nat) (ranges : List ChunkRange) : Prop :=
  ∀ previous ∈ previousEnd, ∀ range ∈ ranges, previous < range.start

theorem canonical_pairs_cons {previousEnd : Option Nat} :
    RangeList.Canonical (pairs (range :: ranges)) ∧ Beyond previousEnd (range :: ranges) ↔
      (range.start < range.stop ∧ ∀ previous ∈ previousEnd, previous < range.start) ∧
        RangeList.Canonical (pairs ranges) ∧ Beyond (some range.stop) ranges := by
  have hgap : (∀ next ∈ pairs ranges, range.stop < next.1) ↔ Beyond (some range.stop) ranges := by
    simp [Beyond, pairs, ChunkRange.pair]
  rw [pairs_cons, RangeList.canonical_cons, ← hgap]
  constructor
  · rintro ⟨⟨hpositive, hnext, hcanonical⟩, hbeyond⟩
    exact ⟨⟨hpositive, fun previous hprevious =>
      hbeyond previous hprevious range List.mem_cons_self⟩, hcanonical, hnext⟩
  · rintro ⟨⟨hpositive, hprevious⟩, hcanonical, hnext⟩
    refine ⟨⟨hpositive, hnext, hcanonical⟩, fun previous hmem => ?_⟩
    rw [List.forall_mem_cons]
    refine ⟨hprevious previous hmem, fun next hnextmem => ?_⟩
    have hfirst := hprevious previous hmem
    have hlater := hgap.mp hnext _ rfl next hnextmem
    omega

theorem size_pairs_cons : RangeList.size (pairs (range :: ranges)) =
    range.stop - range.start + RangeList.size (pairs ranges) := RangeList.size_cons

theorem beyond_none : Beyond none ranges := nofun

/-- The end that the loops hold after some ranges. -/
def lastEnd (previousEnd : Option Nat) (ranges : List ChunkRange) : Option Nat :=
  ranges.foldl (fun _ range => some range.stop) previousEnd

end Messaging

/-! ## Receive states -/

namespace ReceiveState

variable {ranges before after : List ChunkRange} {previousEnd : Option Nat} {covered : Nat}

theorem validateRanges_eq_ok (hcovered : covered ≤ maxRequestedChunks) :
    validateRanges covered previousEnd ranges = .ok () ↔
      (RangeList.Canonical (pairs ranges) ∧ Beyond previousEnd ranges) ∧
        covered + RangeList.size (pairs ranges) ≤ maxRequestedChunks := by
  induction ranges generalizing covered previousEnd with
  | nil => exact iff_of_true rfl ⟨⟨RangeList.canonical_nil, fun _ _ => nofun⟩, hcovered⟩
  | cons range ranges ih =>
    have hprevious : previousEnd.any (range.start ≤ ·) = false ↔
        ∀ previous ∈ previousEnd, previous < range.start := by
      cases previousEnd <;> simp
    simp only [validateRanges, Except.bind_eq_ok, reject_eq_ok, exists_const, not_or, not_le,
      not_lt, gt_iff_lt, ge_iff_le, Bool.not_eq_true, hprevious]
    rw [canonical_pairs_cons, size_pairs_cons, ← Nat.add_assoc]
    constructor
    · rintro ⟨hrange, hroom, hrest⟩
      obtain ⟨hcanonical, hsize⟩ := (ih hroom).mp hrest
      exact ⟨⟨hrange, hcanonical⟩, hsize⟩
    · rintro ⟨⟨hrange, hcanonical⟩, hsize⟩
      have hroom := (Nat.le_add_right _ _).trans hsize
      exact ⟨hrange, hroom, (ih hroom).mpr ⟨hcanonical, hsize⟩⟩

theorem validateRanges_append : validateRanges covered previousEnd (before ++ after) = (do
    validateRanges covered previousEnd before
    validateRanges (covered + RangeList.size (pairs before)) (lastEnd previousEnd before)
      after) := by
  induction before generalizing covered previousEnd with
  | nil => rfl
  | cons range before ih =>
    rw [List.cons_append, validateRanges, validateRanges, size_pairs_cons, ← Nat.add_assoc]
    simp only [ih, bind_assoc]
    rfl

end ReceiveState

/-! ## Reliable records -/

namespace Reliable

open Transport (closedMap unsigned)

variable {ranges before after : List ChunkRange} {values : List CborValue}
  {previousEnd : Option Nat} {covered : Nat}

theorem value_wellFormed (range : ChunkRange) : Encoding.WellFormed range.value := by
  simp [ChunkRange.value, Encoding.WellFormed, Encoding.WellFormedEntries]

theorem readsRange_iff {value : CborValue} (hwell : Encoding.WellFormed value)
    {range : ChunkRange} :
    (∃ entries, closedMap value 1 [0, 1] = .ok entries ∧
      unsigned (lookupEntry 0 entries) = .ok range.start ∧
      unsigned (lookupEntry 1 entries) = .ok range.stop) ↔ value = range.value := by
  simp only [closedMap_eq_ok, unsigned_eq_ok]
  constructor
  · rintro ⟨entries, ⟨rfl, hlabels, _⟩, hstart, hstop⟩
    have hascending := (Encoding.wellFormed_map.mp hwell).1
    refine congrArg CborValue.map (hascending.ext ?_ fun key => ?_)
    · simp [Encoding.Ascending]
    · by_cases hkey : key ≤ 1
      · interval_cases key
        · exact hstart
        · exact hstop
      · have hnone : lookupEntry key entries = none := by
          cases hfound : lookupEntry key entries with
          | none => rfl
          | some found => exact absurd (hlabels _ (Encoding.mem_of_lookupEntry hfound)) hkey
        rw [hnone, lookupEntry, if_neg (by omega), lookupEntry, if_neg (by omega), lookupEntry]
  · rintro rfl
    exact ⟨_, ⟨rfl, by simp, by simp [lookupEntry]⟩, rfl, rfl⟩

theorem validateRangeValues_eq_ok (hwell : ∀ value ∈ values, Encoding.WellFormed value)
    (hcovered : covered ≤ maxAttachmentRetransmittedChunks) :
    validateRangeValues previousEnd covered values = .ok () ↔
      ∃ ranges : List ChunkRange, values = ranges.map ChunkRange.value ∧
        (RangeList.Canonical (pairs ranges) ∧ Beyond previousEnd ranges) ∧
        (∀ range ∈ ranges, range.stop ≤ maxSafeInteger) ∧
        covered + RangeList.size (pairs ranges) ≤ maxAttachmentRetransmittedChunks := by
  induction values generalizing covered previousEnd with
  | nil =>
    refine iff_of_true rfl ⟨[], rfl, ⟨RangeList.canonical_nil, fun _ _ => nofun⟩, nofun, hcovered⟩
  | cons value values ih =>
    rw [List.forall_mem_cons] at hwell
    have hprevious (start : Nat) : previousEnd.any (start ≤ ·) = false ↔
        ∀ previous ∈ previousEnd, previous < start := by
      cases previousEnd <;> simp
    simp only [validateRangeValues, Except.bind_eq_ok, reject_eq_ok, exists_const, not_or, not_le,
      not_lt, gt_iff_lt, ge_iff_le, Bool.not_eq_true, hprevious]
    constructor
    · rintro ⟨entries, hentries, start, hstart, stop, hstop, ⟨_, hsafe, hpositive, hbeyond⟩, hroom,
        hrest⟩
      obtain ⟨ranges, rfl, hcanonical, hsafes, hsize⟩ := (ih hwell.2 hroom).mp hrest
      have hvalue := (@readsRange_iff value hwell.1 ⟨start, stop⟩).mp
        ⟨entries, hentries, hstart, hstop⟩
      refine ⟨⟨start, stop⟩ :: ranges, by rw [hvalue, List.map_cons],
        canonical_pairs_cons.mpr ⟨⟨hpositive, hbeyond⟩, hcanonical⟩,
        List.forall_mem_cons.mpr ⟨hsafe, hsafes⟩, ?_⟩
      rw [size_pairs_cons, ← Nat.add_assoc]
      exact hsize
    · rintro ⟨ranges, hvalues, hcanonical, hsafe, hsize⟩
      cases ranges with
      | nil => cases hvalues
      | cons range ranges =>
        rw [List.map_cons, List.cons.injEq] at hvalues
        obtain ⟨hvalue, rfl⟩ := hvalues
        obtain ⟨⟨hpositive, hbeyond⟩, hcanonical⟩ := canonical_pairs_cons.mp hcanonical
        obtain ⟨hsafe, hsafes⟩ := List.forall_mem_cons.mp hsafe
        obtain ⟨entries, hentries, hstart, hstop⟩ := (readsRange_iff hwell.1).mpr hvalue
        rw [size_pairs_cons, ← Nat.add_assoc] at hsize
        have hroom := (Nat.le_add_right _ _).trans hsize
        exact ⟨entries, hentries, _, hstart, _, hstop,
          ⟨hpositive.le.trans hsafe, hsafe, hpositive, hbeyond⟩, hroom,
          (ih hwell.2 hroom).mpr ⟨ranges, rfl, hcanonical, hsafes, hsize⟩⟩

theorem validateRangeValues_append : validateRangeValues previousEnd covered
    ((before ++ after).map ChunkRange.value) = (do
      validateRangeValues previousEnd covered (before.map ChunkRange.value)
      validateRangeValues (lastEnd previousEnd before)
        (covered + RangeList.size (pairs before)) (after.map ChunkRange.value)) := by
  induction before generalizing covered previousEnd with
  | nil => rfl
  | cons range before ih =>
    obtain ⟨entries, hentries, hstart, hstop⟩ :=
      (readsRange_iff (value_wellFormed range)).mpr rfl
    rw [List.cons_append, List.map_cons, validateRangeValues, List.map_cons, validateRangeValues,
      hentries, size_pairs_cons, ← Nat.add_assoc]
    simp only [Except.ok_bind, hstart, hstop, ih, bind_assoc]
    rfl

end Reliable

/-! ## Canonical lists -/

open Reliable

namespace Messaging

variable {ranges : List ChunkRange}

def Requested (ranges : List ChunkRange) : Prop :=
  ∃ state : ReceiveState, state.ranges = ranges ∧ state.validate = .ok ()

def Retransmitted (ranges : List ChunkRange) : Prop :=
  validateChunkRanges (rangesValue ranges) = .ok ()

theorem requested_iff : Requested ranges ↔ RangeList.Canonical (pairs ranges) ∧
    ranges.length ≤ 32 ∧ RangeList.size (pairs ranges) ≤ 128 := by
  have hloop := @ReceiveState.validateRanges_eq_ok ranges none 0 (Nat.zero_le _)
  rw [Nat.zero_add, and_iff_left beyond_none] at hloop
  constructor
  · rintro ⟨state, rfl, hvalid⟩
    simp only [ReceiveState.validate, Except.bind_eq_ok, reject_eq_ok, exists_const, not_or,
      not_lt, gt_iff_lt] at hvalid
    obtain ⟨⟨hlength, _⟩, _, hranges, _⟩ := hvalid
    obtain ⟨hcanonical, hsize⟩ := hloop.mp hranges
    exact ⟨hcanonical, hlength, hsize⟩
  · rintro ⟨hcanonical, hlength, hsize⟩
    have hranges := hloop.mpr ⟨hcanonical, hsize⟩
    refine ⟨⟨.replicate 16 0, ranges, 0, if ranges.isEmpty then .complete else .pending, none, 0⟩,
      rfl, ?_⟩
    have hbound : ¬(ranges.length > maxRequestRanges ∨ 0 > maxStateUpdate ∨ 0 > maxRecoveryRound ∨
        Option.any (fun code : Nat => decide (code > 14)) none = true) := by
      simpa [maxRequestRanges] using hlength
    rw [ReceiveState.validate, reject_of_not _ hbound, hranges]
    simp only [Except.ok_bind]
    refine reject_of_not _ ?_
    cases ranges <;> simp

theorem retransmitted_iff : Retransmitted ranges ↔ RangeList.Canonical (pairs ranges) ∧
    ranges.length ≤ 32 ∧ (∀ range ∈ ranges, range.stop ≤ maxSafeInteger) ∧
      RangeList.size (pairs ranges) ≤ 256 := by
  have hwell : ∀ value ∈ ranges.map ChunkRange.value, Encoding.WellFormed value := by
    intro value hvalue
    obtain ⟨range, _, rfl⟩ := List.mem_map.mp hvalue
    exact value_wellFormed range
  simp only [Retransmitted, rangesValue, validateChunkRanges, Except.bind_eq_ok, reject_eq_ok,
    exists_const, not_lt, gt_iff_lt, List.length_map,
    @validateRangeValues_eq_ok _ none 0 hwell (Nat.zero_le _), Nat.zero_add]
  constructor
  · rintro ⟨hlength, others, hothers, ⟨hcanonical, _⟩, hsafe, hsize⟩
    obtain rfl := List.map_injective_iff.mpr value_injective hothers
    exact ⟨hcanonical, hlength, hsafe, hsize⟩
  · rintro ⟨hcanonical, hlength, hsafe, hsize⟩
    exact ⟨hlength, ranges, rfl, ⟨hcanonical, beyond_none⟩, hsafe, hsize⟩

theorem exists_ranges {value : CborValue} (hwell : Encoding.WellFormed value)
    (h : validateChunkRanges value = .ok ()) : ∃ ranges, value = rangesValue ranges := by
  cases value with
  | array values =>
    rw [Encoding.WellFormed, Encoding.wellFormedItems_iff] at hwell
    simp only [validateChunkRanges, Except.bind_eq_ok, reject_eq_ok, exists_const,
      @validateRangeValues_eq_ok _ none 0 hwell (Nat.zero_le _)] at h
    obtain ⟨_, ranges, rfl, _⟩ := h
    exact ⟨ranges, rfl⟩
  | null | bool | unsigned | bytes | text | map => cases h

theorem Requested.count {before after : List ChunkRange} (h : Requested (before ++ after)) :
    (coveredChunks before).card ≤ 128 ∧
      ReceiveState.validateRanges 0 none (before ++ after) =
        ReceiveState.validateRanges (coveredChunks before).card (lastEnd none before) after := by
  obtain ⟨hcanonical, _, hsize⟩ := requested_iff.mp h
  rw [pairs_append] at hcanonical hsize
  rw [RangeList.size_append] at hsize
  have hcard : (coveredChunks before).card = RangeList.size (pairs before) := hcanonical.left.card
  have hbound : 0 + RangeList.size (pairs before) ≤ maxRequestedChunks := by
    rw [maxRequestedChunks]
    omega
  have hbefore := (@ReceiveState.validateRanges_eq_ok before none 0 (Nat.zero_le _)).mpr
    ⟨⟨hcanonical.left, beyond_none⟩, hbound⟩
  refine ⟨by omega, ?_⟩
  rw [ReceiveState.validateRanges_append, hbefore, Nat.zero_add, hcard]
  rfl

theorem Retransmitted.count {before after : List ChunkRange} (h : Retransmitted (before ++ after)) :
    (coveredChunks before).card ≤ 256 ∧
      validateRangeValues none 0 ((before ++ after).map ChunkRange.value) =
        validateRangeValues (lastEnd none before) (coveredChunks before).card
          (after.map ChunkRange.value) := by
  obtain ⟨hcanonical, _, hsafe, hsize⟩ := retransmitted_iff.mp h
  rw [pairs_append] at hcanonical hsize
  rw [RangeList.size_append] at hsize
  have hcard : (coveredChunks before).card = RangeList.size (pairs before) := hcanonical.left.card
  have hbound : 0 + RangeList.size (pairs before) ≤ maxAttachmentRetransmittedChunks := by
    rw [maxAttachmentRetransmittedChunks]
    omega
  have hwell : ∀ value ∈ before.map ChunkRange.value, Encoding.WellFormed value := by
    intro value hvalue
    obtain ⟨range, _, rfl⟩ := List.mem_map.mp hvalue
    exact value_wellFormed range
  have hbefore := (@validateRangeValues_eq_ok _ none 0 hwell (Nat.zero_le _)).mpr
    ⟨before, rfl, ⟨hcanonical.left, beyond_none⟩,
      fun range hrange => hsafe range (List.mem_append_left _ hrange), hbound⟩
  refine ⟨by omega, ?_⟩
  rw [validateRangeValues_append, hbefore, Nat.zero_add, hcard]
  rfl

/-- A set of few intervals has a canonical list of as many ranges. -/
theorem exists_ranges_of_chunks (chunks : Finset Nat) : ∃ ranges,
    RangeList.Canonical (pairs ranges) ∧ coveredChunks ranges = chunks ∧
      ranges.length = (RangeList.starts chunks).card ∧
      RangeList.size (pairs ranges) = chunks.card ∧
      ∀ range ∈ ranges, 0 < range.stop ∧ range.stop - 1 ∈ chunks := by
  obtain ⟨list, hcanonical, rfl⟩ := RangeList.exists_canonical chunks
  obtain ⟨ranges, rfl⟩ := exists_pairs list
  refine ⟨ranges, hcanonical, rfl, ?_, hcanonical.card.symm, fun range hrange => ?_⟩
  · rw [hcanonical.length, pairs, List.length_map]
  · have hmem : range.pair ∈ pairs ranges := List.mem_map_of_mem hrange
    exact ⟨(Nat.zero_le _).trans_lt (hcanonical.positive _ hmem), hcanonical.last_mem hmem⟩

/-- The accepted range lists are the canonical lists of the sets of chunks within the limits, and
the loops hold the number of chunks so far. -/
theorem chunk_ranges_canonical :
    ((∀ a b, Requested a → Requested b → coveredChunks a = coveredChunks b → a = b) ∧
      (∀ a b, Retransmitted a → Retransmitted b → coveredChunks a = coveredChunks b → a = b) ∧
      ∀ value, Encoding.WellFormed value → validateChunkRanges value = .ok () →
        ∃ ranges, value = rangesValue ranges) ∧
    (∀ before after : List ChunkRange,
      (Requested (before ++ after) → (coveredChunks before).card ≤ 128 ∧
        ReceiveState.validateRanges 0 none (before ++ after) =
          ReceiveState.validateRanges (coveredChunks before).card (lastEnd none before) after) ∧
      (Retransmitted (before ++ after) → (coveredChunks before).card ≤ 256 ∧
        validateRangeValues none 0 ((before ++ after).map ChunkRange.value) =
          validateRangeValues (lastEnd none before) (coveredChunks before).card
            (after.map ChunkRange.value))) ∧
    (∀ chunks : Finset Nat, (RangeList.starts chunks).card ≤ 32 →
      (chunks.card ≤ 128 → ∃ ranges, Requested ranges ∧ coveredChunks ranges = chunks ∧
        ((∀ n ∈ chunks, n < 2 ^ 64 - 1) → ∀ range ∈ ranges, range.stop < 2 ^ 64)) ∧
      (chunks.card ≤ 256 → (∀ n ∈ chunks, n < maxSafeInteger) →
        ∃ ranges, Retransmitted ranges ∧ coveredChunks ranges = chunks)) ∧
    ∀ ranges, (coveredChunks ranges).card ≤ 128 → (∀ range ∈ ranges, range.stop ≤ maxSafeInteger) →
      (Requested ranges ↔ Retransmitted ranges) := by
  refine ⟨⟨?_, ?_, fun value => exists_ranges⟩, fun before after => ⟨fun h => h.count,
    fun h => h.count⟩, fun chunks hintervals => ⟨fun hcard => ?_, fun hcard hsafe => ?_⟩,
    fun ranges hcard hsafe => ?_⟩
  · intro a b ha hb hsame
    exact pairs_injective ((requested_iff.mp ha).1.ext (requested_iff.mp hb).1 hsame)
  · intro a b ha hb hsame
    exact pairs_injective ((retransmitted_iff.mp ha).1.ext (retransmitted_iff.mp hb).1 hsame)
  · obtain ⟨ranges, hcanonical, hcovered, hlength, hsize, hends⟩ := exists_ranges_of_chunks chunks
    refine ⟨ranges, requested_iff.mpr ⟨hcanonical, hlength.trans_le hintervals,
      hsize.trans_le hcard⟩, hcovered, fun hwidth range hrange => ?_⟩
    have hlast := hwidth _ (hends range hrange).2
    omega
  · obtain ⟨ranges, hcanonical, hcovered, hlength, hsize, hends⟩ := exists_ranges_of_chunks chunks
    refine ⟨ranges, retransmitted_iff.mpr ⟨hcanonical, hlength.trans_le hintervals,
      fun range hrange => ?_, hsize.trans_le hcard⟩, hcovered⟩
    have hlast := hsafe _ (hends range hrange).2
    omega
  · rw [requested_iff, retransmitted_iff]
    constructor
    · rintro ⟨hcanonical, hlength, hsize⟩
      exact ⟨hcanonical, hlength, hsafe, hsize.trans (by decide)⟩
    · rintro ⟨hcanonical, hlength, _, _⟩
      exact ⟨hcanonical, hlength, hcanonical.card.symm.trans_le hcard⟩

end Messaging

end LicoArc
