import LicoArc.Messaging

/-!
# Chunks of an attachment

The payload of a chunk has the length of its part of the content: every chunk
is full but the last, and together they tile the content.
-/

namespace LicoArc

/-! ## Tiles -/

namespace Tiles

/-- The length of a tile of content that is cut at the multiples of a width. -/
def length (width total index : Nat) : Nat := min width (total - width * index)

/-- The places of a tile. -/
def span (width total index : Nat) : Set Nat :=
  Set.Ico (width * index) (width * index + length width total index)

variable {width total index place : Nat}

theorem start_lt_iff (hwidth : 0 < width) :
    index < total ⌈/⌉ width ↔ width * index < total := by
  rw [← not_le, ceilDiv_le_iff_le_mul hwidth, not_le]

theorem end_le (h : width * index < total) : width * index + length width total index ≤ total := by
  rw [length]
  omega

/-- A place lies in the tile that its quotient numbers. -/
theorem mem_span_iff (hwidth : 0 < width) (hplace : place < total) :
    place ∈ span width total index ↔ index = place / width := by
  have hdivision := Nat.div_add_mod place width
  have hremainder := Nat.mod_lt place hwidth
  rw [span, Set.mem_Ico, length]
  constructor
  · rintro ⟨hlow, hhigh⟩
    refine le_antisymm ((Nat.le_div_iff_mul_le hwidth).mpr (by rwa [Nat.mul_comm])) ?_
    refine Nat.lt_add_one_iff.mp ((Nat.div_lt_iff_lt_mul hwidth).mpr ?_)
    have hnext : width * index + width = (index + 1) * width := by ring
    have hfull := min_le_left width (total - width * index)
    omega
  · rintro rfl
    omega

theorem span_subset (h : width * index < total) : span width total index ⊆ Set.Ico 0 total := by
  rintro place ⟨_, hhigh⟩
  exact ⟨Nat.zero_le _, hhigh.trans_le (end_le h)⟩

theorem iUnion_span (hwidth : 0 < width) :
    ⋃ index ∈ Set.Iio (total ⌈/⌉ width), span width total index = Set.Ico 0 total := by
  refine Set.Subset.antisymm (Set.iUnion₂_subset fun index hindex => ?_) ?_
  · exact span_subset ((start_lt_iff hwidth).mp hindex)
  · rintro place ⟨_, hplace⟩
    refine Set.mem_iUnion₂.mpr ⟨place / width, ?_, (mem_span_iff hwidth hplace).mpr rfl⟩
    rw [Set.mem_Iio, start_lt_iff hwidth]
    exact (Nat.mul_div_le place width).trans_lt hplace

theorem disjoint_span (hwidth : 0 < width) :
    (Set.Iio (total ⌈/⌉ width)).PairwiseDisjoint (span width total) := by
  intro index hindex other _ hne
  refine Set.disjoint_left.mpr fun place hplace hother => hne ?_
  have hlt := (span_subset ((start_lt_iff hwidth).mp hindex) hplace).2
  rw [(mem_span_iff hwidth hlt).mp hplace, (mem_span_iff hwidth hlt).mp hother]

theorem sum_length (width total count : Nat) :
    ∑ index ∈ Finset.range count, length width total index = min total (width * count) := by
  induction count with
  | zero => simp
  | succ count ih =>
    rw [Finset.sum_range_succ, ih, length, Nat.mul_succ]
    omega

theorem sum_lengths (hwidth : 0 < width) :
    ∑ index ∈ Finset.range (total ⌈/⌉ width), length width total index = total := by
  rw [sum_length, min_eq_left]
  exact (ceilDiv_le_iff_le_mul hwidth).mp le_rfl

end Tiles

/-! ## Chunks -/

namespace Messaging

def attachmentChunkBytes : Nat := 65536
def maxAttachmentChunks : Nat := 128

def checkedAdd (a b : Nat) : Option Nat := if a + b < 2 ^ 64 then some (a + b) else none

def checkedMul (a b : Nat) : Option Nat := if a * b < 2 ^ 64 then some (a * b) else none

def chunkCount (byteLength : Nat) : Except Error Nat := do
  let padded ← okOr (.validation .boundExceeded) (checkedAdd byteLength (attachmentChunkBytes - 1))
  return padded / attachmentChunkBytes

/-- Everything up to the offset of the chunk. -/
def chunkOffset (byteLength chunkIndex : Nat) : Except Error Nat := do
  let count ← chunkCount byteLength
  reject (count > maxAttachmentChunks ∨ chunkIndex ≥ count) (.validation .boundExceeded)
  okOr (.validation .boundExceeded) (checkedMul chunkIndex attachmentChunkBytes)

def validateAttachmentChunk (byteLength chunkIndex payloadLength : Nat) : Except Error Unit := do
  let offset ← chunkOffset byteLength chunkIndex
  let expected := min attachmentChunkBytes (byteLength - offset)
  reject (payloadLength ≠ expected) (.validation .invalidRepresentation)

variable {byteLength chunkIndex payloadLength count offset : Nat}

theorem checkedAdd_eq_some {a b c : Nat} :
    checkedAdd a b = some c ↔ a + b < 2 ^ 64 ∧ c = a + b := by
  rw [checkedAdd, Option.ite_none_right_eq_some, Option.some.injEq, eq_comm (a := c)]

theorem checkedMul_eq_some {a b c : Nat} :
    checkedMul a b = some c ↔ a * b < 2 ^ 64 ∧ c = a * b := by
  rw [checkedMul, Option.ite_none_right_eq_some, Option.some.injEq, eq_comm (a := c)]

theorem chunkCount_eq_ok : chunkCount byteLength = .ok count ↔
    byteLength + 65535 < 2 ^ 64 ∧ count = byteLength ⌈/⌉ attachmentChunkBytes := by
  have hceil : (byteLength + (attachmentChunkBytes - 1)) / attachmentChunkBytes =
      byteLength ⌈/⌉ attachmentChunkBytes := by
    rw [Nat.ceilDiv_eq_add_pred_div]
    rfl
  simp only [chunkCount, Except.bind_eq_ok, okOr_eq_ok, checkedAdd_eq_some, Except.pure_eq,
    Except.ok.injEq]
  constructor
  · rintro ⟨_, ⟨hlt, rfl⟩, rfl⟩
    exact ⟨hlt, hceil⟩
  · rintro ⟨hlt, rfl⟩
    exact ⟨_, ⟨hlt, rfl⟩, hceil⟩

theorem checkedMul_of_lt (hcount : count ≤ maxAttachmentChunks) (hindex : chunkIndex < count) :
    checkedMul chunkIndex attachmentChunkBytes = some (chunkIndex * attachmentChunkBytes) := by
  refine checkedMul_eq_some.mpr ⟨?_, rfl⟩
  have hbound := Nat.mul_le_mul_right attachmentChunkBytes (hindex.le.trans hcount)
  exact hbound.trans_lt (by decide)

theorem chunkOffset_eq_ok : chunkOffset byteLength chunkIndex = .ok offset ↔
    byteLength ≤ 8388608 ∧ chunkIndex < byteLength ⌈/⌉ attachmentChunkBytes ∧
      offset = attachmentChunkBytes * chunkIndex := by
  have hsmall : byteLength ⌈/⌉ attachmentChunkBytes ≤ maxAttachmentChunks ↔
      byteLength ≤ 8388608 := ceilDiv_le_iff_le_mul (by decide)
  simp only [chunkOffset, Except.bind_eq_ok, chunkCount_eq_ok, reject_eq_ok, okOr_eq_ok,
    checkedMul_eq_some, exists_const, not_or, not_lt, not_le, gt_iff_lt, ge_iff_le]
  constructor
  · rintro ⟨_, ⟨_, rfl⟩, ⟨hcount, hindex⟩, _, rfl⟩
    exact ⟨hsmall.mp hcount, hindex, Nat.mul_comm _ _⟩
  · rintro ⟨hlength, hindex, rfl⟩
    have hcount := hsmall.mpr hlength
    have hproduct := checkedMul_eq_some.mp (checkedMul_of_lt hcount hindex)
    exact ⟨_, ⟨by omega, rfl⟩, ⟨hcount, hindex⟩, hproduct.1, Nat.mul_comm _ _⟩

theorem chunkOffset_lt (h : chunkOffset byteLength chunkIndex = .ok offset) :
    offset < byteLength := by
  obtain ⟨_, hindex, rfl⟩ := chunkOffset_eq_ok.mp h
  exact (Tiles.start_lt_iff (by decide)).mp hindex

theorem validateAttachmentChunk_eq_ok (hlength : byteLength ≤ 8388608) :
    validateAttachmentChunk byteLength chunkIndex payloadLength = .ok () ↔
      chunkIndex < byteLength ⌈/⌉ attachmentChunkBytes ∧
        payloadLength = Tiles.length attachmentChunkBytes byteLength chunkIndex := by
  simp only [validateAttachmentChunk, Except.bind_eq_ok, chunkOffset_eq_ok, reject_eq_ok, not_not]
  constructor
  · rintro ⟨_, ⟨_, hindex, rfl⟩, hpayload⟩
    exact ⟨hindex, hpayload⟩
  · rintro ⟨hindex, hpayload⟩
    exact ⟨_, ⟨hlength, hindex, rfl⟩, hpayload⟩

/-- The indices and payload lengths that are accepted. -/
def acceptedChunks (byteLength : Nat) : Set (Nat × Nat) :=
  { chunk | validateAttachmentChunk byteLength chunk.1 chunk.2 = .ok () }

/-- The places that a chunk fills. -/
def places (chunk : Nat × Nat) : Set Nat :=
  Set.Ico (65536 * chunk.1) (65536 * chunk.1 + chunk.2)

theorem mem_acceptedChunks (hlength : byteLength ≤ 8388608) {chunk : Nat × Nat} :
    chunk ∈ acceptedChunks byteLength ↔ chunk.1 < byteLength ⌈/⌉ attachmentChunkBytes ∧
      chunk.2 = Tiles.length attachmentChunkBytes byteLength chunk.1 :=
  validateAttachmentChunk_eq_ok hlength

theorem iUnion_places (hlength : byteLength ≤ 8388608) :
    ⋃ chunk ∈ acceptedChunks byteLength, places chunk = Set.Ico 0 byteLength := by
  rw [← @Tiles.iUnion_span attachmentChunkBytes byteLength (by decide)]
  ext place
  simp only [Set.mem_iUnion₂, mem_acceptedChunks hlength]
  constructor
  · rintro ⟨⟨index, payload⟩, ⟨hindex, hpayload⟩, hplace⟩
    rw [places, hpayload] at hplace
    exact ⟨index, hindex, hplace⟩
  · rintro ⟨index, hindex, hplace⟩
    exact ⟨(index, _), ⟨hindex, rfl⟩, hplace⟩

theorem disjoint_places (hlength : byteLength ≤ 8388608) :
    (acceptedChunks byteLength).PairwiseDisjoint places := by
  intro chunk hchunk other hother hne
  obtain ⟨hindex, hpayload⟩ := (mem_acceptedChunks hlength).mp hchunk
  obtain ⟨hindex', hpayload'⟩ := (mem_acceptedChunks hlength).mp hother
  have hspan := @Tiles.disjoint_span attachmentChunkBytes byteLength (by decide) chunk.1 hindex
    other.1 hindex' fun heq => hne (Prod.ext heq (by rw [hpayload, hpayload', heq]))
  rw [Function.onFun, places, places, hpayload, hpayload']
  exact hspan

theorem attachment_bounded {message : Message} (h : message.validate = .ok ()) :
    ∀ attachment ∈ message.attachments, attachment.byteLength ≤ 8388608 := by
  simp only [Message.validate, Except.bind_eq_ok, reject_eq_ok, exists_const, not_exists, not_and,
    not_lt, gt_iff_lt] at h
  obtain ⟨_, _, _, _, _, _, _, hattachments, _⟩ := h
  exact hattachments

/-- The chunks of an attachment that a message may name tile its content, one for each index, and
no length or index makes the offset overflow or the subtraction underflow. -/
theorem attachment_chunks_tile :
    (∀ byteLength chunkIndex : Nat,
      (∀ count, chunkCount byteLength = .ok count → count ≤ 128 → chunkIndex < count →
        checkedMul chunkIndex 65536 = some (chunkIndex * 65536)) ∧
      ∀ offset, chunkOffset byteLength chunkIndex = .ok offset → offset ≤ byteLength) ∧
    ∀ message : Message, message.validate = .ok () → ∀ attachment ∈ message.attachments,
      (∀ chunkIndex payloadLength,
        validateAttachmentChunk attachment.byteLength chunkIndex payloadLength = .ok () →
          chunkIndex < attachment.byteLength ⌈/⌉ 65536) ∧
      (∀ chunkIndex < attachment.byteLength ⌈/⌉ 65536, ∃! payloadLength,
        validateAttachmentChunk attachment.byteLength chunkIndex payloadLength = .ok ()) ∧
      ⋃ chunk ∈ acceptedChunks attachment.byteLength, places chunk =
        Set.Ico 0 attachment.byteLength ∧
      (acceptedChunks attachment.byteLength).PairwiseDisjoint places ∧
      ∃ payloads : Nat → Nat,
        (∀ chunkIndex < attachment.byteLength ⌈/⌉ 65536,
          (chunkIndex, payloads chunkIndex) ∈ acceptedChunks attachment.byteLength) ∧
        ∑ chunkIndex ∈ Finset.range (attachment.byteLength ⌈/⌉ 65536), payloads chunkIndex =
          attachment.byteLength := by
  refine ⟨fun byteLength chunkIndex => ⟨?_, fun offset hoffset => (chunkOffset_lt hoffset).le⟩, ?_⟩
  · intro count _ hcount hindex
    exact checkedMul_of_lt hcount hindex
  · intro message hvalid attachment hattachment
    have hlength := attachment_bounded hvalid attachment hattachment
    have haccepted {chunkIndex payloadLength : Nat} :=
      @validateAttachmentChunk_eq_ok attachment.byteLength chunkIndex payloadLength hlength
    refine ⟨fun chunkIndex payloadLength h => (haccepted.mp h).1, fun chunkIndex hindex => ?_,
      iUnion_places hlength, disjoint_places hlength, Tiles.length 65536 attachment.byteLength,
      fun chunkIndex hindex => haccepted.mpr ⟨hindex, rfl⟩, Tiles.sum_lengths (by decide)⟩
    exact ⟨_, haccepted.mpr ⟨hindex, rfl⟩, fun payloadLength h => (haccepted.mp h).2⟩

end Messaging

end LicoArc
