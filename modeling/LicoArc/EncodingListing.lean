import LicoArc.EncodingLaws

/-!
# What the decoder reads, the order of the maps aside

A byte string that the decoder reads to its end lists one value, whose maps have
their entries in the order of the bytes. The value that the decoder returns is
the listing with its maps sorted, and its encoding is as long as the input.
-/

namespace LicoArc

/-! ## Integers and heads -/

theorem fromBigEndian_append (bytes : Bytes) (byte : UInt8) :
    fromBigEndian (bytes ++ [byte]) = fromBigEndian bytes * 256 + byte.toNat := by
  rw [fromBigEndian, List.foldl_append]
  rfl

theorem fromBigEndian_cons (byte : UInt8) (bytes : Bytes) :
    fromBigEndian (byte :: bytes) = byte.toNat * 256 ^ bytes.length + fromBigEndian bytes := by
  induction bytes using List.reverseRecOn with
  | nil => simp [fromBigEndian]
  | append_singleton bytes last ih =>
    rw [← List.cons_append, fromBigEndian_append, ih, fromBigEndian_append, List.length_append,
      List.length_singleton, pow_succ]
    ring

theorem fromBigEndian_lt (bytes : Bytes) : fromBigEndian bytes < 256 ^ bytes.length := by
  induction bytes with
  | nil => decide
  | cons byte bytes ih =>
    have hbyte : byte.toNat + 1 ≤ 256 := byte.toNat_lt
    rw [fromBigEndian_cons, List.length_cons, pow_succ']
    calc byte.toNat * 256 ^ bytes.length + fromBigEndian bytes
        < (byte.toNat + 1) * 256 ^ bytes.length := by rw [Nat.succ_mul]; omega
      _ ≤ 256 * 256 ^ bytes.length := Nat.mul_le_mul_right _ hbyte

theorem bigEndian_add (width value high : Nat) :
    bigEndian width (high * 256 ^ width + value) = bigEndian width value := by
  induction width generalizing high with
  | zero => rfl
  | succ width ih =>
    rw [bigEndian, bigEndian, pow_succ', ← Nat.mul_assoc, ih]
    rw [Nat.mul_comm (high * 256), Nat.mul_add_div (by positivity)]
    congr 1
    rw [← UInt8.toNat_inj]
    simp

theorem bigEndian_fromBigEndian (bytes : Bytes) :
    bigEndian bytes.length (fromBigEndian bytes) = bytes := by
  induction bytes with
  | nil => rfl
  | cons byte bytes ih =>
    rw [fromBigEndian_cons, List.length_cons, bigEndian, bigEndian_add, ih,
      Nat.mul_comm, Nat.mul_add_div (by positivity), Nat.div_eq_of_lt (fromBigEndian_lt bytes)]
    simp

namespace Encoding

open Decoder

set_option maxRecDepth 4000 in
theorem initial_split : ∀ i : Fin 256,
    (UInt8.ofNat i >>> 5) <<< 5 ||| (UInt8.ofNat i &&& 0x1f) = UInt8.ofNat i ∧
      UInt8.ofNat i &&& 0x1f ≤ 31 := by
  decide

theorem initial_eq (initial : UInt8) :
    (initial >>> 5) <<< 5 ||| (initial &&& 0x1f) = initial := by
  simpa using (initial_split ⟨initial.toNat, initial.toNat_lt⟩).1

theorem slice_eq_ok {length : Nat} {input bytes rest : Bytes} :
    slice length input = .ok (bytes, rest) ↔ input = bytes ++ rest ∧ bytes.length = length := by
  simp only [slice]
  constructor
  · intro h
    split at h
    · next hle =>
      cases h
      exact ⟨(List.take_append_drop length input).symm, List.length_take_of_le hle⟩
    · cases h
  · intro h
    obtain ⟨rfl, rfl⟩ := h
    rw [if_pos (by rw [List.length_append]; omega), List.take_left, List.drop_left]

theorem wideArgument_eq_ok {width above value : Nat} {input rest : Bytes}
    (h : wideArgument width above input = .ok (value, rest)) :
    above < value ∧ value < 256 ^ width ∧ input = bigEndian width value ++ rest := by
  simp only [wideArgument, Except.bind_eq_ok, Prod.exists, slice_eq_ok, reject_eq_ok,
    Except.pure_eq, Except.ok.injEq, Prod.mk.injEq, not_le] at h
  obtain ⟨array, tail, ⟨rfl, rfl⟩, _, habove, rfl, rfl⟩ := h
  exact ⟨habove, fromBigEndian_lt array, by rw [bigEndian_fromBigEndian]⟩

/-- The decoder admits the shortest form of an argument only. -/
theorem head_of_argument {initial : UInt8} {value : Nat} {tail rest : Bytes}
    (h : argument (initial &&& 0x1f) tail = .ok (value, rest)) :
    initial :: tail = head (initial >>> 5) value ++ rest ∧ value < 256 ^ 8 := by
  have hinitial := initial_eq initial
  generalize initial &&& 0x1f = additional at h hinitial
  simp only [argument] at h
  split_ifs at h with h23 h24 h25 h26 h27
  · cases h
    have hle : additional.toNat ≤ 23 := UInt8.le_iff_toNat_le.mp h23
    refine ⟨?_, by omega⟩
    rw [head, if_pos hle]
    simp [hinitial]
  · obtain ⟨habove, hlt, rfl⟩ := wideArgument_eq_ok h
    subst h24
    refine ⟨?_, by omega⟩
    rw [head, if_neg (by omega), if_pos (by omega), hinitial]
    simp [bigEndian]
  · obtain ⟨habove, hlt, rfl⟩ := wideArgument_eq_ok h
    subst h25
    refine ⟨?_, by omega⟩
    rw [head, if_neg (by omega), if_neg (by omega), if_pos (by omega), hinitial]
    rfl
  · obtain ⟨habove, hlt, rfl⟩ := wideArgument_eq_ok h
    subst h26
    refine ⟨?_, by omega⟩
    rw [head, if_neg (by omega), if_neg (by omega), if_neg (by omega), if_pos (by omega), hinitial]
    rfl
  · obtain ⟨habove, hlt, rfl⟩ := wideArgument_eq_ok h
    subst h27
    refine ⟨?_, hlt⟩
    rw [head, if_neg (by omega), if_neg (by omega), if_neg (by omega), if_neg (by omega), hinitial]
    rfl

theorem head_inj {major major' : Fin 8} {value value' : Nat} {rest rest' : Bytes}
    (hvalue : value < 256 ^ 8) (hvalue' : value' < 256 ^ 8)
    (h : head (UInt8.ofNat major) value ++ rest = head (UInt8.ofNat major') value' ++ rest') :
    major = major' ∧ value = value' ∧ rest = rest' := by
  obtain ⟨initial, tail, hhead, hmajor, hargument⟩ := argument_head major hvalue rest
  obtain ⟨initial', tail', hhead', hmajor', hargument'⟩ := argument_head major' hvalue' rest'
  rw [hhead, hhead', List.cons_append, List.cons_append, List.cons.injEq] at h
  obtain ⟨rfl, htail⟩ := h
  rw [htail, hargument', Except.ok.injEq, Prod.mk.injEq] at hargument
  have hmajors := congrArg UInt8.toNat (hmajor.symm.trans hmajor')
  have hlt := major.isLt
  have hlt' := major'.isLt
  simp only [UInt8.toNat_ofNat'] at hmajors
  exact ⟨Fin.ext (by omega), hargument.1.symm, hargument.2.symm⟩

/-! ## Limits -/

/-- The limits of a value and of its parts, with the nesting levels that may still be opened. -/
def Limited : (levels : Nat) → CborValue → Prop
  | 0, _ => False
  | _ + 1, .null | _ + 1, .bool _ => True
  | _ + 1, .unsigned value => value ≤ maxInteger
  | _ + 1, .bytes value => value.length ≤ maxRawBytes
  | _ + 1, .text value => (textBytes value).length ≤ maxTextBytes
  | levels + 1, .array values =>
    values.length ≤ maxCollectionItems ∧ ∀ value ∈ values, Limited levels value
  | levels + 1, .map entries => entries.length ≤ maxCollectionItems ∧
      ∀ entry ∈ entries, entry.1 ≤ maxInteger ∧ Limited levels entry.2

theorem collectionEncodedLength_eq {depth levels : Nat}
    (hvalue : ∀ value, Limited levels value → (encodeInto value).length ≤ maxEncodedBytes →
      encodedLength (depth + 1) value = .ok (encodeInto value).length)
    {values : List CborValue} (h : ∀ value ∈ values, Limited levels value)
    (hsize : (encodeItems values).length ≤ maxEncodedBytes) (start : Nat) :
    collectionEncodedLength depth start values = .ok (start + (encodeItems values).length) := by
  induction values generalizing start with
  | nil => rfl
  | cons value values ih =>
    rw [encodeItems, List.length_append] at hsize ⊢
    have hfirst := hvalue value (h value List.mem_cons_self) (by omega)
    have hrest := ih (fun value hmem => h value (List.mem_cons_of_mem _ hmem)) (by omega)
      (start + (encodeInto value).length)
    rw [collectionEncodedLength, hfirst, Except.ok_bind, hrest, Nat.add_assoc]

theorem entriesEncodedLength_eq {depth levels : Nat}
    (hvalue : ∀ value, Limited levels value → (encodeInto value).length ≤ maxEncodedBytes →
      encodedLength (depth + 1) value = .ok (encodeInto value).length)
    {entries : List (Nat × CborValue)}
    (h : ∀ entry ∈ entries, entry.1 ≤ maxInteger ∧ Limited levels entry.2)
    (hsize : (encodeEntries entries).length ≤ maxEncodedBytes) (start : Nat) :
    entriesEncodedLength depth start entries = .ok (start + (encodeEntries entries).length) := by
  induction entries generalizing start with
  | nil => rfl
  | cons entry entries ih =>
    obtain ⟨key, value⟩ := entry
    rw [encodeEntries, List.length_append, List.length_append, head_length] at hsize ⊢
    obtain ⟨hkey, hlimited⟩ := h _ List.mem_cons_self
    have hfirst := hvalue value hlimited (by omega)
    have hrest := ih (fun entry hmem => h entry (List.mem_cons_of_mem _ hmem)) (by omega)
      (start + headLength key + (encodeInto value).length)
    rw [entriesEncodedLength, reject_of_not _ (Nat.not_lt.mpr hkey), Except.ok_bind, hfirst,
      Except.ok_bind, hrest]
    congr 1
    omega

/-- Within the limits, the predicted length is the written one. -/
theorem encodedLength_eq {levels : Nat} : ∀ {depth : Nat} (value : CborValue),
    Limited levels value → depth + levels = maxDepth + 1 →
      (encodeInto value).length ≤ maxEncodedBytes →
      encodedLength depth value = .ok (encodeInto value).length := by
  induction levels with
  | zero => exact fun _ h => absurd h id
  | succ levels ih =>
    intro depth value h hdepth hsize
    have hdeep : ¬depth > maxDepth := by omega
    have hpart : ∀ value, Limited levels value → (encodeInto value).length ≤ maxEncodedBytes →
        encodedLength (depth + 1) value = .ok (encodeInto value).length :=
      fun value hvalue => ih value hvalue (by omega)
    cases value with
    | null | bool _ => rw [encodedLength, if_neg hdeep]; rfl
    | unsigned value =>
      rw [Limited] at h
      rw [encodeInto, head_length] at hsize ⊢
      rw [encodedLength, if_neg (by omega)]
      exact withinEncodedBytes_eq_ok.mpr ⟨hsize, rfl⟩
    | bytes value | text value =>
      rw [Limited] at h
      rw [encodeInto, List.length_append, head_length] at hsize ⊢
      rw [encodedLength, if_neg (by omega)]
      exact withinEncodedBytes_eq_ok.mpr ⟨hsize, rfl⟩
    | array values =>
      rw [Limited] at h
      rw [encodeInto, List.length_append, head_length] at hsize ⊢
      rw [encodedLength, if_neg (by omega),
        collectionEncodedLength_eq hpart h.2 (by omega), Except.ok_bind]
      exact withinEncodedBytes_eq_ok.mpr ⟨hsize, rfl⟩
    | map entries =>
      rw [Limited] at h
      rw [encodeInto, List.length_append, head_length] at hsize ⊢
      rw [encodedLength, if_neg (by omega), entriesEncodedLength_eq hpart h.2 (by omega),
        Except.ok_bind]
      exact withinEncodedBytes_eq_ok.mpr ⟨hsize, rfl⟩

theorem limited_of_collection {depth levels : Nat}
    (hvalue : ∀ value length, encodedLength (depth + 1) value = .ok length → Limited levels value)
    {values : List CborValue} {start length : Nat}
    (h : collectionEncodedLength depth start values = .ok length) :
    ∀ value ∈ values, Limited levels value := by
  induction values generalizing start with
  | nil => exact nofun
  | cons value values ih =>
    simp only [collectionEncodedLength, Except.bind_eq_ok] at h
    obtain ⟨k, hfirst, hrest⟩ := h
    exact List.forall_mem_cons.mpr ⟨hvalue value k hfirst, ih hrest⟩

theorem limited_of_entries {depth levels : Nat}
    (hvalue : ∀ value length, encodedLength (depth + 1) value = .ok length → Limited levels value)
    {entries : List (Nat × CborValue)} {start length : Nat}
    (h : entriesEncodedLength depth start entries = .ok length) :
    ∀ entry ∈ entries, entry.1 ≤ maxInteger ∧ Limited levels entry.2 := by
  induction entries generalizing start with
  | nil => exact nofun
  | cons entry entries ih =>
    obtain ⟨key, value⟩ := entry
    simp only [entriesEncodedLength, Except.bind_eq_ok, reject_eq_ok] at h
    obtain ⟨_, hkey, k, hfirst, hrest⟩ := h
    exact List.forall_mem_cons.mpr ⟨⟨not_lt.mp hkey, hvalue value k hfirst⟩, ih hrest⟩

theorem limited_of_encodedLength {levels : Nat} :
    ∀ {depth : Nat} (value : CborValue) (length : Nat), depth + levels = maxDepth + 1 →
      encodedLength depth value = .ok length →
      Limited levels value := by
  induction levels with
  | zero =>
    intro depth value length hdepth h
    have hdeep := depth_of_encodedLength h
    omega
  | succ levels ih =>
    intro depth value length hdepth h
    have hpart : ∀ value length, encodedLength (depth + 1) value = .ok length →
        Limited levels value := fun value length => ih value length (by omega)
    cases value with
    | null | bool _ => trivial
    | unsigned _ | bytes _ | text _ =>
      simp only [encodedLength] at h
      split at h
      · cases h
      · next hbound => exact not_lt.mp (not_or.mp hbound).2
    | array values =>
      simp only [encodedLength] at h
      split at h
      · cases h
      · next hbound =>
        obtain ⟨k, hvalues, _⟩ := Except.bind_eq_ok.mp h
        exact ⟨not_lt.mp (not_or.mp hbound).2, limited_of_collection hpart hvalues⟩
    | map entries =>
      simp only [encodedLength] at h
      split at h
      · cases h
      · next hbound =>
        obtain ⟨k, hentries, _⟩ := Except.bind_eq_ok.mp h
        exact ⟨not_lt.mp (not_or.mp hbound).2, limited_of_entries hpart hentries⟩

/-! ## A text lists one value -/

theorem items_inj {levels : Nat}
    (hvalue : ∀ a b : CborValue, Limited levels a → Limited levels b → ∀ rest rest' : Bytes,
      encodeInto a ++ rest = encodeInto b ++ rest' → a = b ∧ rest = rest')
    {as bs : List CborValue} (has : ∀ a ∈ as, Limited levels a) (hbs : ∀ b ∈ bs, Limited levels b)
    (hlength : as.length = bs.length) {rest rest' : Bytes}
    (h : encodeItems as ++ rest = encodeItems bs ++ rest') : as = bs ∧ rest = rest' := by
  induction as generalizing bs with
  | nil =>
    cases List.length_eq_zero_iff.mp hlength.symm
    exact ⟨rfl, h⟩
  | cons a as ih =>
    cases bs with
    | nil => cases hlength
    | cons b bs =>
      obtain ⟨ha, hothers⟩ := List.forall_mem_cons.mp has
      obtain ⟨hb, hothers'⟩ := List.forall_mem_cons.mp hbs
      rw [encodeItems, encodeItems, List.append_assoc, List.append_assoc] at h
      obtain ⟨rfl, htail⟩ := hvalue a b ha hb _ _ h
      obtain ⟨rfl, hrest⟩ := ih hothers hothers' (Nat.succ.inj hlength) htail
      exact ⟨rfl, hrest⟩

theorem entries_inj {levels : Nat}
    (hvalue : ∀ a b : CborValue, Limited levels a → Limited levels b → ∀ rest rest' : Bytes,
      encodeInto a ++ rest = encodeInto b ++ rest' → a = b ∧ rest = rest')
    {as bs : List (Nat × CborValue)}
    (has : ∀ a ∈ as, a.1 ≤ maxInteger ∧ Limited levels a.2)
    (hbs : ∀ b ∈ bs, b.1 ≤ maxInteger ∧ Limited levels b.2) (hlength : as.length = bs.length)
    {rest rest' : Bytes} (h : encodeEntries as ++ rest = encodeEntries bs ++ rest') :
    as = bs ∧ rest = rest' := by
  induction as generalizing bs with
  | nil =>
    cases List.length_eq_zero_iff.mp hlength.symm
    exact ⟨rfl, h⟩
  | cons a as ih =>
    cases bs with
    | nil => cases hlength
    | cons b bs =>
      obtain ⟨key, value⟩ := a
      obtain ⟨key', value'⟩ := b
      obtain ⟨⟨hkey, ha⟩, hothers⟩ := List.forall_mem_cons.mp has
      obtain ⟨⟨hkey', hb⟩, hothers'⟩ := List.forall_mem_cons.mp hbs
      simp only [encodeEntries, List.append_assoc] at h
      obtain ⟨_, rfl, htail⟩ := @head_inj 0 0 _ _ _ _ (lt_of_le_of_lt hkey (by decide))
        (lt_of_le_of_lt hkey' (by decide)) h
      obtain ⟨rfl, hentries⟩ := hvalue value value' ha hb _ _ htail
      obtain ⟨rfl, hrest⟩ := ih hothers hothers' (Nat.succ.inj hlength) hentries
      exact ⟨rfl, hrest⟩

instance neZero_eight : NeZero 8 := ⟨by decide⟩

def parts : CborValue → Fin 8 × Nat × Bytes
  | .null => (7, 22, [])
  | .unsigned value => (0, value, [])
  | .bytes value => (2, value.length, value)
  | .text value => (3, (textBytes value).length, textBytes value)
  | .bool value => (7, if value then 21 else 20, [])
  | .array values => (4, values.length, encodeItems values)
  | .map entries => (5, entries.length, encodeEntries entries)

theorem encodeInto_parts (value : CborValue) :
    encodeInto value = head (UInt8.ofNat (parts value).1) (parts value).2.1 ++
    (parts value).2.2 := by
  cases value with
  | null => rfl
  | bool value => cases value <;> rfl
  | unsigned value => exact (List.append_nil _).symm
  | bytes | text | array | map => rfl

theorem parts_argument_lt {levels : Nat} {value : CborValue} (h : Limited levels value) :
    (parts value).2.1 < 256 ^ 8 := by
  obtain _ | levels := levels
  · exact absurd h id
  have hlimit : maxInteger < 256 ^ 8 ∧ maxRawBytes < 256 ^ 8 ∧ maxTextBytes < 256 ^ 8 ∧
      maxCollectionItems < 256 ^ 8 := by decide
  cases value with
  | null => decide
  | bool value => cases value <;> decide
  | unsigned _ => exact lt_of_le_of_lt h hlimit.1
  | bytes _ => exact lt_of_le_of_lt h hlimit.2.1
  | text _ => exact lt_of_le_of_lt h hlimit.2.2.1
  | array _ | map _ => exact lt_of_le_of_lt h.1 hlimit.2.2.2

theorem encodeInto_inj {levels : Nat} : ∀ a b : CborValue, Limited levels a → Limited levels b →
    ∀ rest rest' : Bytes, encodeInto a ++ rest = encodeInto b ++ rest' → a = b ∧ rest = rest' := by
  induction levels with
  | zero => exact fun _ _ h => absurd h id
  | succ levels ih =>
    intro a b ha hb rest rest' h
    rw [encodeInto_parts, encodeInto_parts, List.append_assoc, List.append_assoc] at h
    obtain ⟨hmajor, hargument, htail⟩ := head_inj (parts_argument_lt ha) (parts_argument_lt hb) h
    cases a <;> cases b <;> first | (cases hmajor; done) | skip
    case null.null => exact ⟨rfl, htail⟩
    case unsigned.unsigned value value' =>
      cases hargument
      exact ⟨rfl, htail⟩
    case bytes.bytes value value' =>
      obtain ⟨rfl, hrest⟩ := List.append_inj htail hargument
      exact ⟨rfl, hrest⟩
    case text.text value value' =>
      obtain ⟨hbytes, hrest⟩ := List.append_inj htail hargument
      exact ⟨congrArg _ (textBytes_injective hbytes), hrest⟩
    case bool.bool value value' =>
      cases value <;> cases value' <;> first | exact ⟨rfl, htail⟩ | cases hargument
    case null.bool value => cases value <;> cases hargument
    case bool.null value => cases value <;> cases hargument
    case array.array values values' =>
      obtain ⟨rfl, hrest⟩ := items_inj ih ha.2 hb.2 hargument htail
      exact ⟨rfl, hrest⟩
    case map.map entries entries' =>
      obtain ⟨rfl, hrest⟩ := entries_inj ih ha.2 hb.2 hargument htail
      exact ⟨rfl, hrest⟩

/-! ## Sorting -/

mutual

/-- The value with the entries of every map inserted in the order in which they are listed. -/
def sorted : CborValue → CborValue
  | .null => .null
  | .unsigned value => .unsigned value
  | .bytes value => .bytes value
  | .text value => .text value
  | .bool value => .bool value
  | .array values => .array (sortedItems values)
  | .map entries => .map (sortedEntries [] entries)

def sortedItems : List CborValue → List CborValue
  | [] => []
  | value :: values => sorted value :: sortedItems values

def sortedEntries (done : List (Nat × CborValue)) : List (Nat × CborValue) →
    List (Nat × CborValue)
  | [] => done
  | (key, value) :: entries => sortedEntries (insertEntry key (sorted value) done) entries

end

mutual

theorem sorted_of_wellFormed : ∀ value : CborValue, WellFormed value → sorted value = value
  | .null, _ | .unsigned _, _ | .bytes _, _ | .text _, _ | .bool _, _ => by rw [sorted]
  | .array values, h => by rw [sorted, sortedItems_of_wellFormed values h]
  | .map entries, h => by
    rw [sorted, sortedEntries_of_wellFormed entries [] h.2 h.1, List.nil_append]

theorem sortedItems_of_wellFormed : ∀ values : List CborValue, WellFormedItems values →
    sortedItems values = values
  | [], _ => by rw [sortedItems]
  | value :: values, h => by
    rw [sortedItems, sorted_of_wellFormed value h.1, sortedItems_of_wellFormed values h.2]

theorem sortedEntries_of_wellFormed : ∀ entries done : List (Nat × CborValue),
    WellFormedEntries entries → ((done ++ entries).map Prod.fst).Pairwise (· < ·) →
      sortedEntries done entries = done ++ entries
  | [], done, _, _ => by rw [sortedEntries, List.append_nil]
  | (key, value) :: entries, done, h, hsorted => by
    have habove : ∀ entry ∈ done, entry.1 < key := by
      intro entry hentry
      rw [List.map_append, List.pairwise_append] at hsorted
      exact hsorted.2.2 _ (List.mem_map_of_mem hentry) _ List.mem_cons_self
    rw [sortedEntries, sorted_of_wellFormed value h.1, insertEntry_above habove,
      sortedEntries_of_wellFormed entries _ h.2 (by simpa using hsorted), List.append_assoc,
      List.singleton_append]

end

theorem insertEntry_new {key : Nat} {value : CborValue} {entries : List (Nat × CborValue)}
    (h : lookupEntry key entries = none) :
    (insertEntry key value entries).length = entries.length + 1 ∧
      (encodeEntries (insertEntry key value entries)).length =
        (encodeEntries entries).length + headLength key + (encodeInto value).length := by
  induction entries with
  | nil => simp [insertEntry, encodeEntries, head_length]
  | cons entry entries ih =>
    obtain ⟨first, other⟩ := entry
    rw [lookupEntry] at h
    split_ifs at h with hfirst
    obtain ⟨hcount, hlength⟩ := ih h
    rw [insertEntry, if_neg hfirst]
    split_ifs
    · refine ⟨rfl, ?_⟩
      simp only [encodeEntries, List.length_append, head_length]
      omega
    · refine ⟨by rw [List.length_cons, hcount, List.length_cons], ?_⟩
      simp only [encodeEntries, List.length_append, head_length, hlength]
      omega

theorem textBytes_of_some {bytes : Bytes} {text : String} (h : textOfBytes bytes = some text) :
    textBytes text = bytes := by
  simp only [textOfBytes, String.fromUTF8?, Option.dite_none_right_eq_some, Option.some.injEq] at h
  obtain ⟨_, rfl⟩ := h
  simp [textBytes, String.fromUTF8]

/-- The listing of a value: the limits hold, and sorting it gives the value and keeps its length. -/
structure Lists (levels : Nat) (listing value : CborValue) : Prop where
  limited : Limited levels listing
  limited_sorted : Limited levels value
  sorted_eq : sorted listing = value
  length_eq : (encodeInto listing).length = (encodeInto value).length

theorem Lists.of_limited {levels : Nat} {value : CborValue} (h : Limited levels value)
    (hsorted : sorted value = value) : Lists levels value value := ⟨h, h, hsorted, rfl⟩

/-! ## What the decoder has read -/

theorem label_eq_ok {key : Nat} {input rest : Bytes} (h : label input = .ok (key, rest)) :
    key ≤ maxInteger ∧ input = head 0 key ++ rest := by
  simp only [label, Except.bind_eq_ok, Prod.exists] at h
  obtain ⟨initial, tail, hbyte, h⟩ := h
  split at h
  · simp [Except.bind_eq_ok] at h
  · simp only [Except.bind_eq_ok, Prod.exists, reject_eq_ok, not_not, Except.pure_eq,
      Except.ok.injEq, Prod.mk.injEq] at h
    obtain ⟨_, hmajor, _, _, hargument, _, hkey, rfl, rfl⟩ := h
    cases input with
    | nil => cases hbyte
    | cons first input =>
      cases hbyte
      have hhead := (head_of_argument hargument).1
      rw [hmajor] at hhead
      exact ⟨not_lt.mp hkey, hhead⟩

theorem items_listed {read : Bytes → Except DecodeFailure (CborValue × Bytes)} {levels : Nat}
    (hread : ∀ input v rest, read input = .ok (v, rest) →
      ∃ listing, Lists levels listing v ∧ input = encodeInto listing ++ rest) {count : Nat} :
    ∀ {input rest : Bytes} {values : List CborValue}, items read count input = .ok (values, rest) →
      ∃ listings : List CborValue, listings.length = count ∧ values.length = count ∧
        (∀ listing ∈ listings, Limited levels listing) ∧
        (∀ value ∈ values, Limited levels value) ∧ sortedItems listings = values ∧
        (encodeItems listings).length = (encodeItems values).length ∧
        input = encodeItems listings ++ rest := by
  induction count with
  | zero =>
    intro input rest values h
    cases h
    exact ⟨[], rfl, rfl, nofun, nofun, rfl, rfl, rfl⟩
  | succ count ih =>
    intro input rest values h
    simp only [items, Except.bind_eq_ok, Prod.exists, Except.pure_eq, Except.ok.injEq,
      Prod.mk.injEq] at h
    obtain ⟨first, middle, hfirst, others, tail, hothers, rfl, rfl⟩ := h
    obtain ⟨listing, hlists, rfl⟩ := hread _ _ _ hfirst
    obtain ⟨listings, hcount, hcount', hlimited, hlimited', rfl, hlength, rfl⟩ := ih hothers
    refine ⟨listing :: listings, by rw [List.length_cons, hcount], by rw [List.length_cons,
      hcount'], List.forall_mem_cons.mpr ⟨hlists.limited, hlimited⟩,
      List.forall_mem_cons.mpr ⟨hlists.limited_sorted, hlimited'⟩, ?_, ?_, ?_⟩
    · rw [sortedItems, hlists.sorted_eq]
    · rw [encodeItems, encodeItems, List.length_append, List.length_append, hlists.length_eq,
        hlength]
    · rw [encodeItems, List.append_assoc]

theorem entries_listed {read : Bytes → Except DecodeFailure (CborValue × Bytes)} {levels : Nat}
    (hread : ∀ input v rest, read input = .ok (v, rest) →
      ∃ listing, Lists levels listing v ∧ input = encodeInto listing ++ rest) {count : Nat} :
    ∀ {input rest : Bytes} {done values : List (Nat × CborValue)},
      entries read count done input = .ok (values, rest) →
      (∀ entry ∈ done, entry.1 ≤ maxInteger ∧ Limited levels entry.2) →
      ∃ listings : List (Nat × CborValue), listings.length = count ∧
        values.length = done.length + count ∧
        (∀ entry ∈ listings, entry.1 ≤ maxInteger ∧ Limited levels entry.2) ∧
        (∀ entry ∈ values, entry.1 ≤ maxInteger ∧ Limited levels entry.2) ∧
        sortedEntries done listings = values ∧
        (encodeEntries done).length + (encodeEntries listings).length =
          (encodeEntries values).length ∧
        input = encodeEntries listings ++ rest := by
  induction count with
  | zero =>
    intro input rest done values h hdone
    cases h
    exact ⟨[], rfl, rfl, nofun, hdone, rfl, rfl, rfl⟩
  | succ count ih =>
    intro input rest done values h hdone
    simp only [entries, Except.bind_eq_ok, Prod.exists, reject_eq_ok, Option.not_isSome_iff_eq_none,
      exists_const] at h
    obtain ⟨key, middle, hkey, item, tail, hitem, hnew, hentries⟩ := h
    obtain ⟨hbound, rfl⟩ := label_eq_ok hkey
    obtain ⟨listing, hlists, rfl⟩ := hread _ _ _ hitem
    obtain ⟨hinserted, hbytes⟩ := @insertEntry_new key item done hnew
    obtain ⟨listings, hcount, hcount', hlimited, hlimited', hsorted, hlength, rfl⟩ :=
      ih hentries fun entry hentry => by
        rcases mem_insertEntry hentry with rfl | hentry
        · exact ⟨hbound, hlists.limited_sorted⟩
        · exact hdone entry hentry
    refine ⟨(key, listing) :: listings, by rw [List.length_cons, hcount], by omega,
      List.forall_mem_cons.mpr ⟨⟨hbound, hlists.limited⟩, hlimited⟩, hlimited', ?_, ?_, ?_⟩
    · rw [sortedEntries, hlists.sorted_eq, hsorted]
    · have hitemLength := hlists.length_eq
      rw [encodeEntries, List.length_append, List.length_append, head_length]
      omega
    · rw [encodeEntries, List.append_assoc, List.append_assoc]

/-- What was read is the encoding of a listing of the value. -/
theorem value_listed {levels : Nat} : ∀ {input rest : Bytes} {v : CborValue},
    Decoder.value levels input = .ok (v, rest) →
      ∃ listing, Lists levels listing v ∧ input = encodeInto listing ++ rest := by
  induction levels with
  | zero =>
    intro input rest v h
    cases h
  | succ levels ih =>
    intro input rest v h
    cases input with
    | nil => cases h
    | cons initial input =>
      simp only [Decoder.value, byte, Except.ok_bind] at h
      split_ifs at h with h0 h2 h3 h4 h5 hfalse htrue hnull
      · simp only [Except.bind_eq_ok, Prod.exists, reject_eq_ok, exists_const, Except.pure_eq,
          Except.ok.injEq, Prod.mk.injEq, not_lt] at h
        obtain ⟨value, _, hargument, hbound, rfl, rfl⟩ := h
        refine ⟨.unsigned value, .of_limited hbound (by rw [sorted]), ?_⟩
        rw [(head_of_argument hargument).1, h0]
        rfl
      · simp only [Except.bind_eq_ok, Prod.exists, reject_eq_ok, exists_const, Except.pure_eq,
          Except.ok.injEq, Prod.mk.injEq, not_lt, slice_eq_ok] at h
        obtain ⟨_, _, hargument, hbound, value, _, ⟨rfl, rfl⟩, rfl, rfl⟩ := h
        refine ⟨.bytes value, .of_limited hbound (by rw [sorted]), ?_⟩
        rw [(head_of_argument hargument).1, h2, encodeInto, List.append_assoc]
      · simp only [Except.bind_eq_ok, Prod.exists, reject_eq_ok, exists_const, not_lt,
          slice_eq_ok] at h
        obtain ⟨_, _, hargument, hbound, value, _, ⟨rfl, rfl⟩, htext⟩ := h
        split at htext
        · next text hvalue =>
          cases htext
          have hbytes := textBytes_of_some hvalue
          refine ⟨.text text, .of_limited (by rw [Limited, hbytes]; exact hbound) (by rw [sorted]),
            ?_⟩
          rw [(head_of_argument hargument).1, h3, encodeInto, hbytes, List.append_assoc]
        · cases htext
      · simp only [collectionLength, Except.bind_eq_ok, Prod.exists, reject_eq_ok, exists_const,
          Except.pure_eq, Except.ok.injEq, Prod.mk.injEq, not_lt] at h
        obtain ⟨count, _, ⟨_, _, hargument, hbound, rfl, rfl⟩, values, _, hitems, rfl, rfl⟩ := h
        obtain ⟨listings, rfl, hcount, hlimited, hlimited', hsorted, hlength, rfl⟩ :=
          items_listed (fun _ _ _ => ih) hitems
        refine ⟨.array listings, ⟨⟨hbound, hlimited⟩, ⟨hcount.symm ▸ hbound, hlimited'⟩,
          by rw [sorted, hsorted], ?_⟩, ?_⟩
        · rw [encodeInto, encodeInto, List.length_append, List.length_append, hcount, hlength]
        · rw [(head_of_argument hargument).1, h4, encodeInto, List.append_assoc]
      · simp only [collectionLength, Except.bind_eq_ok, Prod.exists, reject_eq_ok, exists_const,
          Except.pure_eq, Except.ok.injEq, Prod.mk.injEq, not_lt] at h
        obtain ⟨count, _, ⟨_, _, hargument, hbound, rfl, rfl⟩, values, _, hentries, rfl, rfl⟩ := h
        obtain ⟨listings, rfl, hcount, hlimited, hlimited', hsorted, hlength, rfl⟩ :=
          entries_listed (fun _ _ _ => ih) hentries (by rintro _ ⟨⟩)
        simp only [List.length_nil, Nat.zero_add, encodeEntries] at hcount hlength
        refine ⟨.map listings, ⟨⟨hbound, hlimited⟩, ⟨hcount.symm ▸ hbound, hlimited'⟩,
          by rw [sorted, hsorted], ?_⟩, ?_⟩
        · rw [encodeInto, encodeInto, List.length_append, List.length_append, hcount, hlength]
        · rw [(head_of_argument hargument).1, h5, encodeInto, List.append_assoc]
      · cases h
        exact ⟨.bool false, .of_limited trivial (by rw [sorted]), by rw [hfalse]; rfl⟩
      · cases h
        exact ⟨.bool true, .of_limited trivial (by rw [sorted]), by rw [htrue]; rfl⟩
      · cases h
        exact ⟨.null, .of_limited trivial (by rw [sorted]), by rw [hnull]; rfl⟩
      · simp [Except.bind_eq_ok] at h

/-! ## The verdict of the decoder -/

theorem limited_of_encode {value : CborValue} {bytes : Bytes} (h : encode value = .ok bytes) :
    Limited (maxDepth + 1) value ∧ encodeInto value = bytes := by
  obtain ⟨⟨length, hlength⟩, rfl⟩ := encode_eq_ok.mp h
  exact ⟨limited_of_encodedLength value length (Nat.zero_add _) hlength, rfl⟩

theorem encode_of_limited {value : CborValue} (h : Limited (maxDepth + 1) value)
    (hsize : (encodeInto value).length ≤ maxEncodedBytes) : encode value = .ok (encodeInto value) :=
  encode_eq_ok.mpr ⟨⟨_, encodedLength_eq value h (Nat.zero_add _) hsize⟩, rfl⟩

theorem decodeDetailed_of_value {b : Bytes} {v : CborValue} (hsize : b.length ≤ maxEncodedBytes)
    (hvalue : Decoder.value (maxDepth + 1) b = .ok (v, []))
    (hencode : encode v = .ok (encodeInto v)) :
    decodeDetailed b = if encodeInto v = b then .ok v else .error .nonCanonical := by
  rw [decodeDetailed, reject_of_not _ (Nat.not_lt.mpr hsize), Except.ok_bind, hvalue]
  simp only [Except.ok_bind, reject_of_not _ (not_not.mpr rfl), hencode]
  rfl

/-- The predicted length is the written one, and the encoder of the decoder does not fail: its
last verdict is that the listed maps are not in order. -/
theorem lengths_and_order_agree :
    (∀ (v : CborValue) (k : Nat), encodedLength 0 v = .ok k →
      (encodeInto v).length = k ∧ k ≤ maxEncodedBytes) ∧
    ∀ (b : Bytes) (v : CborValue), b.length ≤ maxEncodedBytes →
      Decoder.value (maxDepth + 1) b = .ok (v, []) →
      (∃ encoded, encode v = .ok encoded ∧ encoded.length = b.length) ∧
      ∃ listing, encode listing = .ok b ∧ (∀ other, encode other = .ok b → other = listing) ∧
        sorted listing = v ∧
        (decodeDetailed b = .error .nonCanonical ↔ ¬WellFormed listing) ∧
        (decodeDetailed b = .ok v ↔ WellFormed listing) := by
  constructor
  · exact fun v k h => encodeInto_length v h
  · intro b v hsize hvalue
    obtain ⟨listing, hlists, hb⟩ := value_listed hvalue
    rw [List.append_nil] at hb
    subst hb
    have hlength : (encodeInto v).length ≤ maxEncodedBytes := hlists.length_eq ▸ hsize
    have hencode := encode_of_limited hlists.limited_sorted hlength
    have hdetailed := decodeDetailed_of_value hsize hvalue hencode
    have hordered : encodeInto v = encodeInto listing ↔ WellFormed listing := by
      constructor
      · intro heq
        have hsame := encodeInto_inj v listing hlists.limited_sorted hlists.limited [] []
          (by rw [List.append_nil, List.append_nil, heq])
        exact hsame.1 ▸ value_wellFormed hvalue
      · intro hwell
        rw [← hlists.sorted_eq, sorted_of_wellFormed listing hwell]
    refine ⟨⟨_, hencode, hlists.length_eq.symm⟩, listing, encode_of_limited hlists.limited hsize,
      ?_, hlists.sorted_eq, ?_, ?_⟩
    · intro other hother
      obtain ⟨hlimited, hbytes⟩ := limited_of_encode hother
      exact (encodeInto_inj other listing hlimited hlists.limited [] []
        (by rw [List.append_nil, List.append_nil, hbytes])).1
    · rw [hdetailed, ← hordered]
      split <;> simp_all
    · rw [hdetailed, ← hordered]
      split <;> simp_all

/-- A map that lists the label 1 before the label 0. -/
theorem lengths_and_order_of_swapped :
    ∃ listing, encode listing = .ok [0xa2, 1, 0, 0, 0] ∧
      sorted listing = .map [(0, .unsigned 0), (1, .unsigned 0)] ∧
      (decodeDetailed [0xa2, 1, 0, 0, 0] = .error .nonCanonical ↔ ¬WellFormed listing) := by
  obtain ⟨_, listing, hencode, _, hsorted, hverdict, _⟩ := lengths_and_order_agree.2
    [0xa2, 1, 0, 0, 0] (.map [(0, .unsigned 0), (1, .unsigned 0)]) (by decide) rfl
  exact ⟨listing, hencode, hsorted, hverdict⟩

end Encoding

end LicoArc
