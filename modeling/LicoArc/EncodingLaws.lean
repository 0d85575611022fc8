import LicoArc.Encoding
namespace LicoArc.Encoding
open Decoder

theorem initial_byte : ∀ (major : Fin 8) (additional : Fin 32),
    (UInt8.ofNat major <<< 5 ||| UInt8.ofNat additional) >>> 5 = UInt8.ofNat major ∧
    (UInt8.ofNat major <<< 5 ||| UInt8.ofNat additional) &&& 0x1f = UInt8.ofNat additional := by
  decide

theorem slice_append {input rest : Bytes} :
    slice input.length (input ++ rest) = .ok (input, rest) := by
  simp [slice]

theorem wideArgument_bigEndian {width above value : Nat} {rest : Bytes}
    (habove : above < value) (hwidth : value < 256 ^ width) :
    wideArgument width above (bigEndian width value ++ rest) = .ok (value, rest) := by
  have hs := @slice_append (bigEndian width value) rest
  rw [bigEndian_length] at hs
  simp only [wideArgument, hs, Except.ok_bind, fromBigEndian_bigEndian hwidth, Except.bind_eq_ok]
  exact ⟨(), by simpa using habove, rfl⟩

theorem argument_head (major : Fin 8) {value : Nat} (hvalue : value < 256 ^ 8) (rest : Bytes) :
    ∃ initial tail, head (UInt8.ofNat major) value = initial :: tail ∧
      initial >>> 5 = UInt8.ofNat major ∧
      argument (initial &&& 0x1f) (tail ++ rest) = .ok (value, rest) := by
  by_cases h1 : value ≤ 23
  · obtain ⟨hmajor, hlow⟩ := initial_byte major ⟨value, by omega⟩
    refine ⟨_, [], by simp only [head, if_pos h1], hmajor, ?_⟩
    rw [hlow]
    have hle : UInt8.ofNat value ≤ 23 := by
      rw [UInt8.le_iff_toNat_le]
      simp
      omega
    simp only [argument, if_pos hle]
    simp
    omega
  by_cases h2 : value ≤ 0xff
  · obtain ⟨hmajor, hlow⟩ := initial_byte major 24
    refine ⟨_, [UInt8.ofNat value], by simp only [head, if_neg h1, if_pos h2]; rfl, hmajor, ?_⟩
    rw [hlow]
    have hw : wideArgument 1 23 (bigEndian 1 value ++ rest) = .ok (value, rest) :=
      wideArgument_bigEndian (by omega) (by omega)
    simpa [argument, bigEndian] using hw
  by_cases h3 : value ≤ 0xffff
  · obtain ⟨hmajor, hlow⟩ := initial_byte major 25
    refine ⟨_, bigEndian 2 value,
      by simp only [head, if_neg h1, if_neg h2, if_pos h3]; rfl, hmajor, ?_⟩
    rw [hlow]
    exact wideArgument_bigEndian (by omega) (by omega)
  by_cases h4 : value ≤ 0xffffffff
  · obtain ⟨hmajor, hlow⟩ := initial_byte major 26
    refine ⟨_, bigEndian 4 value,
      by simp only [head, if_neg h1, if_neg h2, if_neg h3, if_pos h4]; rfl, hmajor, ?_⟩
    rw [hlow]
    exact wideArgument_bigEndian (by omega) (by omega)
  · obtain ⟨hmajor, hlow⟩ := initial_byte major 27
    refine ⟨_, bigEndian 8 value,
      by simp only [head, if_neg h1, if_neg h2, if_neg h3, if_neg h4]; rfl, hmajor, ?_⟩
    rw [hlow]
    exact wideArgument_bigEndian (by omega) (by omega)

theorem head_length (major : UInt8) (value : Nat) :
    (head major value).length = headLength value := by
  simp only [head, headLength]
  split_ifs <;> simp

/-! ## Well-formed values -/

mutual

/-- Every map lists its labels in ascending order, as a `BTreeMap` does. -/
def WellFormed : CborValue → Prop
  | .array values => WellFormedItems values
  | .map entries => (entries.map Prod.fst).Pairwise (· < ·) ∧ WellFormedEntries entries
  | _ => True

def WellFormedItems : List CborValue → Prop
  | [] => True
  | value :: values => WellFormed value ∧ WellFormedItems values

def WellFormedEntries : List (Nat × CborValue) → Prop
  | [] => True
  | (_, value) :: entries => WellFormed value ∧ WellFormedEntries entries

end

theorem textOfBytes_textBytes (text : String) : textOfBytes (textBytes text) = some text := by
  have hb : (⟨(textBytes text).toArray⟩ : ByteArray) = text.toByteArray := by
    simp [textBytes]
  rw [textOfBytes, hb]
  simp [String.fromUTF8?, text.isValidUTF8, String.fromUTF8]

theorem textBytes_injective : Function.Injective textBytes := by
  intro a b h
  have ha := textOfBytes_textBytes a
  rw [h, textOfBytes_textBytes] at ha
  exact (Option.some.inj ha).symm

theorem textBytes_ofList (chars : List Char) :
    textBytes (String.ofList chars) = chars.flatMap String.utf8EncodeChar := by
  simp [textBytes, List.utf8Encode]

theorem textBytes_append (first second : String) :
    textBytes (first ++ second) = textBytes first ++ textBytes second := by
  simp [textBytes, String.toByteArray_append]

theorem withinEncodedBytes_eq_ok {length k : Nat} :
    withinEncodedBytes length = .ok k ↔ length ≤ maxEncodedBytes ∧ k = length := by
  simp only [withinEncodedBytes]
  split <;> simp_all [eq_comm]

theorem depth_of_encodedLength {depth length : Nat} {v : CborValue}
    (h : encodedLength depth v = .ok length) : depth ≤ maxDepth := by
  by_contra hdeep
  have hdeep : depth > maxDepth := by omega
  cases v <;> simp [encodedLength, hdeep] at h

/-! ## Lengths of values within their bounds -/

theorem encodedLength_unsigned {depth value : Nat} (hdepth : depth ≤ maxDepth)
    (hvalue : value ≤ maxInteger) :
    encodedLength depth (.unsigned value) = .ok (headLength value) := by
  have hhead : headLength value ≤ 9 := by
    simp only [headLength]
    split_ifs <;> omega
  rw [encodedLength, if_neg (by omega)]
  exact withinEncodedBytes_eq_ok.mpr ⟨hhead.trans (by decide), rfl⟩

theorem encodedLength_bytes {depth : Nat} {value : Bytes} (hdepth : depth ≤ maxDepth)
    (hvalue : value.length ≤ maxRawBytes) :
    encodedLength depth (.bytes value) = .ok (headLength value.length + value.length) := by
  have hhead : headLength value.length ≤ 9 := by
    simp only [headLength]
    split_ifs <;> omega
  rw [encodedLength, if_neg (by omega)]
  refine withinEncodedBytes_eq_ok.mpr ⟨?_, rfl⟩
  simp only [maxRawBytes] at hvalue
  simp only [maxEncodedBytes]
  omega

theorem encodedLength_map {depth length : Nat} {entries : List (Nat × CborValue)}
    (hdepth : depth ≤ maxDepth) (hcount : entries.length ≤ maxCollectionItems)
    (hentries : entriesEncodedLength depth (headLength entries.length) entries = .ok length)
    (hlength : length ≤ maxEncodedBytes) :
    encodedLength depth (.map entries) = .ok length := by
  rw [encodedLength, if_neg (by omega), hentries]
  exact withinEncodedBytes_eq_ok.mpr ⟨hlength, rfl⟩

theorem encodedLength_array {depth length : Nat} {values : List CborValue}
    (hdepth : depth ≤ maxDepth) (hcount : values.length ≤ maxCollectionItems)
    (hvalues : collectionEncodedLength depth (headLength values.length) values = .ok length)
    (hlength : length ≤ maxEncodedBytes) :
    encodedLength depth (.array values) = .ok length := by
  rw [encodedLength, if_neg (by omega), hvalues]
  exact withinEncodedBytes_eq_ok.mpr ⟨hlength, rfl⟩

theorem entriesEncodedLength_cons {depth start length key k : Nat} {value : CborValue}
    {entries : List (Nat × CborValue)} (hkey : key ≤ 23)
    (hvalue : encodedLength (depth + 1) value = .ok k)
    (hentries : entriesEncodedLength depth (start + 1 + k) entries = .ok length) :
    entriesEncodedLength depth start ((key, value) :: entries) = .ok length := by
  have hbound : ¬key > maxInteger := by simp only [maxInteger]; omega
  have hhead : headLength key = 1 := by rw [headLength, if_pos hkey]
  rw [entriesEncodedLength, reject_of_not _ hbound, hvalue, hhead]
  exact hentries

theorem collectionEncodedLength_cons {depth start length k : Nat} {value : CborValue}
    {values : List CborValue} (hvalue : encodedLength (depth + 1) value = .ok k)
    (hvalues : collectionEncodedLength depth (start + k) values = .ok length) :
    collectionEncodedLength depth start (value :: values) = .ok length := by
  rw [collectionEncodedLength, hvalue]
  exact hvalues

theorem insertEntry_above {key : Nat} {value : CborValue} {entries : List (Nat × CborValue)}
    (h : ∀ entry ∈ entries, entry.1 < key) :
    insertEntry key value entries = entries ++ [(key, value)] := by
  induction entries with
  | nil => rfl
  | cons entry entries ih =>
    obtain ⟨first, other⟩ := entry
    have hfirst : first < key := h _ List.mem_cons_self
    simp only [insertEntry, if_neg (Nat.not_lt.mpr hfirst.le), if_neg hfirst.ne']
    rw [ih fun entry hentry => h entry (List.mem_cons_of_mem _ hentry)]
    rfl

theorem lookupEntry_above {key : Nat} {entries : List (Nat × CborValue)}
    (h : ∀ entry ∈ entries, entry.1 < key) : lookupEntry key entries = none := by
  induction entries with
  | nil => rfl
  | cons entry entries ih =>
    obtain ⟨first, other⟩ := entry
    have hfirst : first < key := h _ List.mem_cons_self
    simp only [lookupEntry, if_neg hfirst.ne']
    exact ih fun entry hentry => h entry (List.mem_cons_of_mem _ hentry)

theorem label_head {key : Nat} (hkey : key ≤ maxInteger) (rest : Bytes) :
    label (head 0 key ++ rest) = .ok (key, rest) := by
  have hlt : key < 256 ^ 8 := by simp only [maxInteger] at hkey; omega
  obtain ⟨initial, tail, hhead, hmajor, harg⟩ := argument_head 0 hlt rest
  have hzero : initial >>> 5 = 0 := hmajor
  rw [show head 0 key = initial :: tail from hhead, List.cons_append]
  simp only [label, byte, Except.ok_bind, hzero, harg]
  have hle : ¬key > maxInteger := by omega
  simp [reject, hle]

mutual

theorem value_encodeInto (v : CborValue) {depth levels length : Nat} (rest : Bytes)
    (hwell : WellFormed v) (hlength : encodedLength depth v = .ok length)
    (hlevels : depth + levels = maxDepth + 1) :
    Decoder.value levels (encodeInto v ++ rest) = .ok (v, rest) := by
  have hdepth : depth ≤ maxDepth := depth_of_encodedLength hlength
  obtain ⟨levels, rfl⟩ : ∃ n, levels = n + 1 := ⟨levels - 1, by omega⟩
  match v with
  | .null => rfl
  | .bool true => rfl
  | .bool false => rfl
  | .unsigned n =>
    simp only [encodedLength] at hlength
    split at hlength
    · cases hlength
    rename_i hbound
    have hn : ¬n > maxInteger := by omega
    obtain ⟨initial, tail, hhead, hmajor, harg⟩ :=
      argument_head 0 (lt_of_le_of_lt (not_lt.mp hn) (by decide)) rest
    rw [show encodeInto (.unsigned n) = initial :: tail from hhead]
    simp only [List.cons_append, Decoder.value, byte, Except.ok_bind, hmajor]
    simp [harg, reject_of_not _ hn]
  | .bytes b =>
    simp only [encodedLength] at hlength
    split at hlength
    · cases hlength
    rename_i hbound
    have hn : ¬b.length > maxRawBytes := by omega
    obtain ⟨initial, tail, hhead, hmajor, harg⟩ :=
      argument_head 2 (lt_of_le_of_lt (not_lt.mp hn) (by decide)) (b ++ rest)
    rw [encodeInto, List.append_assoc, show head 2 b.length = initial :: tail from hhead]
    simp only [List.cons_append, Decoder.value, byte, Except.ok_bind, hmajor]
    simp [harg, reject_of_not _ hn, slice_append]
  | .text t =>
    simp only [encodedLength] at hlength
    split at hlength
    · cases hlength
    rename_i hbound
    have hn : ¬(textBytes t).length > maxTextBytes := by omega
    obtain ⟨initial, tail, hhead, hmajor, harg⟩ :=
      argument_head 3 (lt_of_le_of_lt (not_lt.mp hn) (by decide)) (textBytes t ++ rest)
    rw [encodeInto, List.append_assoc, show head 3 (textBytes t).length = initial :: tail
      from hhead]
    simp only [List.cons_append, Decoder.value, byte, Except.ok_bind, hmajor]
    simp [harg, reject_of_not _ hn, slice_append, textOfBytes_textBytes]
  | .array vs =>
    simp only [encodedLength] at hlength
    split at hlength
    · cases hlength
    rename_i hbound
    obtain ⟨k, hvs, _⟩ := Except.bind_eq_ok.mp hlength
    have hn : ¬vs.length > maxCollectionItems := by omega
    obtain ⟨initial, tail, hhead, hmajor, harg⟩ :=
      argument_head 4 (lt_of_le_of_lt (not_lt.mp hn) (by decide)) (encodeItems vs ++ rest)
    have hsum : depth + 1 + levels = maxDepth + 1 := by omega
    have hitems := items_encodeItems vs rest hwell hvs hsum
    rw [encodeInto, List.append_assoc, show head 4 vs.length = initial :: tail from hhead]
    simp only [List.cons_append, Decoder.value, byte, Except.ok_bind, hmajor]
    simp [collectionLength, harg, reject_of_not _ hn, hitems]
  | .map es =>
    simp only [encodedLength] at hlength
    split at hlength
    · cases hlength
    rename_i hbound
    obtain ⟨k, hes, _⟩ := Except.bind_eq_ok.mp hlength
    have hn : ¬es.length > maxCollectionItems := by omega
    obtain ⟨initial, tail, hhead, hmajor, harg⟩ :=
      argument_head 5 (lt_of_le_of_lt (not_lt.mp hn) (by decide)) (encodeEntries es ++ rest)
    have hsum : depth + 1 + levels = maxDepth + 1 := by omega
    have hentries := entries_encodeEntries es [] rest hwell.2 hwell.1 hes hsum
    rw [encodeInto, List.append_assoc, show head 5 es.length = initial :: tail from hhead]
    simp only [List.cons_append, Decoder.value, byte, Except.ok_bind, hmajor]
    simp [collectionLength, harg, reject_of_not _ hn, hentries]

theorem items_encodeItems (vs : List CborValue) {depth levels start length : Nat} (rest : Bytes)
    (hwell : WellFormedItems vs) (hlength : collectionEncodedLength depth start vs = .ok length)
    (hlevels : depth + 1 + levels = maxDepth + 1) :
    items (Decoder.value levels) vs.length (encodeItems vs ++ rest) = .ok (vs, rest) := by
  match vs with
  | [] => rfl
  | v :: vs =>
    simp only [collectionEncodedLength, Except.bind_eq_ok] at hlength
    obtain ⟨k, hv, hvs⟩ := hlength
    simp only [WellFormedItems] at hwell
    simp only [encodeItems, List.append_assoc, List.length_cons, items]
    rw [value_encodeInto v _ hwell.1 hv hlevels, Except.ok_bind]
    simp only [items_encodeItems vs rest hwell.2 hvs hlevels, Except.ok_bind, Except.pure_eq]

theorem entries_encodeEntries (es : List (Nat × CborValue)) {depth levels start length : Nat}
    (done : List (Nat × CborValue)) (rest : Bytes) (hwell : WellFormedEntries es)
    (hsorted : ((done ++ es).map Prod.fst).Pairwise (· < ·))
    (hlength : entriesEncodedLength depth start es = .ok length)
    (hlevels : depth + 1 + levels = maxDepth + 1) :
    entries (Decoder.value levels) es.length done (encodeEntries es ++ rest) =
      .ok (done ++ es, rest) := by
  match es with
  | [] => simp [entries, encodeEntries]
  | (key, v) :: es =>
    simp only [entriesEncodedLength, Except.bind_eq_ok, reject_eq_ok] at hlength
    obtain ⟨_, hkey, k, hv, hes⟩ := hlength
    simp only [WellFormedEntries] at hwell
    have habove : ∀ entry ∈ done, entry.1 < key := by
      intro entry hentry
      rw [List.map_append, List.pairwise_append] at hsorted
      exact hsorted.2.2 _ (List.mem_map_of_mem hentry) _ (by simp)
    simp only [encodeEntries, List.append_assoc, List.length_cons, entries]
    rw [label_head (by omega), Except.ok_bind, value_encodeInto v _ hwell.1 hv hlevels,
      Except.ok_bind, lookupEntry_above habove, insertEntry_above habove]
    have hstep := entries_encodeEntries es (done ++ [(key, v)]) rest hwell.2
      (by simpa using hsorted) hes hlevels
    simpa [reject] using hstep

end

mutual

theorem encodeInto_length (v : CborValue) {depth length : Nat}
    (h : encodedLength depth v = .ok length) :
    (encodeInto v).length = length ∧ length ≤ maxEncodedBytes := by
  match v with
  | .null | .bool _ | .unsigned _ | .bytes _ | .text _ =>
    simp only [encodedLength] at h
    split at h
    · cases h
    obtain ⟨hmax, rfl⟩ := withinEncodedBytes_eq_ok.mp h
    exact ⟨by simp [encodeInto, head_length], hmax⟩
  | .array vs =>
    simp only [encodedLength] at h
    split at h
    · cases h
    obtain ⟨k, hvs, hk⟩ := Except.bind_eq_ok.mp h
    obtain ⟨hmax, rfl⟩ := withinEncodedBytes_eq_ok.mp hk
    have hitems := encodeItems_length vs hvs
    rw [encodeInto, List.length_append, head_length]
    exact ⟨by omega, hmax⟩
  | .map es =>
    simp only [encodedLength] at h
    split at h
    · cases h
    obtain ⟨k, hes, hk⟩ := Except.bind_eq_ok.mp h
    obtain ⟨hmax, rfl⟩ := withinEncodedBytes_eq_ok.mp hk
    have hentries := encodeEntries_length es hes
    rw [encodeInto, List.length_append, head_length]
    exact ⟨by omega, hmax⟩

theorem encodeItems_length (vs : List CborValue) {depth start length : Nat}
    (h : collectionEncodedLength depth start vs = .ok length) :
    start + (encodeItems vs).length = length := by
  match vs with
  | [] =>
    simp only [collectionEncodedLength, Except.ok.injEq] at h
    simpa [encodeItems] using h
  | v :: vs =>
    simp only [collectionEncodedLength, Except.bind_eq_ok] at h
    obtain ⟨k, hv, hvs⟩ := h
    have hfirst := (encodeInto_length v hv).1
    have hrest := encodeItems_length vs hvs
    rw [encodeItems, List.length_append]
    omega

theorem encodeEntries_length (es : List (Nat × CborValue)) {depth start length : Nat}
    (h : entriesEncodedLength depth start es = .ok length) :
    start + (encodeEntries es).length = length := by
  match es with
  | [] =>
    simp only [entriesEncodedLength, Except.ok.injEq] at h
    simpa [encodeEntries] using h
  | (key, v) :: es =>
    simp only [entriesEncodedLength, Except.bind_eq_ok] at h
    obtain ⟨_, _, k, hv, hes⟩ := h
    have hfirst := (encodeInto_length v hv).1
    have hrest := encodeEntries_length es hes
    rw [encodeEntries, List.length_append, List.length_append, head_length]
    omega

end

theorem encode_eq_ok {v : CborValue} {b : Bytes} :
    encode v = .ok b ↔ (∃ length, encodedLength 0 v = .ok length) ∧ b = encodeInto v := by
  simp only [encode, Except.bind_eq_ok, Except.pure_eq, Except.ok.injEq]
  constructor
  · rintro ⟨length, hlength, rfl⟩
    exact ⟨⟨length, hlength⟩, rfl⟩
  · rintro ⟨⟨length, hlength⟩, rfl⟩
    exact ⟨length, hlength, rfl⟩

/-- Reading an encoded value leaves exactly the bytes after it. -/
theorem value_encode {v : CborValue} {b : Bytes} (hwell : WellFormed v) (h : encode v = .ok b)
    (rest : Bytes) : Decoder.value (maxDepth + 1) (b ++ rest) = .ok (v, rest) := by
  obtain ⟨⟨length, hlength⟩, rfl⟩ := encode_eq_ok.mp h
  exact value_encodeInto v rest hwell hlength (by omega)

theorem decode_encode {v : CborValue} {b : Bytes} (hwell : WellFormed v) (h : encode v = .ok b) :
    decode b = .ok v := by
  have hvalue := value_encode hwell h []
  rw [List.append_nil] at hvalue
  have hlength : ¬b.length > maxEncodedBytes := by
    obtain ⟨⟨length, hlength⟩, rfl⟩ := encode_eq_ok.mp h
    have hl := encodeInto_length v hlength
    omega
  rw [decode, Except.mapError_eq_ok, decodeDetailed, reject_of_not _ hlength]
  simp [hvalue, h, reject]

theorem decodeDetailed_eq_ok {b : Bytes} {v : CborValue} (h : decodeDetailed b = .ok v) :
    encode v = .ok b ∧ Decoder.value (maxDepth + 1) b = .ok (v, []) := by
  simp only [decodeDetailed, Except.bind_eq_ok, reject_eq_ok, Prod.exists] at h
  obtain ⟨_, _, value, rest, hvalue, _, hrest, hencode⟩ := h
  have hrest : rest = [] := by simpa using hrest
  subst hrest
  cases henc : encode value with
  | error e => simp [henc] at hencode
  | ok encoded =>
    simp only [henc] at hencode
    split at hencode
    · rename_i heq
      cases hencode
      exact ⟨heq ▸ henc, hvalue⟩
    · cases hencode

theorem encode_decode {b : Bytes} {v : CborValue} (h : decode b = .ok v) : encode v = .ok b :=
  (decodeDetailed_eq_ok (Except.mapError_eq_ok.mp h)).1

theorem mem_insertEntry {key : Nat} {value : CborValue} {entries : List (Nat × CborValue)}
    {entry : Nat × CborValue} (h : entry ∈ insertEntry key value entries) :
    entry = (key, value) ∨ entry ∈ entries := by
  induction entries with
  | nil => simpa [insertEntry] using h
  | cons first entries ih =>
    simp only [insertEntry] at h
    split_ifs at h
    · simpa using h
    · rcases List.mem_cons.mp h with h | h
      · exact .inl h
      · exact .inr (List.mem_cons_of_mem _ h)
    · rcases List.mem_cons.mp h with h | h
      · exact .inr (h ▸ List.mem_cons_self)
      · exact (ih h).imp_right (List.mem_cons_of_mem _)

theorem insertEntry_ascending {key : Nat} {value : CborValue} {entries : List (Nat × CborValue)}
    (h : (entries.map Prod.fst).Pairwise (· < ·)) :
    ((insertEntry key value entries).map Prod.fst).Pairwise (· < ·) := by
  induction entries with
  | nil => simp [insertEntry]
  | cons first entries ih =>
    obtain ⟨label, other⟩ := first
    rw [List.map_cons, List.pairwise_cons] at h
    obtain ⟨hfirst, hrest⟩ := h
    simp only [insertEntry]
    split_ifs with hlt heq
    · simp only [List.map_cons, List.pairwise_cons]
      refine ⟨fun k hk => ?_, hfirst, hrest⟩
      rcases List.mem_cons.mp hk with rfl | hk
      · exact hlt
      · exact hlt.trans (hfirst k hk)
    · simp only [List.map_cons, List.pairwise_cons]
      exact ⟨fun k hk => heq ▸ hfirst k hk, hrest⟩
    · simp only [List.map_cons, List.pairwise_cons]
      refine ⟨fun k hk => ?_, ih hrest⟩
      obtain ⟨entry, hentry, rfl⟩ := List.mem_map.mp hk
      rcases mem_insertEntry hentry with rfl | hentry
      · omega
      · exact hfirst _ (List.mem_map_of_mem hentry)

theorem wellFormedEntries_iff {entries : List (Nat × CborValue)} :
    WellFormedEntries entries ↔ ∀ entry ∈ entries, WellFormed entry.2 := by
  induction entries with
  | nil => simp [WellFormedEntries]
  | cons entry entries ih => simp [WellFormedEntries, ih]

theorem wellFormedItems_iff {values : List CborValue} :
    WellFormedItems values ↔ ∀ value ∈ values, WellFormed value := by
  induction values with
  | nil => simp [WellFormedItems]
  | cons value values ih => simp [WellFormedItems, ih]

theorem items_wellFormed {read : Bytes → Except DecodeFailure (CborValue × Bytes)}
    (hread : ∀ input v rest, read input = .ok (v, rest) → WellFormed v) {count : Nat} :
    ∀ {input : Bytes} {vs : List CborValue} {rest : Bytes},
      items read count input = .ok (vs, rest) → WellFormedItems vs := by
  induction count with
  | zero =>
    intro input vs rest h
    cases h
    trivial
  | succ count ih =>
    intro input vs rest h
    simp only [items, Except.bind_eq_ok, Prod.exists] at h
    obtain ⟨first, middle, hfirst, others, tail, hothers, heq⟩ := h
    cases heq
    exact ⟨hread _ _ _ hfirst, ih hothers⟩

theorem entries_wellFormed {read : Bytes → Except DecodeFailure (CborValue × Bytes)}
    (hread : ∀ input v rest, read input = .ok (v, rest) → WellFormed v) {count : Nat} :
    ∀ {done : List (Nat × CborValue)} {input : Bytes} {es : List (Nat × CborValue)} {rest : Bytes},
      entries read count done input = .ok (es, rest) → WellFormed (.map done) →
        WellFormed (.map es) := by
  induction count with
  | zero =>
    intro done input es rest h hdone
    cases h
    exact hdone
  | succ count ih =>
    intro done input es rest h hdone
    simp only [entries, Except.bind_eq_ok, Prod.exists] at h
    obtain ⟨key, tail, _, item, tail', hitem, _, _, hentries⟩ := h
    refine ih hentries ⟨insertEntry_ascending hdone.1, wellFormedEntries_iff.mpr ?_⟩
    intro entry hentry
    rcases mem_insertEntry hentry with rfl | hentry
    · exact hread _ _ _ hitem
    · exact wellFormedEntries_iff.mp hdone.2 _ hentry

theorem value_wellFormed {levels : Nat} :
    ∀ {input : Bytes} {v : CborValue} {rest : Bytes},
      Decoder.value levels input = .ok (v, rest) → WellFormed v := by
  induction levels with
  | zero =>
    intro input v rest h
    cases h
  | succ levels ih =>
    intro input v rest h
    simp only [Decoder.value, Except.bind_eq_ok, Prod.exists] at h
    obtain ⟨initial, tail, _, h⟩ := h
    split_ifs at h
    · simp only [Except.bind_eq_ok, Prod.exists] at h
      obtain ⟨_, _, _, _, _, heq⟩ := h
      cases heq
      trivial
    · simp only [Except.bind_eq_ok, Prod.exists] at h
      obtain ⟨_, _, _, _, _, _, _, _, heq⟩ := h
      cases heq
      trivial
    · simp only [Except.bind_eq_ok, Prod.exists] at h
      obtain ⟨_, _, _, _, _, _, _, _, heq⟩ := h
      split at heq <;> cases heq
      trivial
    · simp only [Except.bind_eq_ok, Prod.exists] at h
      obtain ⟨_, _, _, _, _, hitems, heq⟩ := h
      cases heq
      exact items_wellFormed (fun _ _ _ => ih) hitems
    · simp only [Except.bind_eq_ok, Prod.exists] at h
      obtain ⟨_, _, _, _, _, hentries, heq⟩ := h
      cases heq
      exact entries_wellFormed (fun _ _ _ => ih) hentries ⟨List.Pairwise.nil, trivial⟩
    · cases h
      trivial
    · cases h
      trivial
    · cases h
      trivial
    · simp [Except.bind_eq_ok] at h

theorem decode_wellFormed {b : Bytes} {v : CborValue} (h : decode b = .ok v) : WellFormed v :=
  value_wellFormed (decodeDetailed_eq_ok (Except.mapError_eq_ok.mp h)).2

/-- A value whose maps are ordered, as the maps of the source always are. -/
abbrev OrderedValue := { value : CborValue // WellFormed value }

/-- Decoding and encoding are inverse to each other, limits included. -/
theorem decode_eq_ok_iff_encode (b : Bytes) (v : OrderedValue) :
    decode b = .ok v.val ↔ encode v.val = .ok b :=
  ⟨encode_decode, decode_encode v.property⟩

theorem encode_injective {v w : CborValue} {b : Bytes} (hv : WellFormed v) (hw : WellFormed w)
    (hvb : encode v = .ok b) (hwb : encode w = .ok b) : v = w := by
  have h := decode_encode hv hvb
  rw [decode_encode hw hwb] at h
  exact (Except.ok.inj h).symm

theorem encode_prefix_free {v w : CborValue} {b c s t : Bytes} (hv : WellFormed v)
    (hw : WellFormed w) (hvb : encode v = .ok b) (hwc : encode w = .ok c) (h : b ++ s = c ++ t) :
    v = w ∧ b = c ∧ s = t := by
  have hread := value_encode hv hvb s
  rw [h, value_encode hw hwc t] at hread
  simp only [Except.ok.injEq, Prod.mk.injEq] at hread
  obtain ⟨rfl, rfl⟩ := hread
  exact ⟨rfl, List.append_cancel_right h, rfl⟩

end LicoArc.Encoding
