import LicoArc.EncodingLaws

/-!
# Sizes of encodings

A bound on the length of an encoding that is a sum over the parts of the value,
and the limits under which the encoder succeeds.
-/

namespace LicoArc

namespace Encoding

mutual

/-- The most bytes that the encoding of a value takes. -/
def valueSize : CborValue → Nat
  | .null | .bool _ | .unsigned _ => 9
  | .bytes value => 9 + value.length
  | .text value => 9 + (textBytes value).length
  | .array values => 9 + itemsSize values
  | .map entries => 9 + entriesSize entries

def itemsSize : List CborValue → Nat
  | [] => 0
  | value :: values => valueSize value + itemsSize values

def entriesSize : List (Nat × CborValue) → Nat
  | [] => 0
  | (_, value) :: entries => 9 + valueSize value + entriesSize entries

end

mutual

/-- The local limits of a value with the levels that it may still open. -/
def Fits (levels : Nat) : CborValue → Prop
  | .null | .bool _ => True
  | .unsigned value => value ≤ maxInteger
  | .bytes value => value.length ≤ maxRawBytes
  | .text value => (textBytes value).length ≤ maxTextBytes
  | .array values => values.length ≤ maxCollectionItems ∧ levels ≠ 0 ∧ ItemsFit (levels - 1) values
  | .map entries => entries.length ≤ maxCollectionItems ∧ levels ≠ 0 ∧
      EntriesFit (levels - 1) entries

def ItemsFit (levels : Nat) : List CborValue → Prop
  | [] => True
  | value :: values => Fits levels value ∧ ItemsFit levels values

def EntriesFit (levels : Nat) : List (Nat × CborValue) → Prop
  | [] => True
  | (key, value) :: entries => key ≤ maxInteger ∧ Fits levels value ∧ EntriesFit levels entries

end

theorem headLength_le (value : Nat) : headLength value ≤ 9 := by
  unfold headLength
  split_ifs <;> decide

theorem withinEncodedBytes_ok {length : Nat} (h : length ≤ maxEncodedBytes) :
    withinEncodedBytes length = .ok length := if_neg (by omega)

mutual

theorem encodedLength_ok {levels : Nat} : ∀ (value : CborValue) {d : Nat}, Fits levels value →
    d + levels ≤ maxDepth → valueSize value ≤ maxEncodedBytes →
      ∃ length ≤ valueSize value, encodedLength d value = .ok length
  | .null, depth, _, hdepth, hsize | .bool _, depth, _, hdepth, hsize => by
    simp only [valueSize] at hsize ⊢
    refine ⟨1, by omega, ?_⟩
    rw [encodedLength, if_neg (by omega), withinEncodedBytes_ok (by omega)]
  | .unsigned value, depth, h, hdepth, hsize => by
    simp only [Fits] at h
    simp only [valueSize] at hsize ⊢
    refine ⟨headLength value, headLength_le value, ?_⟩
    rw [encodedLength, if_neg (by omega),
      withinEncodedBytes_ok ((headLength_le value).trans (by omega))]
  | .bytes value, depth, h, hdepth, hsize => by
    simp only [Fits] at h
    simp only [valueSize] at hsize ⊢
    have hhead := headLength_le value.length
    refine ⟨headLength value.length + value.length, by omega, ?_⟩
    rw [encodedLength, if_neg (by omega), withinEncodedBytes_ok (by omega)]
  | .text value, depth, h, hdepth, hsize => by
    simp only [Fits] at h
    simp only [valueSize] at hsize ⊢
    have hhead := headLength_le (textBytes value).length
    refine ⟨headLength (textBytes value).length + (textBytes value).length, by omega, ?_⟩
    rw [encodedLength, if_neg (by omega), withinEncodedBytes_ok (by omega)]
  | .array values, depth, h, hdepth, hsize => by
    simp only [Fits] at h
    simp only [valueSize] at hsize ⊢
    have hhead := headLength_le values.length
    obtain ⟨length, hlength, hitems⟩ := collectionEncodedLength_ok values
      (t := headLength values.length) h.2.2 (d := depth) (by omega) (by omega)
    refine ⟨length, by omega, ?_⟩
    rw [encodedLength, if_neg (by omega), hitems, Except.ok_bind, withinEncodedBytes_ok (by omega)]
  | .map entries, depth, h, hdepth, hsize => by
    simp only [Fits] at h
    simp only [valueSize] at hsize ⊢
    have hhead := headLength_le entries.length
    obtain ⟨length, hlength, hitems⟩ := entriesEncodedLength_ok entries
      (t := headLength entries.length) h.2.2 (d := depth) (by omega) (by omega)
    refine ⟨length, by omega, ?_⟩
    rw [encodedLength, if_neg (by omega), hitems, Except.ok_bind, withinEncodedBytes_ok (by omega)]

theorem collectionEncodedLength_ok {levels : Nat} : ∀ (values : List CborValue) {d t : Nat},
    ItemsFit levels values → d + 1 + levels ≤ maxDepth → itemsSize values ≤ maxEncodedBytes →
      ∃ length ≤ t + itemsSize values, collectionEncodedLength d t values = .ok length
  | [], _, total, _, _, _ => ⟨total, by simp only [itemsSize, Nat.add_zero, le_refl], rfl⟩
  | value :: values, depth, total, h, hdepth, hsize => by
    simp only [ItemsFit] at h
    simp only [itemsSize] at hsize ⊢
    obtain ⟨first, hfirst, hvalue⟩ := encodedLength_ok value h.1 hdepth (by omega)
    obtain ⟨length, hlength, hrest⟩ := collectionEncodedLength_ok values (t := total + first)
      h.2 hdepth (by omega)
    exact ⟨length, by omega, by rw [collectionEncodedLength, hvalue, Except.ok_bind, hrest]⟩

theorem entriesEncodedLength_ok {levels : Nat} :
    ∀ (entries : List (Nat × CborValue)) {d t : Nat},
    EntriesFit levels entries → d + 1 + levels ≤ maxDepth →
      entriesSize entries ≤ maxEncodedBytes →
      ∃ length ≤ t + entriesSize entries, entriesEncodedLength d t entries = .ok length
  | [], _, total, _, _, _ => ⟨total, by simp only [entriesSize, Nat.add_zero, le_refl], rfl⟩
  | (key, value) :: entries, depth, total, h, hdepth, hsize => by
    simp only [EntriesFit] at h
    simp only [entriesSize] at hsize ⊢
    have hkey := headLength_le key
    obtain ⟨first, hfirst, hvalue⟩ := encodedLength_ok value h.2.1 hdepth (by omega)
    obtain ⟨length, hlength, hrest⟩ := entriesEncodedLength_ok entries
      (t := total + headLength key + first) h.2.2 hdepth (by omega)
    refine ⟨length, by omega, ?_⟩
    rw [entriesEncodedLength, reject_of_not _ (by omega), Except.ok_bind, hvalue, Except.ok_bind,
      hrest]

end

theorem encode_ok {value : CborValue} (h : Fits maxDepth value)
    (hsize : valueSize value ≤ maxEncodedBytes) : encode value = .ok (encodeInto value) := by
  obtain ⟨length, _, hlength⟩ := encodedLength_ok (d := 0) value h (by omega) hsize
  rw [encode, hlength]
  rfl

mutual

theorem encodeInto_length_le : ∀ value : CborValue, (encodeInto value).length ≤ valueSize value
  | .null | .bool _ => by simp [encodeInto, valueSize]
  | .unsigned value => by
    rw [encodeInto, head_length]
    exact headLength_le value
  | .bytes value => by
    rw [encodeInto, List.length_append, head_length, valueSize]
    exact Nat.add_le_add_right (headLength_le _) _
  | .text value => by
    rw [encodeInto, List.length_append, head_length, valueSize]
    exact Nat.add_le_add_right (headLength_le _) _
  | .array values => by
    rw [encodeInto, List.length_append, head_length, valueSize]
    exact Nat.add_le_add (headLength_le _) (encodeItems_length_le values)
  | .map entries => by
    rw [encodeInto, List.length_append, head_length, valueSize]
    exact Nat.add_le_add (headLength_le _) (encodeEntries_length_le entries)

theorem encodeItems_length_le : ∀ values : List CborValue,
    (encodeItems values).length ≤ itemsSize values
  | [] => le_rfl
  | value :: values => by
    rw [encodeItems, List.length_append, itemsSize]
    exact Nat.add_le_add (encodeInto_length_le value) (encodeItems_length_le values)

theorem encodeEntries_length_le : ∀ entries : List (Nat × CborValue),
    (encodeEntries entries).length ≤ entriesSize entries
  | [] => le_rfl
  | (key, value) :: entries => by
    have hkey := headLength_le key
    have hvalue := encodeInto_length_le value
    have hentries := encodeEntries_length_le entries
    rw [encodeEntries, List.length_append, List.length_append, head_length, entriesSize]
    omega

end

theorem entriesSize_append (first second : List (Nat × CborValue)) :
    entriesSize (first ++ second) = entriesSize first + entriesSize second := by
  induction first with
  | nil => rw [List.nil_append, entriesSize, Nat.zero_add]
  | cons entry first ih =>
    obtain ⟨key, value⟩ := entry
    rw [List.cons_append, entriesSize, ih, entriesSize]
    omega

theorem entriesSize_le {entries : List (Nat × CborValue)} {size : Nat}
    (h : ∀ entry ∈ entries, valueSize entry.2 ≤ size) :
    entriesSize entries ≤ entries.length * (9 + size) := by
  induction entries with
  | nil => rw [entriesSize, List.length_nil, Nat.zero_mul]
  | cons entry entries ih =>
    obtain ⟨key, value⟩ := entry
    have hfirst : valueSize value ≤ size := h _ List.mem_cons_self
    have hrest := ih fun entry hentry => h entry (List.mem_cons_of_mem _ hentry)
    rw [entriesSize, List.length_cons, Nat.succ_mul]
    omega

theorem itemsSize_le {values : List CborValue} {size : Nat}
    (h : ∀ value ∈ values, valueSize value ≤ size) : itemsSize values ≤ values.length * size := by
  induction values with
  | nil => rw [itemsSize, List.length_nil, Nat.zero_mul]
  | cons value values ih =>
    have hfirst := h _ List.mem_cons_self
    have hrest := ih fun value hvalue => h value (List.mem_cons_of_mem _ hvalue)
    rw [itemsSize, List.length_cons, Nat.succ_mul]
    omega

end Encoding

end LicoArc
