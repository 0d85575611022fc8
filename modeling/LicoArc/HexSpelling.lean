import LicoArc.IdentityLaws
import LicoArc.RecordSize

/-!
# Spellings of a hexadecimal text

The decoder takes upper-case digits and a plus sign in place of a leading zero,
so that one byte may have several spellings. A byte of two decimal digits whose
first one is not zero has a single one.
-/

namespace LicoArc

namespace Identity

open Json

section Digits

def spellingBytes : Bytes :=
  [43, 48, 49, 50, 51, 52, 53, 54, 55, 56, 57, 65, 66, 67, 68, 69, 70, 97, 98, 99, 100, 101, 102]

theorem toDigit_cases : ∀ n < 256, (toDigit (UInt8.ofNat n)).all (fun digit => digit < 16 ∧
    UInt8.ofNat n ∈ spellingBytes ∧ UInt8.ofNat n ≠ 43 ∧
      (digit < 10 → UInt8.ofNat n = hexDigitByte digit)) := by
  decide +kernel

theorem toDigit_eq_some {byte : UInt8} {digit : Nat} (h : toDigit byte = some digit) :
    digit < 16 ∧ byte ∈ spellingBytes ∧ byte ≠ 43 ∧ (digit < 10 → byte = hexDigitByte digit) := by
  have hcases := toDigit_cases byte.toNat byte.toNat_lt
  rw [UInt8.ofNat_toNat, h, Option.all_some, decide_eq_true_eq] at hcases
  exact hcases

/-- Two bytes of a text that the decoder reads as one. -/
def Spells (pair : UInt8 × UInt8) (byte : UInt8) : Prop :=
  fromStrRadix16 [pair.1, pair.2] = some byte

theorem digitsRadix16_two {a b : UInt8} {n : Nat} : digitsRadix16 [a, b] = some n ↔
    ∃ high low, toDigit a = some high ∧ toDigit b = some low ∧ n = high * 16 + low := by
  simp only [digitsRadix16, List.foldlM_cons, List.foldlM_nil, Option.bind_eq_bind, Nat.zero_mul,
    Nat.zero_add, Option.pure_def, Option.bind_eq_some_iff, Option.ite_none_right_eq_some,
    Option.some.injEq]
  constructor
  · rintro ⟨_, ⟨high, hhigh, _, rfl⟩, _, ⟨low, hlow, _, rfl⟩, rfl⟩
    exact ⟨high, low, hhigh, hlow, rfl⟩
  · rintro ⟨high, low, hhigh, hlow, rfl⟩
    have hhigh' := (toDigit_eq_some hhigh).1
    have hlow' := (toDigit_eq_some hlow).1
    exact ⟨high, ⟨high, hhigh, by omega, rfl⟩, _, ⟨low, hlow, by omega, rfl⟩, rfl⟩

theorem digitsRadix16_one {b : UInt8} {n : Nat} :
    digitsRadix16 [b] = some n ↔ toDigit b = some n := by
  simp only [digitsRadix16, List.foldlM_cons, List.foldlM_nil, Option.bind_eq_bind, Nat.zero_mul,
    Nat.zero_add, Option.pure_def, Option.bind_eq_some_iff, Option.ite_none_right_eq_some,
    Option.some.injEq]
  constructor
  · rintro ⟨_, ⟨digit, hdigit, _, rfl⟩, rfl⟩
    exact hdigit
  · intro h
    have hlt := (toDigit_eq_some h).1
    exact ⟨n, ⟨n, h, by omega, rfl⟩, rfl⟩

/-- A pair is a plus sign and a digit, or two digits. -/
theorem spells_iff {pair : UInt8 × UInt8} {byte : UInt8} : Spells pair byte ↔
    pair.1 = 43 ∧ toDigit pair.2 = some byte.toNat ∨
    ∃ high low, toDigit pair.1 = some high ∧ toDigit pair.2 = some low ∧
      byte.toNat = high * 16 + low := by
  change (digitsRadix16 (if pair.1 = 43 then [pair.2] else [pair.1, pair.2])).map UInt8.ofNat =
    some byte ↔ _
  rw [Option.map_eq_some_iff]
  by_cases hplus : pair.1 = 43
  · simp only [if_pos hplus, digitsRadix16_one]
    constructor
    · rintro ⟨digit, hdigit, rfl⟩
      have hlt := (toDigit_eq_some hdigit).1
      rw [UInt8.toNat_ofNat', Nat.mod_eq_of_lt (by omega)]
      exact .inl ⟨hplus, hdigit⟩
    · rintro (⟨_, hdigit⟩ | ⟨_, _, hhigh, _⟩)
      · exact ⟨_, hdigit, UInt8.ofNat_toNat⟩
      · exact absurd hplus (toDigit_eq_some hhigh).2.2.1
  · simp only [if_neg hplus, digitsRadix16_two]
    constructor
    · rintro ⟨_, ⟨high, low, hhigh, hlow, rfl⟩, rfl⟩
      have hhigh' := (toDigit_eq_some hhigh).1
      have hlow' := (toDigit_eq_some hlow).1
      rw [UInt8.toNat_ofNat', Nat.mod_eq_of_lt (by omega)]
      exact .inr ⟨high, low, hhigh, hlow, rfl⟩
    · rintro (⟨h, _⟩ | ⟨high, low, hhigh, hlow, heq⟩)
      · exact absurd h hplus
      · exact ⟨byte.toNat, ⟨high, low, hhigh, hlow, heq⟩, UInt8.ofNat_toNat⟩

theorem Spells.mem {pair : UInt8 × UInt8} {byte : UInt8} (h : Spells pair byte) :
    pair.1 ∈ spellingBytes ∧ pair.2 ∈ spellingBytes := by
  rcases spells_iff.mp h with ⟨hplus, hdigit⟩ | ⟨high, low, hhigh, hlow, _⟩
  · exact ⟨hplus ▸ List.mem_cons_self, (toDigit_eq_some hdigit).2.1⟩
  · exact ⟨(toDigit_eq_some hhigh).2.1, (toDigit_eq_some hlow).2.1⟩

/-- Two decimal digits, the first one not zero. -/
def OneSpelling (byte : UInt8) : Prop :=
  1 ≤ byte.toNat / 16 ∧ byte.toNat / 16 ≤ 9 ∧ byte.toNat % 16 ≤ 9

instance (byte : UInt8) : Decidable (OneSpelling byte) := by
  unfold OneSpelling
  infer_instance

theorem OneSpelling.unique {pair : UInt8 × UInt8} {byte : UInt8} (h : OneSpelling byte)
    (hspells : Spells pair byte) : [pair.1, pair.2] = hexPair byte := by
  obtain ⟨hpositive, hhigh', hlow'⟩ := h
  rcases spells_iff.mp hspells with ⟨_, hdigit⟩ | ⟨high, low, hhigh, hlow, heq⟩
  · have hlt := (toDigit_eq_some hdigit).1
    omega
  · obtain ⟨_, _, _, hfirst⟩ := toDigit_eq_some hhigh
    obtain ⟨_, _, _, hsecond⟩ := toDigit_eq_some hlow
    have hdiv : byte.toNat / 16 = high := by omega
    have hmod : byte.toNat % 16 = low := by omega
    rw [hexPair, hdiv, hmod, hfirst (by omega), hsecond (by omega)]

def upperDigitByte (digit : Nat) : UInt8 :=
  UInt8.ofNat (if digit < 10 then 48 + digit else 55 + digit)

theorem toDigit_upperDigitByte {digit : Nat} (h : digit < 16) :
    toDigit (upperDigitByte digit) = some digit := by
  interval_cases digit <;> rfl

/-- A spelling with a plus sign or in upper case. -/
def otherPair (byte : UInt8) : UInt8 × UInt8 :=
  (if byte.toNat / 16 = 0 then 43 else upperDigitByte (byte.toNat / 16),
    upperDigitByte (byte.toNat % 16))

theorem spells_otherPair (byte : UInt8) : Spells (otherPair byte) byte := by
  obtain ⟨hhigh, hlow⟩ := nibbles_lt byte
  rw [spells_iff, otherPair]
  by_cases hzero : byte.toNat / 16 = 0
  · refine .inl ⟨if_pos hzero, ?_⟩
    rw [toDigit_upperDigitByte hlow]
    congr 1
    omega
  · refine .inr ⟨byte.toNat / 16, byte.toNat % 16, ?_, toDigit_upperDigitByte hlow, by omega⟩
    rw [if_neg hzero, toDigit_upperDigitByte hhigh]

theorem upperDigitByte_ne {digit : Nat} (h : digit < 16) (hletter : 10 ≤ digit) :
    upperDigitByte digit ≠ hexDigitByte digit := by
  interval_cases digit <;> decide

theorem otherPair_ne {byte : UInt8} (h : ¬OneSpelling byte) :
    [(otherPair byte).1, (otherPair byte).2] ≠ hexPair byte := by
  obtain ⟨hhigh, hlow⟩ := nibbles_lt byte
  intro heq
  rw [otherPair, hexPair, List.cons.injEq, List.cons.injEq] at heq
  obtain ⟨hfirst, hsecond, _⟩ := heq
  have hdigit : byte.toNat % 16 ≤ 9 := by
    by_contra hletter
    exact upperDigitByte_ne hlow (by omega) hsecond
  by_cases hzero : byte.toNat / 16 = 0
  · rw [if_pos hzero, hzero] at hfirst
    cases hfirst
  · rw [if_neg hzero] at hfirst
    have hsmall : byte.toNat / 16 ≤ 9 := by
      by_contra hletter
      exact upperDigitByte_ne hhigh (by omega) hfirst
    exact h ⟨by omega, hsmall, hdigit⟩

end Digits

section Texts

def pairBytes (pairs : List (UInt8 × UInt8)) : Bytes :=
  pairs.flatMap fun pair => [pair.1, pair.2]

theorem pairBytes_length (pairs : List (UInt8 × UInt8)) :
    (pairBytes pairs).length = pairs.length * 2 := by
  simp [pairBytes, List.length_flatMap]

theorem spellingBytes_ascii : ∀ byte ∈ spellingBytes, byte < 0x80 := by
  decide +kernel

theorem pairBytes_mem {pairs : List (UInt8 × UInt8)} {bytes : Bytes}
    (h : List.Forall₂ Spells pairs bytes) : ∀ byte ∈ pairBytes pairs, byte ∈ spellingBytes := by
  induction h with
  | nil => exact nofun
  | cons hspells _ ih =>
    obtain ⟨hfirst, hsecond⟩ := hspells.mem
    exact List.forall_mem_cons.mpr ⟨hfirst, List.forall_mem_cons.mpr ⟨hsecond, ih⟩⟩

theorem decodePair_spells {d : Bytes} {index : Nat} {byte : UInt8} (hindex : index + 2 ≤ d.length)
    (h : decodePair d index = .ok byte) :
    ∃ pair, Spells pair byte ∧ (d.drop index).take 2 = [pair.1, pair.2] := by
  simp only [decodePair, Except.bind_eq_ok, okOr_eq_ok] at h
  obtain ⟨slice, hslice, hbyte⟩ := h
  rw [sliceText] at hslice
  split at hslice
  · cases hslice
    rw [Nat.add_sub_cancel_left] at hbyte
    have hlength : ((d.drop index).take 2).length = 2 := by
      rw [List.length_take, List.length_drop]
      omega
    obtain ⟨a, b, heq⟩ := List.length_eq_two.mp hlength
    rw [heq] at hbyte
    exact ⟨(a, b), hbyte, heq⟩
  · cases hslice

theorem decodePairs_eq_ok {d bytes : Bytes} {start count : Nat}
    (hcount : start + count * 2 ≤ d.length)
    (h : (List.range' start count 2).mapM (decodePair d) = .ok bytes) :
    ∃ pairs, List.Forall₂ Spells pairs bytes ∧ (d.drop start).take (count * 2) = pairBytes
      pairs := by
  induction count generalizing start bytes with
  | zero =>
    cases h
    exact ⟨[], .nil, by simp [pairBytes]⟩
  | succ count ih =>
    rw [List.range'_succ, List.mapM_cons, Except.bind_eq_ok] at h
    obtain ⟨byte, hbyte, h⟩ := h
    rw [Except.bind_eq_ok] at h
    obtain ⟨rest, hrest, h⟩ := h
    cases h
    obtain ⟨pair, hspells, hpair⟩ := decodePair_spells (by omega) hbyte
    obtain ⟨pairs, hpairs, htail⟩ := ih (by omega) hrest
    refine ⟨pair :: pairs, .cons hspells hpairs, ?_⟩
    rw [show (count + 1) * 2 = 2 + count * 2 by omega, List.take_add, hpair, List.drop_drop, htail]
    rfl

theorem mapM_pairs (before : List (UInt8 × UInt8)) {pairs : List (UInt8 × UInt8)} {bytes : Bytes}
    (h : List.Forall₂ Spells pairs bytes)
    (hascii : ∀ byte ∈ pairBytes (before ++ pairs), byte < 0x80) :
    (List.range' (before.length * 2) pairs.length 2).mapM
      (decodePair (pairBytes (before ++ pairs))) = .ok bytes := by
  induction h generalizing before with
  | nil => rfl
  | @cons pair byte pairs bytes hspells _ ih =>
    have hpair : decodePair (pairBytes (before ++ pair :: pairs)) (before.length * 2) =
        .ok byte := by
      have hslice : sliceText (pairBytes (before ++ pair :: pairs)) (before.length * 2)
          (before.length * 2 + 2) = .ok [pair.1, pair.2] := by
        rw [sliceText, if_pos]
        · rw [pairBytes, List.flatMap_append, ← pairBytes_length before, pairBytes, List.drop_left,
            List.flatMap_cons, Nat.add_sub_cancel_left]
          rfl
        · refine ⟨by omega, ?_, ?_⟩ <;>
            · refine isCharBoundary_of_ascii hascii ?_
              rw [pairBytes_length, List.length_append, List.length_cons]
              omega
      rw [decodePair, hslice, Except.ok_bind, hspells]
      rfl
    have hrest := ih (before ++ [pair])
    rw [List.append_assoc, List.singleton_append, List.length_append, List.length_singleton,
      add_mul, one_mul] at hrest
    rw [List.length_cons, List.range'_succ, List.mapM_cons, hpair, Except.ok_bind, hrest hascii]
    rfl

/-- A text decodes to the bytes that its pairs spell. -/
theorem decodeHexText_eq_ok {text : String} {bytes : Bytes} : decodeHexText text = .ok bytes ↔
    ∃ pairs, List.Forall₂ Spells pairs bytes ∧ Encoding.textBytes text = pairBytes pairs := by
  simp only [decodeHexText, Except.bind_eq_ok, reject_eq_ok, exists_const, not_not]
  constructor
  · rintro ⟨heven, h⟩
    obtain ⟨pairs, hpairs, htake⟩ := decodePairs_eq_ok (by omega) h
    refine ⟨pairs, hpairs, ?_⟩
    rw [← htake, List.drop_zero, List.take_of_length_le (by omega)]
  · rintro ⟨pairs, hpairs, htext⟩
    have hascii : ∀ byte ∈ pairBytes ([] ++ pairs), byte < 0x80 := fun byte hbyte =>
      spellingBytes_ascii byte (pairBytes_mem hpairs byte hbyte)
    rw [htext, pairBytes_length]
    exact ⟨by omega, by simpa using mapM_pairs [] hpairs hascii⟩

def asciiText (bytes : Bytes) : String :=
  String.ofList (bytes.map fun byte => Char.ofNat byte.toNat)

theorem spellingBytes_printed : ∀ byte ∈ spellingBytes,
    String.utf8EncodeChar (Char.ofNat byte.toNat) = [byte] ∧
      escaped (Char.ofNat byte.toNat) = [Char.ofNat byte.toNat] ∧
      (Char.ofNat byte.toNat).utf8Size = 1 := by
  decide +kernel

theorem textBytes_asciiText {bytes : Bytes} (h : ∀ byte ∈ bytes, byte ∈ spellingBytes) :
    Encoding.textBytes (asciiText bytes) = bytes := by
  rw [asciiText, Encoding.textBytes_ofList, List.flatMap_map]
  induction bytes with
  | nil => rfl
  | cons byte bytes ih =>
    obtain ⟨hfirst, hrest⟩ := List.forall_mem_cons.mp h
    rw [List.flatMap_cons, (spellingBytes_printed byte hfirst).1, ih hrest]
    rfl

theorem quoted_size {text : String} {bytes : Bytes} (h : decodeHexText text = .ok bytes) :
    (Encoding.textBytes text).length = bytes.length * 2 ∧
      (quoted text).utf8ByteSize = bytes.length * 2 + 2 := by
  obtain ⟨pairs, hpairs, htext⟩ := decodeHexText_eq_ok.mp h
  have hmem := pairBytes_mem hpairs
  have hlength : (Encoding.textBytes text).length = bytes.length * 2 := by
    rw [htext, pairBytes_length, hpairs.length_eq]
  refine ⟨hlength, ?_⟩
  have hascii : text = asciiText (pairBytes pairs) :=
    Encoding.textBytes_injective (htext.trans (textBytes_asciiText hmem).symm)
  have hchars : text.toList = (pairBytes pairs).map fun byte => Char.ofNat byte.toNat := by
    rw [hascii, asciiText, String.toList_ofList]
  have hescaped : text.toList.flatMap escaped = text.toList := by
    rw [hchars, List.flatMap_map]
    clear hlength htext hascii hchars
    generalize pairBytes pairs = d at hmem
    induction d with
    | nil => rfl
    | cons byte d ih =>
      obtain ⟨hfirst, hrest⟩ := List.forall_mem_cons.mp hmem
      rw [List.flatMap_cons, (spellingBytes_printed byte hfirst).2.1, ih hrest]
      rfl
  have hsize : ∀ c ∈ text.toList, c.utf8Size = 1 := by
    rw [hchars, List.forall_mem_map]
    exact fun byte hbyte => (spellingBytes_printed byte (hmem byte hbyte)).2.2
  rw [quoted, hescaped, utf8ByteSize_ofList]
  · have hcount : text.toList.length = bytes.length * 2 := by
      rw [hchars, List.length_map, pairBytes_length, hpairs.length_eq]
    simp [hcount]
  · intro c hc
    simp only [List.cons_append, List.mem_cons, List.mem_append, List.not_mem_nil, or_false] at hc
    rcases hc with rfl | hc | rfl
    · rfl
    · exact hsize c hc
    · rfl

/-- A text is the printed one where each of its bytes has one spelling. -/
theorem decodeHexText_unique {text : String} {bytes : Bytes} (h : decodeHexText text = .ok bytes)
    (hone : ∀ byte ∈ bytes, OneSpelling byte) : text = hexBytes bytes := by
  obtain ⟨pairs, hpairs, htext⟩ := decodeHexText_eq_ok.mp h
  refine Encoding.textBytes_injective ?_
  rw [htext, textBytes_hexBytes]
  clear htext h
  induction hpairs with
  | nil => rfl
  | @cons pair byte pairs bytes hspells _ ih =>
    obtain ⟨hfirst, hrest⟩ := List.forall_mem_cons.mp hone
    have hpair := hfirst.unique hspells
    rw [pairBytes, List.flatMap_cons, hpair, ← pairBytes, ih hrest]
    rfl

theorem forall₂_otherPair (bytes : Bytes) : List.Forall₂ Spells (bytes.map otherPair) bytes := by
  rw [List.forall₂_map_left_iff, List.forall₂_same]
  exact fun byte _ => spells_otherPair byte

def respell (text : String) : String :=
  match decodeHexText text with
  | .error _ => text
  | .ok bytes =>
    if text = hexBytes bytes then asciiText (pairBytes (bytes.map otherPair)) else hexBytes bytes

theorem decodeHexText_respell {text : String} {bytes : Bytes}
    (h : decodeHexText text = .ok bytes) : decodeHexText (respell text) = .ok bytes := by
  have hother := forall₂_otherPair bytes
  rw [respell, h]
  simp only
  split_ifs
  · exact decodeHexText_eq_ok.mpr ⟨_, hother, textBytes_asciiText (pairBytes_mem hother)⟩
  · exact decodeHexText_hexBytes bytes

theorem respell_ne {text : String} {bytes : Bytes} (h : decodeHexText text = .ok bytes)
    {byte : UInt8} (hbyte : byte ∈ bytes) (hmany : ¬OneSpelling byte) : respell text ≠ text := by
  rw [respell, h]
  simp only
  split_ifs with hprinted
  · intro heq
    have htext := congrArg Encoding.textBytes (heq.trans hprinted)
    rw [textBytes_asciiText (pairBytes_mem (forall₂_otherPair bytes)), textBytes_hexBytes] at htext
    clear h heq hprinted
    induction bytes with
    | nil => cases hbyte
    | cons first bytes ih =>
      rw [List.map_cons, pairBytes, List.flatMap_cons, ← pairBytes, List.flatMap_cons] at htext
      obtain ⟨hfirst, hrest⟩ := List.append_inj htext rfl
      rcases List.mem_cons.mp hbyte with rfl | hbyte
      · exact otherPair_ne hmany hfirst
      · exact ih hbyte hrest
  · exact fun heq => hprinted heq.symm

end Texts

end Identity

end LicoArc
