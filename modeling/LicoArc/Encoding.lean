import LicoArc.Bytes
import LicoArc.Error
import LicoArc.Interaction.Outcome

/-!
# Deterministic CBOR

The closed value set, its length-checked encoder and the strict decoder. A map
is the ascending entry list of the source's `BTreeMap`. The decoder carries the
bytes that it has not read yet in place of an offset, and the number of levels
that may still be opened in place of the depth.
-/

namespace LicoArc

inductive CborValue
  | null
  | unsigned (value : Nat)
  | bytes (value : Bytes)
  | text (value : String)
  | bool (value : Bool)
  | array (values : List CborValue)
  | map (entries : List (Nat × CborValue))

namespace Encoding

def maxDepth : Nat := 16
def maxCollectionItems : Nat := 64
def maxEncodedBytes : Nat := 1048576
def maxRawBytes : Nat := 262144
def maxTextBytes : Nat := 4096
def maxInteger : Nat := 9007199254740991

def representation (code : ErrorCode) : Error := .terminal code .representation

def textBytes (text : String) : Bytes := text.toByteArray.data.toList

def textOfBytes (bytes : Bytes) : Option String := String.fromUTF8? ⟨bytes.toArray⟩

def headLength (value : Nat) : Nat :=
  if value ≤ 23 then 1
  else if value ≤ 0xff then 2
  else if value ≤ 0xffff then 3
  else if value ≤ 0xffffffff then 5
  else 9

/-- The final test of `encoded_length`. -/
def withinEncodedBytes (length : Nat) : Except Error Nat :=
  if length > maxEncodedBytes then .error (representation .boundExceeded) else .ok length

mutual

def encodedLength (depth : Nat) : CborValue → Except Error Nat
  | .null =>
    if depth > maxDepth then .error (representation .boundExceeded) else withinEncodedBytes 1
  | .unsigned value =>
    if depth > maxDepth ∨ value > maxInteger then .error (representation .boundExceeded)
    else withinEncodedBytes (headLength value)
  | .bytes value =>
    if depth > maxDepth ∨ value.length > maxRawBytes then .error (representation .boundExceeded)
    else withinEncodedBytes (headLength value.length + value.length)
  | .text value =>
    if depth > maxDepth ∨ (textBytes value).length > maxTextBytes then
      .error (representation .boundExceeded)
    else withinEncodedBytes (headLength (textBytes value).length + (textBytes value).length)
  | .bool _ =>
    if depth > maxDepth then .error (representation .boundExceeded) else withinEncodedBytes 1
  | .array values =>
    if depth > maxDepth ∨ values.length > maxCollectionItems then
      .error (representation .boundExceeded)
    else collectionEncodedLength depth (headLength values.length) values >>= withinEncodedBytes
  | .map entries =>
    if depth > maxDepth ∨ entries.length > maxCollectionItems then
      .error (representation .boundExceeded)
    else entriesEncodedLength depth (headLength entries.length) entries >>= withinEncodedBytes

def collectionEncodedLength (depth length : Nat) : List CborValue → Except Error Nat
  | [] => .ok length
  | value :: values => do
    let valueLength ← encodedLength (depth + 1) value
    collectionEncodedLength depth (length + valueLength) values

def entriesEncodedLength (depth length : Nat) : List (Nat × CborValue) → Except Error Nat
  | [] => .ok length
  | (key, value) :: entries => do
    reject (key > maxInteger) (representation .boundExceeded)
    let valueLength ← encodedLength (depth + 1) value
    entriesEncodedLength depth (length + headLength key + valueLength) entries

end

def head (major : UInt8) (value : Nat) : Bytes :=
  let pre := major <<< 5
  if value ≤ 23 then [pre ||| UInt8.ofNat value]
  else if value ≤ 0xff then [pre ||| 24, UInt8.ofNat value]
  else if value ≤ 0xffff then (pre ||| 25) :: bigEndian 2 value
  else if value ≤ 0xffffffff then (pre ||| 26) :: bigEndian 4 value
  else (pre ||| 27) :: bigEndian 8 value

mutual

def encodeInto : CborValue → Bytes
  | .null => [0xf6]
  | .unsigned value => head 0 value
  | .bytes value => head 2 value.length ++ value
  | .text value => head 3 (textBytes value).length ++ textBytes value
  | .bool value => [if value then 0xf5 else 0xf4]
  | .array values => head 4 values.length ++ encodeItems values
  | .map entries => head 5 entries.length ++ encodeEntries entries

def encodeItems : List CborValue → Bytes
  | [] => []
  | value :: values => encodeInto value ++ encodeItems values

def encodeEntries : List (Nat × CborValue) → Bytes
  | [] => []
  | (key, value) :: entries => head 0 key ++ encodeInto value ++ encodeEntries entries

end

def encode (value : CborValue) : Except Error Bytes := do
  let _ ← encodedLength 0 value
  return encodeInto value

inductive DecodeFailure
  | boundExceeded
  | indefiniteLength
  | negativeLabel
  | duplicateLabel
  | trailingBytes
  | nonCanonical
  | invalid
  deriving DecidableEq, Repr

def DecodeFailure.intoError : DecodeFailure → Error
  | .boundExceeded => representation .boundExceeded
  | .nonCanonical => representation .nonCanonicalRepresentation
  | .indefiniteLength | .negativeLabel | .duplicateLabel | .trailingBytes | .invalid =>
    representation .invalidRepresentation

/-- `BTreeMap::insert` on an ascending entry list. -/
def insertEntry (key : Nat) (value : CborValue) :
    List (Nat × CborValue) → List (Nat × CborValue)
  | [] => [(key, value)]
  | (first, other) :: entries =>
    if key < first then (key, value) :: (first, other) :: entries
    else if key = first then (key, value) :: entries
    else (first, other) :: insertEntry key value entries

def lookupEntry (key : Nat) : List (Nat × CborValue) → Option CborValue
  | [] => none
  | (first, value) :: entries => if key = first then some value else lookupEntry key entries

def removeEntry (key : Nat) (entries : List (Nat × CborValue)) : List (Nat × CborValue) :=
  entries.filter (fun entry => entry.1 ≠ key)

namespace Decoder

def byte : Bytes → Except DecodeFailure (UInt8 × Bytes)
  | [] => .error .invalid
  | value :: rest => .ok (value, rest)

def slice (length : Nat) (input : Bytes) : Except DecodeFailure (Bytes × Bytes) :=
  if length ≤ input.length then .ok (input.take length, input.drop length) else .error .invalid

/-- An argument of `width` bytes, which must exceed every shorter form. -/
def wideArgument (width above : Nat) (input : Bytes) : Except DecodeFailure (Nat × Bytes) := do
  let (array, rest) ← slice width input
  let value := fromBigEndian array
  reject (value ≤ above) .nonCanonical
  return (value, rest)

def argument (additional : UInt8) (input : Bytes) : Except DecodeFailure (Nat × Bytes) :=
  if additional ≤ 23 then .ok (additional.toNat, input)
  else if additional = 24 then wideArgument 1 23 input
  else if additional = 25 then wideArgument 2 0xff input
  else if additional = 26 then wideArgument 4 0xffff input
  else if additional = 27 then wideArgument 8 0xffffffff input
  else if additional = 31 then .error .indefiniteLength
  else .error .invalid

def collectionLength (additional : UInt8) (input : Bytes) : Except DecodeFailure (Nat × Bytes) := do
  let (length, rest) ← argument additional input
  reject (length > maxCollectionItems) .boundExceeded
  return (length, rest)

def items (value : Bytes → Except DecodeFailure (CborValue × Bytes)) :
    Nat → Bytes → Except DecodeFailure (List CborValue × Bytes)
  | 0, input => .ok ([], input)
  | count + 1, input => do
    let (first, rest) ← value input
    let (others, rest) ← items value count rest
    return (first :: others, rest)

def label (input : Bytes) : Except DecodeFailure (Nat × Bytes) := do
  let (initial, rest) ← byte input
  if initial >>> 5 = 1 then
    let _ ← argument (initial &&& 0x1f) rest
    throw .negativeLabel
  reject (initial >>> 5 ≠ 0) .invalid
  let (key, rest) ← argument (initial &&& 0x1f) rest
  reject (key > maxInteger) .boundExceeded
  return (key, rest)

def entries (value : Bytes → Except DecodeFailure (CborValue × Bytes)) :
    Nat → List (Nat × CborValue) → Bytes →
      Except DecodeFailure (List (Nat × CborValue) × Bytes)
  | 0, done, input => .ok (done, input)
  | count + 1, done, input => do
    let (key, rest) ← label input
    let (item, rest) ← value rest
    reject ((lookupEntry key done).isSome) .duplicateLabel
    entries value count (insertEntry key item done) rest

/-- One value, with `levels` nesting levels left: `MAX_DEPTH + 1 - depth`. -/
def value : (levels : Nat) → Bytes → Except DecodeFailure (CborValue × Bytes)
  | 0, _ => .error .boundExceeded
  | levels + 1, input => do
    let (initial, rest) ← byte input
    let major := initial >>> 5
    let additional := initial &&& 0x1f
    if major = 0 then
      let (argument, rest) ← argument additional rest
      reject (argument > maxInteger) .boundExceeded
      return (.unsigned argument, rest)
    else if major = 2 then
      let (length, rest) ← argument additional rest
      reject (length > maxRawBytes) .boundExceeded
      let (bytes, rest) ← slice length rest
      return (.bytes bytes, rest)
    else if major = 3 then
      let (length, rest) ← argument additional rest
      reject (length > maxTextBytes) .boundExceeded
      let (bytes, rest) ← slice length rest
      match textOfBytes bytes with
      | some text => return (.text text, rest)
      | none => throw .invalid
    else if major = 4 then
      let (length, rest) ← collectionLength additional rest
      let (values, rest) ← items (value levels) length rest
      return (.array values, rest)
    else if major = 5 then
      let (length, rest) ← collectionLength additional rest
      let (values, rest) ← entries (value levels) length [] rest
      return (.map values, rest)
    else if initial = 0xf4 then return (.bool false, rest)
    else if initial = 0xf5 then return (.bool true, rest)
    else if initial = 0xf6 then return (.null, rest)
    else if major = 1 ∨ major = 6 then
      let _ ← argument additional rest
      throw .invalid
    else throw .invalid

end Decoder

def decodeDetailed (bytes : Bytes) : Except DecodeFailure CborValue := do
  reject (bytes.length > maxEncodedBytes) .boundExceeded
  let (value, rest) ← Decoder.value (maxDepth + 1) bytes
  reject (rest ≠ []) .trailingBytes
  match encode value with
  | .error _ => throw .boundExceeded
  | .ok encoded => if encoded = bytes then return value else throw .nonCanonical

def decode (bytes : Bytes) : Except Error CborValue :=
  (decodeDetailed bytes).mapError DecodeFailure.intoError

end Encoding

end LicoArc
