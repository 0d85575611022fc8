import LicoArc.Encoding

/-!
# Logical messages

The closed message, its validation and its encoding, and the receive state
that an attachment event carries as its payload.
-/

namespace LicoArc

namespace Messaging

def maxPayloadBytes : Nat := 262144
def maxAttachments : Nat := 8
def maxRequestRanges : Nat := 32
def maxRequestedChunks : Nat := 128
def maxStateUpdate : Nat := 64
def maxRecoveryRound : Nat := 32
def maxControlRecordBytes : Nat := 65536
def reservedStart : Nat := 4294901760
def attachmentReceiveState : Nat := 4294901761

/-! ## Closed records -/

abbrev Entries := List (Nat × CborValue)

def takeBytes (key : Nat) (entries : Entries) : Except Error (Bytes × Entries) :=
  match Encoding.lookupEntry key entries with
  | some (.bytes value) => .ok (value, Encoding.removeEntry key entries)
  | _ => .error (.validation .invalidRepresentation)

def takeFixed (n key : Nat) (entries : Entries) : Except Error (FixedBytes n × Entries) := do
  let (bytes, entries) ← takeBytes key entries
  let value ← okOr (.validation .invalidRepresentation) (FixedBytes.ofBytes? n bytes)
  return (value, entries)

def takeUnsigned (key : Nat) (entries : Entries) : Except Error (Nat × Entries) :=
  match Encoding.lookupEntry key entries with
  | some (.unsigned value) => .ok (value, Encoding.removeEntry key entries)
  | _ => .error (.validation .invalidRepresentation)

def takeOptionalUnsigned (key : Nat) (entries : Entries) : Except Error (Option Nat × Entries) :=
  match Encoding.lookupEntry key entries with
  | some (.unsigned value) => .ok (some value, Encoding.removeEntry key entries)
  | some _ => .error (.validation .invalidRepresentation)
  | none => .ok (none, entries)

def takeOptionalFixed (n key : Nat) (entries : Entries) :
    Except Error (Option (FixedBytes n) × Entries) :=
  match Encoding.lookupEntry key entries with
  | some (.bytes bytes) => do
    let value ← okOr (.validation .invalidRepresentation) (FixedBytes.ofBytes? n bytes)
    return (some value, Encoding.removeEntry key entries)
  | some _ => .error (.validation .invalidRepresentation)
  | none => .ok (none, entries)

def takeOptionalBool (key : Nat) (entries : Entries) : Except Error (Option Bool × Entries) :=
  match Encoding.lookupEntry key entries with
  | some (.bool value) => .ok (some value, Encoding.removeEntry key entries)
  | some _ => .error (.validation .invalidRepresentation)
  | none => .ok (none, entries)

def tryU32 (value : Nat) : Except Error UInt32 := do
  reject (value ≥ 2 ^ 32) (.validation .boundExceeded)
  return UInt32.ofNat value

/-! ## Attachment receive state -/

structure ChunkRange where
  start : Nat
  stop : Nat
  deriving DecidableEq, Repr

inductive ReceiveOutcome
  | pending
  | complete
  | cancelled
  | failed
  deriving DecidableEq, Repr

end Messaging

open Messaging

structure ReceiveState where
  attachmentId : FixedBytes 16
  ranges : List ChunkRange
  stateUpdate : Nat
  outcome : ReceiveOutcome
  failureCode : Option Nat
  recoveryRound : Nat
  deriving DecidableEq

namespace ReceiveState

/-- The loop over the ranges, with the chunks covered and the previous end so far. -/
def validateRanges : (covered : Nat) → (previousEnd : Option Nat) → List ChunkRange →
    Except Error Unit
  | _, _, [] => .ok ()
  | covered, previousEnd, range :: ranges => do
    reject (range.start ≥ range.stop ∨ previousEnd.any (range.start ≤ ·))
      (.validation .invalidRepresentation)
    let covered := covered + (range.stop - range.start)
    reject (covered > maxRequestedChunks) (.validation .boundExceeded)
    validateRanges covered (some range.stop) ranges

def validate (self : ReceiveState) : Except Error Unit := do
  reject (self.ranges.length > maxRequestRanges ∨ self.stateUpdate > maxStateUpdate ∨
    self.recoveryRound > maxRecoveryRound ∨ self.failureCode.any (· > 14))
    (.validation .boundExceeded)
  validateRanges 0 none self.ranges
  let failed : Bool := self.outcome = .cancelled ∨ self.outcome = .failed
  reject (failed ≠ self.failureCode.isSome ∨
    self.ranges.isEmpty ≠ decide (self.outcome = .complete)) (.validation .invalidTransition)

def decodeRange : CborValue → Except Error ChunkRange
  | .map range => do
    let (start, range) ← takeUnsigned 0 range
    let (stop, range) ← takeUnsigned 1 range
    reject (range ≠ []) (.validation .unknownField)
    return { start, stop }
  | _ => .error (.validation .invalidRepresentation)

def decodeRanges : List CborValue → Except Error (List ChunkRange)
  | [] => .ok []
  | value :: values => do
    let range ← decodeRange value
    let ranges ← decodeRanges values
    return range :: ranges

def decode (bytes : Bytes) : Except Error ReceiveState := do
  reject (bytes.length > maxControlRecordBytes) (.validation .boundExceeded)
  match ← Encoding.decode bytes with
  | .map entries =>
    reject (∃ entry ∈ entries, entry.1 > 5) (.validation .unknownField)
    let ranges ← match Encoding.lookupEntry 1 entries with
      | some (.array values) => decodeRanges values
      | _ => .error (.validation .invalidRepresentation)
    let entries := Encoding.removeEntry 1 entries
    let (outcome, entries) ← takeUnsigned 3 entries
    let outcome ← match outcome with
      | 0 => .ok .pending
      | 1 => .ok .complete
      | 2 => .ok .cancelled
      | 3 => .ok .failed
      | _ => .error (.validation .unknownField)
    let (attachmentId, entries) ← takeFixed 16 0 entries
    let (stateUpdate, entries) ← takeUnsigned 2 entries
    let (failureCode, entries) ← takeOptionalUnsigned 4 entries
    let (recoveryRound, entries) ← takeUnsigned 5 entries
    reject (entries ≠ []) (.validation .unknownField)
    let state : ReceiveState :=
      { attachmentId, ranges, stateUpdate, outcome, failureCode, recoveryRound }
    state.validate
    return state
  | _ => throw (.validation .invalidRepresentation)

end ReceiveState

/-! ## Messages -/

inductive MessageKind
  | event
  | request
  | response
  | error
  | cancel
  | streamChunk
  deriving DecidableEq, Repr

structure Attachment where
  id : FixedBytes 16
  mediaType : UInt32
  byteLength : Nat
  contentDigest : FixedBytes 32
  deriving DecidableEq

structure Message where
  id : FixedBytes 16
  kind : MessageKind
  relatesTo : Option (FixedBytes 16)
  contentType : Nat
  payload : Bytes
  extensions : Std.ExtTreeMap Nat Bytes
  critical : List Nat
  chunkIndex : Option Nat
  chunkFinal : Option Bool
  attachmentId : Option (FixedBytes 16)
  attachments : List Attachment
  deriving DecidableEq

namespace Message

/-- The loop over the attachments: an identity that an earlier descriptor has is refused, with the
newest earlier one compared. -/
def validateDescriptors : (descriptors : List Attachment) → List Attachment → Except Error Unit
  | _, [] => .ok ()
  | descriptors, attachment :: attachments =>
    match descriptors.find? (·.id = attachment.id) with
    | some previous =>
      .error (.validation (if previous = attachment then .invalidRepresentation else .conflict))
    | none => validateDescriptors (attachment :: descriptors) attachments

def validate (self : Message) : Except Error Unit := do
  reject (self.payload.length > maxPayloadBytes ∨ self.attachments.length > maxAttachments)
    (.validation .boundExceeded)
  reject (self.extensions.size > 16 ∨
    (self.extensions.toList.any fun entry =>
      entry.1 < 65536 ∨ entry.1 > 2147483647 ∨ entry.2.length > 4096) ∨
    self.critical.length > 16) (.validation .boundExceeded)
  reject (self.critical ≠ []) (.validation .unknownField)
  let correlated : Bool := self.kind = .response ∨ self.kind = .error ∨ self.kind = .cancel ∨
    self.kind = .streamChunk ∨ (self.kind = .event ∧ self.contentType = attachmentReceiveState)
  reject (correlated ≠ self.relatesTo.isSome) (.validation .invalidTransition)
  reject (self.contentType ≥ reservedStart ∧ self.contentType ≠ attachmentReceiveState)
    (.validation .unknownField)
  let chunk : Bool := self.kind = .streamChunk
  reject (chunk ≠ self.chunkIndex.isSome ∨
    (¬chunk ∧ (self.chunkFinal.isSome ∨ self.attachmentId.isSome)) ∨
    (chunk ∧ self.chunkFinal.isSome = self.attachmentId.isSome)) (.validation .invalidTransition)
  reject (self.contentType = attachmentReceiveState ∧
    (self.kind ≠ .event ∨ self.relatesTo = none ∨ self.attachments ≠ [] ∨
      ¬(ReceiveState.decode self.payload).isOk)) (.validation .invalidTransition)
  reject (∃ attachment ∈ self.attachments, attachment.byteLength > 8388608)
    (.validation .boundExceeded)
  validateDescriptors [] self.attachments

def kindValue : MessageKind → Nat
  | .event => 0
  | .request => 1
  | .response => 2
  | .error => 3
  | .cancel => 4
  | .streamChunk => 5

def attachmentValue (item : Attachment) : CborValue :=
  .map [(0, .bytes item.id.toList), (1, .unsigned item.mediaType.toNat),
    (2, .unsigned item.byteLength), (3, .bytes item.contentDigest.toList)]

def entry (key : Nat) (value : Option CborValue) : Entries := (value.map (key, ·)).toList

def asCbor (self : Message) : CborValue :=
  .map <|
    [(0, .bytes self.id.toList), (1, .unsigned (kindValue self.kind))] ++
    entry 2 (self.relatesTo.map fun value => .bytes value.toList) ++
    [(3, .unsigned self.contentType), (4, .bytes self.payload)] ++
    (if self.extensions.isEmpty then [] else
      [(5, .map (self.extensions.toList.map fun entry => (entry.1, .bytes entry.2)))]) ++
    (if self.critical = [] then [] else [(6, .array (self.critical.map .unsigned))]) ++
    entry 7 (self.chunkIndex.map .unsigned) ++ entry 8 (self.chunkFinal.map .bool) ++
    entry 9 (self.attachmentId.map fun value => .bytes value.toList) ++
    (if self.attachments = [] then [] else [(10, .array (self.attachments.map attachmentValue))])

def encode (self : Message) : Except Error Bytes := do
  self.validate
  Encoding.encode self.asCbor

def decodeKind : Nat → Except Error MessageKind
  | 0 => .ok .event
  | 1 => .ok .request
  | 2 => .ok .response
  | 3 => .ok .error
  | 4 => .ok .cancel
  | 5 => .ok .streamChunk
  | _ => .error (.validation .unknownField)

def decodeExtension : Nat × CborValue → Except Error (Nat × Bytes)
  | (key, value) => do
    let key ← tryU32 key
    match value with
    | .bytes value => return (key.toNat, value)
    | _ => throw (.validation .invalidRepresentation)

def decodeExtensions : Option CborValue → Except Error (Std.ExtTreeMap Nat Bytes)
  | none => .ok ∅
  | some (.map values) => do
    let entries ← values.mapM decodeExtension
    return .ofList entries
  | some _ => .error (.validation .invalidRepresentation)

def decodeCriticalLabel : CborValue → Except Error Nat
  | .unsigned value => do
    let label ← tryU32 value
    return label.toNat
  | _ => .error (.validation .invalidRepresentation)

def decodeCritical : Option CborValue → Except Error (List Nat)
  | none => .ok []
  | some (.array values) => values.mapM decodeCriticalLabel
  | some _ => .error (.validation .invalidRepresentation)

def decodeAttachment : CborValue → Except Error Attachment
  | .map entries => do
    let (id, entries) ← takeFixed 16 0 entries
    let (mediaType, entries) ← takeUnsigned 1 entries
    let mediaType ← tryU32 mediaType
    let (byteLength, entries) ← takeUnsigned 2 entries
    let (contentDigest, entries) ← takeFixed 32 3 entries
    reject (entries ≠ []) (.validation .unknownField)
    return { id, mediaType, byteLength, contentDigest }
  | _ => .error (.validation .invalidRepresentation)

def decodeAttachments : Option CborValue → Except Error (List Attachment)
  | none => .ok []
  | some (.array values) => values.mapM decodeAttachment
  | some _ => .error (.validation .invalidRepresentation)

/-- The fields of a message, before it is validated. -/
def decodeFields (entries : Entries) : Except Error Message := do
  reject (∃ entry ∈ entries, entry.1 > 10) (.validation .unknownField)
  let (id, entries) ← takeFixed 16 0 entries
  let (kind, entries) ← takeUnsigned 1 entries
  let kind ← decodeKind kind
  let (relatesTo, entries) ← takeOptionalFixed 16 2 entries
  let (contentType, entries) ← takeUnsigned 3 entries
  let contentType ← tryU32 contentType
  let (payload, entries) ← takeBytes 4 entries
  let extensions ← decodeExtensions (Encoding.lookupEntry 5 entries)
  let entries := Encoding.removeEntry 5 entries
  let critical ← decodeCritical (Encoding.lookupEntry 6 entries)
  let entries := Encoding.removeEntry 6 entries
  let (chunkIndex, entries) ← takeOptionalUnsigned 7 entries
  let (chunkFinal, entries) ← takeOptionalBool 8 entries
  let (attachmentId, entries) ← takeOptionalFixed 16 9 entries
  let attachments ← decodeAttachments (Encoding.lookupEntry 10 entries)
  let entries := Encoding.removeEntry 10 entries
  reject (entries ≠ []) (.validation .unknownField)
  return { id, kind, relatesTo, contentType := contentType.toNat, payload, extensions, critical,
           chunkIndex, chunkFinal, attachmentId, attachments }

def decode (bytes : Bytes) : Except Error Message := do
  let .map entries ← Encoding.decode bytes | throw (.validation .invalidRepresentation)
  let message ← decodeFields entries
  message.validate
  return message

end Message

end LicoArc
