import LicoArc.Encoding

/-!
# Transport requests

The closed facts of one carrier request, the control records of its body and
the reading of a status.
-/

namespace LicoArc

namespace Transport

def maxPacketBytes : Nat := 524288
def maxControlBodyBytes : Nat := 16384
def maxPathBytes : Nat := 128
def maxHeaderBytes : Nat := 2048

inductive Operation
  | affiliate
  | reserve
  | submit
  | retrieve
  | claim
  | settle
  deriving DecidableEq, Repr

end Transport

structure TransportRequest where
  scheme : String
  tlsVersion : String
  tlsCipherSuite : String
  certificateChainValid : Bool
  httpVersion : String
  renegotiation : Bool
  method : String
  path : String
  queryPresent : Bool
  fragmentPresent : Bool
  earlyData : Bool
  nameValidated : Bool
  authorityPresent : Bool
  headerNamesLowercase : Bool
  headerBytes : Nat
  operationId : Option (FixedBytes 16)
  operationIdCanonical : Bool
  mediaType : String
  mediaTypeParameters : Bool
  contentLength : Option Nat
  contentLengthCanonical : Bool
  transferEncoding : Bool
  contentEncodingIdentity : Bool
  trailers : Bool
  streaming : Bool
  body : Bytes
  deriving DecidableEq

inductive TransportOutcome
  | accepted
  | rejected
  | transient
  | ambiguous
  deriving DecidableEq, Repr

namespace Transport

/-! ## Control records -/

def closedMap (value : CborValue) (last : Nat) (required : List Nat) :
    Except Error (List (Nat × CborValue)) :=
  match value with
  | .map values => do
    reject ((∃ entry ∈ values, entry.1 > last) ∨
      ∃ key ∈ required, (Encoding.lookupEntry key values).isNone) (.validation .unknownField)
    return values
  | _ => .error (.validation .invalidRepresentation)

def unsigned : Option CborValue → Except Error Nat
  | some (.unsigned value) => .ok value
  | _ => .error (.validation .invalidRepresentation)

def boundedUnsigned (value : Option CborValue) (maximum : Nat) : Except Error Unit := do
  let value ← unsigned value
  reject (value > maximum) (.validation .boundExceeded)

def bytes : Option CborValue → Except Error Bytes
  | some (.bytes value) => .ok value
  | _ => .error (.validation .invalidRepresentation)

def fixedBytes (value : Option CborValue) (length : Nat) : Except Error Unit := do
  let value ← bytes value
  reject (value.length ≠ length) (.validation .invalidRepresentation)

def validateSettlements : (itemIds : List (FixedBytes 32)) → List CborValue → Except Error Unit
  | _, [] => .ok ()
  | itemIds, settlement :: settlements => do
    let values ← closedMap settlement 1 [0, 1]
    let item ← bytes (Encoding.lookupEntry 0 values)
    let itemId ← okOr (.validation .invalidRepresentation) (FixedBytes.ofBytes? 32 item)
    reject (itemId ∈ itemIds) (.validation .invalidRepresentation)
    boundedUnsigned (Encoding.lookupEntry 1 values) 1
    validateSettlements (itemId :: itemIds) settlements

def validateControlRecord (operation : Operation) (value : CborValue) : Except Error Unit := do
  let encoded ← Encoding.encode value
  reject (encoded.length > maxControlBodyBytes) (.validation .boundExceeded)
  match operation with
  | .affiliate =>
    let values ← closedMap value 1 [0, 1]
    fixedBytes (Encoding.lookupEntry 0 values) 32
    fixedBytes (Encoding.lookupEntry 1 values) 32
  | .reserve =>
    let values ← closedMap value 3 [0, 1, 2, 3]
    fixedBytes (Encoding.lookupEntry 0 values) 32
    fixedBytes (Encoding.lookupEntry 1 values) 32
    fixedBytes (Encoding.lookupEntry 2 values) 32
    boundedUnsigned (Encoding.lookupEntry 3 values) 1
  | .retrieve =>
    let values ← closedMap value 2 [0, 1, 2]
    fixedBytes (Encoding.lookupEntry 0 values) 32
    let _ ← unsigned (Encoding.lookupEntry 1 values)
    fixedBytes (Encoding.lookupEntry 2 values) 32
  | .claim =>
    let values ← closedMap value 0 [0]
    let count ← unsigned (Encoding.lookupEntry 0 values)
    reject (¬(1 ≤ count ∧ count ≤ 64)) (.validation .boundExceeded)
  | .settle =>
    let values ← closedMap value 2 [0, 1, 2]
    fixedBytes (Encoding.lookupEntry 0 values) 32
    let _ ← unsigned (Encoding.lookupEntry 1 values)
    match Encoding.lookupEntry 2 values with
    | some (.array settlements) =>
      reject (settlements.isEmpty ∨ settlements.length > 64) (.validation .boundExceeded)
      validateSettlements [] settlements
    | _ => throw (.validation .invalidRepresentation)
  | .submit => throw (.validation .invalidRepresentation)

/-! ## Requests -/

def stripPrefix (start text : Bytes) : Option Bytes :=
  if start <+: text then some (text.drop start.length) else none

def stripSuffix (suffix text : Bytes) : Option Bytes :=
  if suffix <:+ text then some (text.take (text.length - suffix.length)) else none

def isHandleByte (byte : UInt8) : Bool :=
  (48 ≤ byte ∧ byte ≤ 57) ∨ (65 ≤ byte ∧ byte ≤ 90) ∨ (97 ≤ byte ∧ byte ≤ 122) ∨ byte = 95 ∨
    byte = 45

/-- A handle of 43 base64url digits, the last one of `A`, `Q`, `g` and `w`. -/
def isHandle (handle : Bytes) : Bool :=
  handle.length = 43 ∧ handle.all isHandleByte ∧
    handle.getLast?.any fun byte => byte = 65 ∨ byte = 81 ∨ byte = 103 ∨ byte = 119

def operationFromPath (path : String) : Except Error Operation :=
  if path = "/v1/affiliate" then .ok .affiliate
  else if path = "/v1/reserve" then .ok .reserve
  else do
    let rest ← okOr (.validation .unknownField)
      (stripPrefix (Encoding.textBytes "/v1/handles/") (Encoding.textBytes path))
    let suffixes := [("/submit", Operation.submit), ("/retrieve", .retrieve), ("/claim", .claim),
      ("/settle", .settle)]
    let found := suffixes.find? fun suffix =>
      (stripSuffix (Encoding.textBytes suffix.1) rest).any isHandle
    okOr (.validation .unknownField) (found.map Prod.snd)

def validateEndpointRequest (request : TransportRequest) : Except Error Unit := do
  reject (request.scheme ≠ "https" ∨ request.tlsVersion ≠ "1.3" ∨
    request.tlsCipherSuite ∉ ["TLS_AES_128_GCM_SHA256", "TLS_AES_256_GCM_SHA384",
      "TLS_CHACHA20_POLY1305_SHA256"] ∨
    ¬request.certificateChainValid ∨ request.httpVersion ≠ "2" ∨ request.renegotiation ∨
    request.earlyData ∨ ¬request.nameValidated ∨ request.queryPresent ∨ request.fragmentPresent)
    (.validation .invalidTransition)
  reject (request.method ≠ "POST" ∨ (Encoding.textBytes request.path).length > maxPathBytes ∨
    ¬request.authorityPresent ∨ ¬request.headerNamesLowercase ∨
    request.headerBytes > maxHeaderBytes ∨ request.operationId = none ∨
    ¬request.operationIdCanonical) (.validation .unknownField)
  reject (request.contentLength ≠ some request.body.length ∨ ¬request.contentLengthCanonical ∨
    request.transferEncoding ∨ ¬request.contentEncodingIdentity ∨ request.trailers ∨
    request.streaming ∨ request.mediaTypeParameters) (.validation .invalidRepresentation)
  let operation ← operationFromPath request.path
  let expectedMediaType :=
    if operation = .submit then "application/licoarc-protected-packet"
    else "application/licoarc-transport+cbor"
  reject (request.mediaType ≠ expectedMediaType) (.validation .unknownField)
  let maximum := if operation = .submit then maxPacketBytes else maxControlBodyBytes
  reject (request.body = [] ∨ request.body.length > maximum) (.validation .boundExceeded)
  if operation ≠ .submit then
    let value ← Encoding.decode request.body
    validateControlRecord operation value

def classifyStatus (status : Nat) : Except Error TransportOutcome :=
  if status = 200 ∨ status = 201 ∨ status = 202 then .ok .accepted
  else if status = 400 ∨ status = 404 ∨ status = 406 ∨ status = 409 ∨ status = 413 then
    .ok .rejected
  else if status = 429 ∨ status = 500 ∨ status = 503 then .ok .transient
  else if status = 504 then .ok .ambiguous
  else .error (.validation .unknownField)

end Transport

end LicoArc
