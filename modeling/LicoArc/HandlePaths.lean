import LicoArc.Base64url
import LicoArc.EncodingLaws
import LicoArc.Transport

/-!
# The paths of delivery handles

Which handles the path of a request reaches: 43 digits carry 258 bits, two
more than a handle has.
-/

namespace LicoArc

namespace Transport

inductive HandleOperation
  | submit
  | retrieve
  | claim
  | settle
  deriving DecidableEq, Repr

def HandleOperation.operation : HandleOperation → Operation
  | submit => .submit
  | retrieve => .retrieve
  | claim => .claim
  | settle => .settle

def HandleOperation.suffix : HandleOperation → String
  | submit => "/submit"
  | retrieve => "/retrieve"
  | claim => "/claim"
  | settle => "/settle"

def handlePath (handle : FixedBytes 32) (operation : HandleOperation) : String :=
  "/v1/handles/" ++ Base64url.encode handle.toList ++ operation.suffix

def lastByte (handle : FixedBytes 32) : UInt8 := handle.get 31

theorem getLast?_handle (handle : FixedBytes 32) :
    handle.toList.getLast? = some (lastByte handle) := by
  rw [List.getLast?_eq_getElem?, List.Vector.toList_length, lastByte,
    List.Vector.get_eq_get_toList]
  simp

/-! ## Segments -/

def digitByte (digit : Nat) : UInt8 := (Base64url.digitChar digit).toNat.toUInt8

theorem utf8EncodeChar_digitChar {digit : Nat} (h : digit < 64) :
    String.utf8EncodeChar (Base64url.digitChar digit) = [digitByte digit] := by
  have hall : ∀ digit : Fin 64, String.utf8EncodeChar (Base64url.digitChar digit) =
      [digitByte digit] := by decide +kernel
  exact hall ⟨digit, h⟩

theorem isHandleByte_digitByte {digit : Nat} (h : digit < 64) : isHandleByte (digitByte digit) := by
  have hall : ∀ digit : Fin 64, isHandleByte (digitByte digit) := by decide +kernel
  exact hall ⟨digit, h⟩

theorem exists_digitByte {byte : UInt8} (h : isHandleByte byte) :
    ∃ digit < 64, digitByte digit = byte := by
  have hall : ∀ value : Fin 256, isHandleByte (UInt8.ofNat value) →
      Base64url.alphabet.idxOf (Char.ofNat value) < 64 ∧
        digitByte (Base64url.alphabet.idxOf (Char.ofNat value)) = UInt8.ofNat value := by
    decide +kernel
  have hbyte := hall ⟨byte.toNat, byte.toNat_lt⟩
  rw [UInt8.ofNat_toNat] at hbyte
  exact ⟨_, hbyte h⟩

theorem lastDigit_iff {digit : Nat} (h : digit < 64) :
    (digitByte digit = 65 ∨ digitByte digit = 81 ∨ digitByte digit = 103 ∨ digitByte digit = 119) ↔
      digit % 16 = 0 := by
  have hall : ∀ digit : Fin 64, (digitByte digit = 65 ∨ digitByte digit = 81 ∨
      digitByte digit = 103 ∨ digitByte digit = 119) ↔ digit.val % 16 = 0 := by decide +kernel
  exact hall ⟨digit, h⟩

theorem flatMap_digitChar {ds : List Nat} (h : ∀ d ∈ ds, d < 64) :
    (ds.map Base64url.digitChar).flatMap String.utf8EncodeChar = ds.map digitByte := by
  induction ds with
  | nil => rfl
  | cons d ds ih =>
    rw [List.forall_mem_cons] at h
    rw [List.map_cons, List.flatMap_cons, utf8EncodeChar_digitChar h.1, ih h.2, List.map_cons,
      List.singleton_append]

theorem textBytes_encode (bytes : Bytes) :
    Encoding.textBytes (Base64url.encode bytes) = (Base64url.digits bytes).map digitByte := by
  rw [Base64url.encode, Encoding.textBytes_ofList]
  exact flatMap_digitChar (Base64url.digits_canonical bytes).lt

theorem exists_digits {segment : Bytes} (h : ∀ byte ∈ segment, isHandleByte byte) :
    ∃ ds : List Nat, (∀ d ∈ ds, d < 64) ∧ ds.map digitByte = segment := by
  induction segment with
  | nil => exact ⟨[], nofun, rfl⟩
  | cons byte segment ih =>
    rw [List.forall_mem_cons] at h
    obtain ⟨d, hlt, rfl⟩ := exists_digitByte h.1
    obtain ⟨ds, hds, rfl⟩ := ih h.2
    exact ⟨d :: ds, List.forall_mem_cons.mpr ⟨hlt, hds⟩, rfl⟩

theorem segment_length (handle : FixedBytes 32) :
    (Encoding.textBytes (Base64url.encode handle.toList)).length = 43 := by
  rw [textBytes_encode, List.length_map, Base64url.digits_length, List.Vector.toList_length]

theorem segment_getLast? (handle : FixedBytes 32) :
    (Encoding.textBytes (Base64url.encode handle.toList)).getLast? =
      some (digitByte ((lastByte handle).toNat % 16 * 4)) := by
  have hlength : handle.toList.length % 3 = 2 := by rw [List.Vector.toList_length]
  rw [textBytes_encode, List.getLast?_map, Base64url.digits_getLast? hlength, getLast?_handle]
  rfl

/-- The segments that are accepted are those of the handles whose last two bits are zero. -/
theorem isHandle_iff (segment : Bytes) :
    isHandle segment ↔ ∃ handle : FixedBytes 32, (lastByte handle).toNat % 4 = 0 ∧
      segment = Encoding.textBytes (Base64url.encode handle.toList) := by
  simp only [isHandle, decide_eq_true_eq, List.all_eq_true, Option.any_eq_true]
  constructor
  · intro h
    obtain ⟨hlength, hbytes, last, hlast, hfour⟩ := h
    obtain ⟨ds, hlt, rfl⟩ := exists_digits hbytes
    rw [List.length_map] at hlength
    rw [List.getLast?_map] at hlast
    obtain ⟨digit, hdigit, rfl⟩ := Option.map_eq_some_iff.mp hlast
    have hzero := (lastDigit_iff (hlt digit (List.mem_of_getLast? hdigit))).mp hfour
    have hcanonical := Base64url.canonical_of_last (by rw [hlength]) hlt
      (by rw [hdigit]; rintro d ⟨⟩; omega)
    obtain ⟨bytes, hbytes⟩ := hcanonical.exists_bytes
    have hsize : bytes.length = 32 := by
      have := Base64url.digits_length bytes
      rw [hbytes, hlength] at this
      omega
    have hbyte := Base64url.digits_getLast? (by rw [hsize])
    rw [hbytes, hdigit] at hbyte
    refine ⟨⟨bytes, hsize⟩, ?_, ?_⟩
    · have hlast := getLast?_handle ⟨bytes, hsize⟩
      rw [List.Vector.toList_mk] at hlast
      rw [hlast, Option.map_some, Option.some.injEq] at hbyte
      omega
    · rw [textBytes_encode]
      exact congrArg _ hbytes.symm
  · intro h
    obtain ⟨handle, hzero, rfl⟩ := h
    refine ⟨segment_length handle, ?_, _, segment_getLast? handle, ?_⟩
    · intro byte hbyte
      rw [textBytes_encode] at hbyte
      obtain ⟨d, hd, rfl⟩ := List.mem_map.mp hbyte
      exact isHandleByte_digitByte ((Base64url.digits_canonical _).lt d hd)
    · rw [lastDigit_iff (by omega)]
      omega

/-! ## Paths -/

theorem textBytes_handlePath (handle : FixedBytes 32) (operation : HandleOperation) :
    Encoding.textBytes (handlePath handle operation) = Encoding.textBytes "/v1/handles/" ++
      Encoding.textBytes (Base64url.encode handle.toList) ++
        Encoding.textBytes operation.suffix := by
  rw [handlePath, Encoding.textBytes_append, Encoding.textBytes_append]

theorem stripPrefix_append (start rest : Bytes) :
    stripPrefix start (start ++ rest) = some rest := by
  simp [stripPrefix]

theorem stripPrefix_eq_some {start text rest : Bytes} (h : stripPrefix start text = some rest) :
    text = start ++ rest := by
  rw [stripPrefix] at h
  split at h
  · rename_i hprefix
    obtain ⟨tail, rfl⟩ := hprefix
    rw [List.drop_left] at h
    rw [Option.some.inj h]
  · cases h

theorem stripSuffix_append (rest suffix : Bytes) :
    stripSuffix suffix (rest ++ suffix) = some rest := by
  simp [stripSuffix]

theorem stripSuffix_eq_some {suffix text rest : Bytes} (h : stripSuffix suffix text = some rest) :
    text = rest ++ suffix := by
  rw [stripSuffix] at h
  split at h
  · rename_i hsuffix
    obtain ⟨head, rfl⟩ := hsuffix
    rw [List.length_append, Nat.add_sub_cancel, List.take_left] at h
    rw [Option.some.inj h]
  · cases h

theorem suffix_inj {first second : Bytes} {operation operation' : HandleOperation}
    (hfirst : first.length = 43) (hsecond : second.length = 43)
    (h : first ++ Encoding.textBytes operation.suffix =
      second ++ Encoding.textBytes operation'.suffix) :
    first = second ∧ operation = operation' := by
  obtain ⟨hsegment, hsuffix⟩ := List.append_inj h (hfirst.trans hsecond.symm)
  refine ⟨hsegment, ?_⟩
  have hsuffix := Encoding.textBytes_injective hsuffix
  cases operation <;> cases operation' <;> first | rfl | exact absurd hsuffix (by decide)

theorem handlePath_inj {handle handle' : FixedBytes 32} {operation operation' : HandleOperation}
    (h : handlePath handle operation = handlePath handle' operation') :
    handle = handle' ∧ operation = operation' := by
  have hbytes := congrArg Encoding.textBytes h
  rw [textBytes_handlePath, textBytes_handlePath, List.append_assoc, List.append_assoc] at hbytes
  obtain ⟨hsegment, hoperation⟩ := suffix_inj (segment_length handle) (segment_length handle')
    (List.append_cancel_left hbytes)
  have hencode := Base64url.encode_injective (Encoding.textBytes_injective hsegment)
  exact ⟨List.Vector.toList_injective hencode, hoperation⟩

def findSuffix (rest : Bytes) : Option (String × Operation) :=
  [("/submit", Operation.submit), ("/retrieve", .retrieve), ("/claim", .claim),
    ("/settle", .settle)].find? fun suffix =>
      (stripSuffix (Encoding.textBytes suffix.1) rest).any isHandle

theorem findSuffix_eq_some {rest : Bytes} {entry : String × Operation}
    (h : findSuffix rest = some entry) : ∃ operation : HandleOperation,
      entry = (operation.suffix, operation.operation) ∧
      ∃ segment, isHandle segment ∧ rest = segment ++ Encoding.textBytes operation.suffix := by
  have hentry : ∃ operation : HandleOperation, entry = (operation.suffix, operation.operation) := by
    have hmem := List.mem_of_find?_eq_some h
    simp only [List.mem_cons, List.not_mem_nil, or_false] at hmem
    rcases hmem with rfl | rfl | rfl | rfl
    · exact ⟨.submit, rfl⟩
    · exact ⟨.retrieve, rfl⟩
    · exact ⟨.claim, rfl⟩
    · exact ⟨.settle, rfl⟩
  obtain ⟨operation, rfl⟩ := hentry
  have hany := List.find?_some h
  rw [Option.any_eq_true] at hany
  obtain ⟨segment, hstrip, hhandle⟩ := hany
  exact ⟨operation, rfl, segment, hhandle, stripSuffix_eq_some hstrip⟩

theorem findSuffix_append {segment : Bytes} (h : isHandle segment) (operation : HandleOperation) :
    findSuffix (segment ++ Encoding.textBytes operation.suffix) =
      some (operation.suffix, operation.operation) := by
  have hlength : ∀ segment, isHandle segment → segment.length = 43 := by
    intro segment h
    simp only [isHandle, decide_eq_true_eq] at h
    exact h.1
  cases hfound : findSuffix (segment ++ Encoding.textBytes operation.suffix) with
  | none =>
    have hnone := List.find?_eq_none.mp hfound (operation.suffix, operation.operation)
      (by cases operation <;> decide)
    simp [stripSuffix_append, h] at hnone
  | some entry =>
    obtain ⟨found, rfl, segment', hhandle, hrest⟩ := findSuffix_eq_some hfound
    obtain ⟨_, rfl⟩ := suffix_inj (hlength _ h) (hlength _ hhandle) hrest
    rfl

theorem operationFromPath_eq_ok (path : String) (operation : HandleOperation) :
    operationFromPath path = .ok operation.operation ↔ ∃ segment, isHandle segment ∧
      Encoding.textBytes path = Encoding.textBytes "/v1/handles/" ++
        (segment ++ Encoding.textBytes operation.suffix) := by
  rw [operationFromPath]
  constructor
  · intro h
    split_ifs at h with haffiliate hreserve
    · cases operation <;> cases h
    · cases operation <;> cases h
    · obtain ⟨rest, hrest, h⟩ := Except.bind_eq_ok.mp h
      have hrest := stripPrefix_eq_some (okOr_eq_ok.mp hrest)
      obtain ⟨entry, hentry, hoperation⟩ := Option.map_eq_some_iff.mp (okOr_eq_ok.mp h)
      obtain ⟨found, rfl, segment, hhandle, rfl⟩ := findSuffix_eq_some hentry
      have hfound : found = operation := by
        cases found <;> cases operation <;> first | rfl | cases hoperation
      rw [← hfound]
      exact ⟨segment, hhandle, hrest⟩
  · intro h
    obtain ⟨segment, hhandle, hpath⟩ := h
    have hlong : path ≠ "/v1/affiliate" ∧ path ≠ "/v1/reserve" := by
      have hsize := congrArg List.length hpath
      simp only [isHandle, decide_eq_true_eq] at hhandle
      rw [List.length_append, List.length_append, hhandle.1] at hsize
      constructor <;> rintro rfl <;> revert hsize <;> cases operation <;> decide
    rw [if_neg hlong.1, if_neg hlong.2, hpath, stripPrefix_append]
    exact (Except.bind_eq_ok.mpr ⟨_, rfl, okOr_eq_ok.mpr (by
      rw [← findSuffix, findSuffix_append hhandle, Option.map_some])⟩)

/-- A path names a handle operation where it is the path of a handle. -/
def Described (path : String) : Prop :=
  ∀ operation : HandleOperation, operationFromPath path = .ok operation.operation ↔
    ∃ handle, path = handlePath handle operation

theorem operationFromPath_eq_ok_iff (path : String) (operation : HandleOperation) :
    operationFromPath path = .ok operation.operation ↔
      ∃ handle, (lastByte handle).toNat % 4 = 0 ∧ path = handlePath handle operation := by
  rw [operationFromPath_eq_ok]
  constructor
  · intro h
    obtain ⟨segment, hhandle, hpath⟩ := h
    obtain ⟨handle, hzero, rfl⟩ := (isHandle_iff segment).mp hhandle
    refine ⟨handle, hzero, Encoding.textBytes_injective ?_⟩
    rw [hpath, textBytes_handlePath, List.append_assoc]
  · intro h
    obtain ⟨handle, hzero, rfl⟩ := h
    refine ⟨_, (isHandle_iff _).mpr ⟨handle, hzero, rfl⟩, ?_⟩
    rw [textBytes_handlePath, List.append_assoc]

/-- The handles whose last byte ends in two zero bits are those that a path can name. -/
theorem handle_paths_iff (path : String) (handle handle' : FixedBytes 32)
    (operation operation' : HandleOperation) :
    (Described path ↔
      ∀ handle operation, path = handlePath handle operation → (lastByte handle).toNat % 4 = 0) ∧
    (operationFromPath (handlePath handle operation) = .ok operation.operation ↔
      (lastByte handle).toNat % 4 = 0) ∧
    (handlePath handle operation = handlePath handle' operation' ↔
      handle = handle' ∧ operation = operation') := by
  have haddressed : ∀ handle operation,
      operationFromPath (handlePath handle operation) = .ok operation.operation ↔
        (lastByte handle).toNat % 4 = 0 := by
    intro handle operation
    rw [operationFromPath_eq_ok_iff]
    constructor
    · intro h
      obtain ⟨handle', hzero, hpath⟩ := h
      rwa [(handlePath_inj hpath).1]
    · intro hzero
      exact ⟨handle, hzero, rfl⟩
  refine ⟨?_, haddressed handle operation, handlePath_inj, ?_⟩
  · constructor
    · intro h handle operation hpath
      have hok := (h operation).mpr ⟨handle, hpath⟩
      rwa [hpath, haddressed] at hok
    · intro h operation
      rw [operationFromPath_eq_ok_iff]
      constructor
      · intro hok
        obtain ⟨handle, _, hpath⟩ := hok
        exact ⟨handle, hpath⟩
      · intro hpath
        obtain ⟨handle, hpath⟩ := hpath
        exact ⟨handle, h handle operation hpath, hpath⟩
  · intro h
    rw [h.1, h.2]

/-- The handle of 31 zero bytes and a one, whose path ends in `E`. -/
def oddHandle : FixedBytes 32 := ⟨List.replicate 31 0 ++ [1], rfl⟩

theorem odd_handle_not_addressable : ¬∀ path, Described path := by
  intro h
  have hok := (h _ .claim).mpr ⟨oddHandle, rfl⟩
  exact absurd hok (by decide +kernel)

end Transport

end LicoArc
