import LicoArc.Conformance
import LicoArc.RatchetRuns

/-!
# The conformance executor and the ratchet

The executor decides the reception of a record from three numbers of a case. It
decides what the ratchet decides on a record of the current chain, in every
state that the numbers describe.
-/

namespace LicoArc

open Json

namespace Conformance

/-! ## The executor -/

def field (input : Value) (key : String) : Option Value :=
  input.asObject.bind fun object => object.get key

def uint (value : Value) (key : String) : Option Nat := (field value key).bind Value.asU64

def numeral (value : Nat) : Value := .number (.integer value)

/-- `receive_record` after the field of the authentication. -/
def receiveNumbers (current incoming skipped : Nat) : Expected :=
  if incoming < current then
    .result (.object [("error", .string "replay"), ("stateMutation", .bool false)])
  else if incoming - current > 256 ∨ skipped + (incoming - current) ≥ 2 ^ 64 ∨
      skipped + (incoming - current) > 1024 then
    .result (.object [("error", .string "skip-bound"), ("stateMutation", .bool false)])
  else if incoming + 1 ≥ 2 ^ 64 ∨ incoming + 1 > 2 ^ 32 - 1 then
    .result (.object [("error", .string "counter-overflow"), ("plaintextReleased", .bool false),
      ("stateMutation", .bool false)])
  else
    .result (.object [("committedN", numeral (incoming + 1)),
      ("derivedSkippedCoordinates",
        .array ((List.range' current (incoming - current)).map numeral)),
      ("incomingKeyRetained", .bool false), ("plaintextReleasedAfterCommit", .bool true)])

def receiveRecord (input : Value) : Expected :=
  match field input "aeadAuthentication" with
  | some (.bool false) =>
    .result (.object [("committedSkippedKeys", numeral 0),
      ("error", .string "record-authentication"), ("plaintextReleased", .bool false)])
  | _ =>
    match uint input "currentN", uint input "incomingN" with
    | some current, some incoming =>
      match (uint input "skippedKeyCount").or (uint input "retainedSkippedKeys") with
      | some skipped => receiveNumbers current incoming skipped
      | none => .error "invalid-encoding"
    | _, _ => .error "invalid-encoding"

/-! ## Verdicts -/

/-- What is decided about a record: the code of the refusal, or the next counter and the numbers
whose keys are retained. -/
inductive Verdict
  | refused (code : ErrorCode)
  | accepted (committed : Nat) (numbers : List Nat)

def word : ErrorCode → Option String
  | .replay => some "replay"
  | .skipBound => some "skip-bound"
  | .counterOverflow => some "counter-overflow"
  | _ => none

/-- The executor's answer states the verdict. -/
def States : Expected → Verdict → Prop
  | .result (.object object), .refused code =>
    ∃ text, word code = some text ∧ Map.get object "error" = some (.string text)
  | .result (.object object), .accepted committed numbers =>
    Map.get object "error" = none ∧ Map.get object "committedN" = some (numeral committed) ∧
      Map.get object "derivedSkippedCoordinates" = some (.array (numbers.map numeral))
  | _, _ => False

def Decides (state : RatchetState) (dh : FixedBytes 32) :
    Except Error (RatchetState × Bytes) → Verdict → Prop
  | .error e, .refused code => e = recordError code
  | .ok (next, _), .accepted committed numbers =>
    next.nr = committed ∧
      (∀ coordinate, coordinate ∈ next.skipped ↔
        coordinate ∈ state.skipped ∨ coordinate.1 = dh ∧ coordinate.2 ∈ numbers) ∧
      ∀ coordinate : Coordinate, ¬(coordinate.1 = dh ∧ coordinate.2 ∈ numbers) →
        next.skipped[coordinate]? = state.skipped[coordinate]?
  | _, _ => False

def recordVerdict (current incoming skipped : Nat) : Verdict :=
  if incoming < current then .refused .replay
  else if incoming - current > maxSkipPerRecord ∨
    skipped + (incoming - current) > maxSkippedKeys then .refused .skipBound
  else if incoming + 1 ≥ 2 ^ 32 then .refused .counterOverflow
  else .accepted (incoming + 1) (List.range' current (incoming - current))

theorem receiveNumbers_states (current incoming skipped : Nat) :
    States (receiveNumbers current incoming skipped) (recordVerdict current incoming skipped) := by
  rw [receiveNumbers, recordVerdict]
  have hskip : maxSkipPerRecord = 256 := rfl
  have hkeys : maxSkippedKeys = 1024 := rfl
  by_cases hreplay : incoming < current
  · rw [if_pos hreplay, if_pos hreplay]
    exact ⟨_, rfl, rfl⟩
  rw [if_neg hreplay, if_neg hreplay]
  by_cases hbound : incoming - current > maxSkipPerRecord ∨
      skipped + (incoming - current) > maxSkippedKeys
  · rw [if_pos hbound, if_pos (by omega)]
    exact ⟨_, rfl, rfl⟩
  rw [if_neg hbound, if_neg (by omega)]
  by_cases hoverflow : incoming + 1 ≥ 2 ^ 32
  · rw [if_pos hoverflow, if_pos (by omega)]
    exact ⟨_, rfl, rfl⟩
  · rw [if_neg hoverflow, if_neg (by omega)]
    exact ⟨rfl, rfl, rfl⟩

theorem receiveRecord_of_fields {input : Value} {current incoming skipped : Nat}
    (hauthentic : field input "aeadAuthentication" ≠ some (.bool false))
    (hcurrent : uint input "currentN" = some current)
    (hincoming : uint input "incomingN" = some incoming)
    (hskipped : uint input "skippedKeyCount" = some skipped) :
    receiveRecord input = receiveNumbers current incoming skipped := by
  rw [receiveRecord]
  split
  · next hfalse => exact absurd hfalse hauthentic
  · rw [hcurrent, hincoming, hskipped]
    rfl

end Conformance

/-! ## The ratchet -/

/-- An expansion to at most 255 blocks of the hash has a result. -/
structure Provider.Expands (provider : Provider) : Prop where
  expand {key : FixedBytes 32} {info : Bytes} {length : Nat} (h : length ≤ 8160) :
    ∃ output, provider.hkdfExpandSha256 key info length = .ok output

section

variable {provider : Provider} (hkdf : provider.Expands)

include hkdf

theorem messageStep_total (chain : Secret) (number : Nat) :
    ∃ step, messageStep provider chain number = .ok step := by
  obtain ⟨key, hkey⟩ := @Provider.Expands.expand provider hkdf chain
    (dMessageKey ++ bigEndian 4 number) 32 (by decide)
  obtain ⟨nonce, hnonce⟩ := @Provider.Expands.expand provider hkdf chain
    (dNonce ++ bigEndian 4 number) 12 (by decide)
  obtain ⟨next, hnext⟩ := @Provider.Expands.expand provider hkdf chain
    (dNextChain ++ bigEndian 4 number) 32 (by decide)
  exact ⟨⟨key, nonce, next⟩, by rw [messageStep, hkey, hnonce, hnext]; rfl⟩

theorem retainSkipped_ok_of_expands (dh : FixedBytes 32) (count : Nat) :
    ∀ (number : Nat) (chain : Secret) (skipped : SkippedKeys), ∃ last retained,
      retainSkipped provider dh count number chain skipped = .ok (last, retained) := by
  induction count with
  | zero => exact fun _ chain skipped => ⟨chain, skipped, rfl⟩
  | succ count ih =>
    intro number chain skipped
    obtain ⟨step, hstep⟩ := messageStep_total hkdf chain number
    obtain ⟨last, retained, hretain⟩ := ih (number + 1) step.next
      (skipped.insert (dh, number) (step.key, step.nonce))
    exact ⟨last, retained, by rw [retainSkipped, hstep]; exact hretain⟩

end

namespace RatchetState

variable {provider : Provider} {state : RatchetState} {header : RatchetHeader}
  {headerBytes body plaintext : Bytes}

/-- The body of a record at or beyond the counter opens under the key of its number. -/
def Authentic (provider : Provider) (state : RatchetState) (header : RatchetHeader)
    (headerBytes body plaintext : Bytes) : Prop :=
  ∀ first last step, state.nr ≤ header.n → state.receiving = some first →
    advanceChain provider (header.n - state.nr) state.nr first = .ok last →
    messageStep provider last header.n = .ok step →
    state.openRecord provider step.key step.nonce headerBytes body = .ok plaintext

open Conformance in
theorem receiveInChain_decides (hkdf : provider.Expands) {first : Secret}
    (hreceiving : state.receiving = some first)
    (hnone : state.skipped[(header.dh, header.n)]? = none)
    (hauthentic : Authentic provider state header headerBytes body plaintext) :
    Decides state header.dh (state.receiveInChain provider header headerBytes body)
      (recordVerdict state.nr header.n state.skipped.size) := by
  rw [recordVerdict]
  by_cases hreplay : header.n < state.nr
  · rw [if_pos hreplay, receiveInChain, if_pos hreplay, hnone]
    exact rfl
  rw [if_neg hreplay]
  have hnr : state.nr ≤ header.n := not_lt.mp hreplay
  by_cases hbound : header.n - state.nr > maxSkipPerRecord ∨
      state.skipped.size + (header.n - state.nr) > maxSkippedKeys
  · rw [if_pos hbound, receiveInChain, if_neg hreplay]
    simp only [reject, if_pos hbound]
    exact rfl
  rw [if_neg hbound]
  obtain ⟨last, retained, hretain⟩ := retainSkipped_ok_of_expands hkdf header.dh
    (header.n - state.nr) state.nr first state.skipped
  obtain ⟨step, hstep⟩ := messageStep_total hkdf last header.n
  obtain ⟨hlast, _, hother, _⟩ := retainSkipped_spec hretain
  by_cases hoverflow : header.n + 1 ≥ 2 ^ 32
  · have hnext : nextCounter header.n = .error (recordError .counterOverflow) := by
      rw [nextCounter, reject, if_pos hoverflow]
      rfl
    have hresult : state.receiveInChain provider header headerBytes body =
        .error (recordError .counterOverflow) := by
      rw [receiveInChain, if_neg hreplay]
      simp only [reject_of_not _ hbound, hreceiving, okOr, hretain, hstep, hnext, Except.ok_bind]
      rfl
    rw [if_pos hoverflow, hresult]
    exact rfl
  · have hopen := hauthentic first last step hnr hreceiving hlast hstep
    have hresult : state.receiveInChain provider header headerBytes body =
        .ok ({ state with skipped := retained, receiving := some step.next, nr := header.n + 1 },
          plaintext) :=
      (receiveInChain_of_le hnr).mpr
        ⟨not_lt.mp (not_or.mp hbound).1, not_lt.mp (not_or.mp hbound).2, not_le.mp hoverflow, first,
        last, retained, step, hreceiving, hretain, hstep, hopen, rfl⟩
    have hsum : state.nr + (header.n - state.nr) = header.n := Nat.add_sub_of_le hnr
    rw [if_neg hoverflow, hresult]
    refine ⟨rfl, fun coordinate => ?_, fun coordinate hnot => ?_⟩
    · rw [mem_retainSkipped hretain, List.mem_range'_1]
    · refine hother coordinate fun k hlow hhigh heq => hnot ?_
      subst heq
      exact ⟨rfl, List.mem_range'_1.mpr ⟨hlow, hhigh⟩⟩

variable {m : Type → Type} [Monad m] (o : Outcomes m) {custody : KeyCustody m}

theorem may_lift_bind {α β : Type} {x : Except Error α} {a : α} (hx : x = .ok a)
    (f : α → ExceptT Error m β) (r : Except Error β) :
    o.may (lift x >>= f).run r ↔ o.may (f a).run r := by
  rw [may_run_bind]
  simp [hx]

/-- A record of the current chain whose key is not retained is received in the chain. -/
theorem may_receive_current {fresh : Option (StagedSecretHandle .x25519Private)}
    (hpn : header.pn < 2 ^ 32) (hn : header.n < 2 ^ 32) (hheader : header.encode = .ok headerBytes)
    (hsize : (headerBytes ++ body).length ≤ maxProtectedPacketBytes)
    (hdh : header.dh = state.peerPublic) (hnone : state.skipped[(header.dh, header.n)]? = none)
    (r : Except Error (RatchetState × Bytes)) :
    o.may (state.receive provider custody (headerBytes ++ body) fresh).run r ↔
      r = state.receiveInChain provider header headerBytes body := by
  obtain ⟨hlength, htake, hdrop, hdecode⟩ := record_split body hpn hn hheader
  rw [receive, may_lift_bind o (reject_of_not _ (not_lt.mpr hsize)), may_lift_bind o hlength,
    htake, hdrop, may_lift_bind o hdecode]
  simp only [hnone, if_neg (not_not.mpr hdh)]
  rw [may_run_bind]
  simp only [o.mayOk_pure, exists_eq_left, o.mayFail_pure, and_false, exists_false, or_false]
  exact o.may_pure _ _

end RatchetState

open Conformance in
/-- The executor and the ratchet give the same verdict. -/
theorem receive_record_agrees {m : Type → Type} [Monad m] (o : Outcomes m) {provider : Provider}
    (hkdf : provider.Expands) {custody : KeyCustody m} {state : RatchetState} {first : Secret}
    (hreceiving : state.receiving = some first) {header : RatchetHeader}
    {headerBytes body plaintext : Bytes} (hdh : header.dh = state.peerPublic)
    (hpn : header.pn < 2 ^ 32) (hn : header.n < 2 ^ 32) (hheader : header.encode = .ok headerBytes)
    (hsize : (headerBytes ++ body).length ≤ maxProtectedPacketBytes)
    (hnone : state.skipped[(header.dh, header.n)]? = none)
    (hauthentic : RatchetState.Authentic provider state header headerBytes body plaintext)
    {input : Value} (hnotFalse : field input "aeadAuthentication" ≠ some (.bool false))
    (hcurrent : uint input "currentN" = some state.nr)
    (hincoming : uint input "incomingN" = some header.n)
    (hskipped : uint input "skippedKeyCount" = some state.skipped.size)
    (fresh : Option (StagedSecretHandle .x25519Private)) :
    ∃ result verdict,
      (∀ r, o.may (state.receive provider custody (headerBytes ++ body) fresh).run r ↔ r = result) ∧
        Decides state header.dh result verdict ∧ States (receiveRecord input) verdict := by
  refine ⟨_, _, RatchetState.may_receive_current o hpn hn hheader hsize hdh hnone,
    RatchetState.receiveInChain_decides hkdf hreceiving hnone hauthentic, ?_⟩
  rw [receiveRecord_of_fields hnotFalse hcurrent hincoming hskipped]
  exact receiveNumbers_states _ _ _

namespace FirstRecord

theorem provider_expands : Widest.provider.Expands where
  expand _ := ⟨_, rfl⟩

def input : Value :=
  .object [("currentN", Conformance.numeral 0), ("incomingN", Conformance.numeral 1),
    ("skippedKeyCount", Conformance.numeral 0)]

theorem input_authentication :
    Conformance.field input "aeadAuthentication" ≠ some (.bool false) :=
  show none ≠ some (Value.bool false) from nofun

theorem authentic (headerBytes : Bytes) :
    RatchetState.Authentic Widest.provider state (header 1) headerBytes ([7] ++ Widest.tag) [7] :=
  fun _ _ _ _ _ _ _ => RatchetState.openRecord_eq_ok.mpr rfl

end FirstRecord

open Conformance FirstRecord in
/-- The executor and the ratchet on a record that is one ahead of its chain. -/
theorem receive_record_agrees_of_first : ∃ headerBytes, (header 1).encode = .ok headerBytes ∧
    ∃ result verdict, (∀ r, Outcomes.value.may (state.receive Widest.provider custody
        (headerBytes ++ ([7] ++ Widest.tag)) none).run r ↔ r = result) ∧
      Decides state (header 1).dh result verdict ∧ States (receiveRecord input) verdict := by
  obtain ⟨headerBytes, hheader, hsize⟩ := @framed 1 (by decide)
  exact ⟨headerBytes, hheader, receive_record_agrees Outcomes.value provider_expands rfl rfl
    (by decide) (by decide) hheader hsize Std.ExtTreeMap.getElem?_empty (authentic headerBytes)
    input_authentication rfl rfl rfl none⟩

end LicoArc
