import LicoArc.Domains
import LicoArc.Handshake
import LicoArc.ProjectedFields
import LicoArc.TableProvider

/-!
# The messages that are signed

Five functions make the messages that are signed. A message fixes its function
and every field that the function projects, as far as SHA-256 keeps apart what
it digests on the way.
-/

namespace LicoArc

open Encoding (WellFormed WellFormedItems)
open Json Identity

/-! ## Messages -/

/-- What a signature is made for. -/
inductive SignedMessage
  | bundle (bundle : PrekeyBundle)
  | initiator (packet : FirstPacket)
  | authority (state : Value)
  | device (state device : Value)
  | replacement (state : Value)

/-- A bundle without its signatures. -/
def PrekeyBundle.unsigned (bundle : PrekeyBundle) : PrekeyBundle :=
  { bundle with ed25519Signature := .zero 64, mlDsa65Signature := [] }

/-- A first packet without its signatures and its confirmation. -/
def FirstPacket.unsigned (packet : FirstPacket) : FirstPacket :=
  { packet with
    prekey := packet.prekey.unsigned
    initiatorEd25519Signature := .zero 64
    initiatorMlDsa65Signature := []
    clientConfirmCiphertext := .zero 36
    clientConfirmTag := .zero 16 }

def prekeyTranscriptValue (packet : FirstPacket) : CborValue :=
  .array
    [.bytes packet.protocolLineId.toList, .bytes packet.protectionProfileId.toList,
      .bytes packet.initiatorIdentityStateDigest.toList,
      .bytes packet.initiatorEd25519KeyId.toList, .bytes packet.initiatorMlDsa65KeyId.toList,
      bundleUnsignedValue packet.prekey]

def handshakeCoreValue (prekeyDigest : FixedBytes 32) (packet : FirstPacket) : CborValue :=
  .array
    [.bytes prekeyDigest.toList, .bytes packet.protocolLineId.toList,
      .bytes packet.protectionProfileId.toList, .bytes packet.initiatorIdentityStateDigest.toList,
      .bytes packet.initiatorUserAuthorityStateDigest.toList,
      .bytes packet.responderIdentityStateDigest.toList,
      .bytes packet.responderUserAuthorityStateDigest.toList,
      .bytes packet.initiatorEd25519KeyId.toList, .bytes packet.initiatorMlDsa65KeyId.toList,
      .bytes packet.initiatorX25519Public.toList, .bytes packet.mlKem768Ciphertext]

def digestInputs (label : Bytes) (value : CborValue) : Set Bytes :=
  {input | ∃ encoded, Encoding.encode value = .ok encoded ∧ input = label ++ encoded}

namespace SignedMessage

/-- The bytes that are signed for a purpose. -/
def Signs (formatFinite : Rat → String) (provider : Provider) (bytes : Bytes) :
    SignedMessage → Prop
  | .bundle prekey => bundleSignatureInput prekey = .ok bytes
  | .initiator packet =>
    ∃ core, handshakeCore provider packet = .ok core ∧ bytes = dInitiatorSign ++ core.toList
  | .authority state => authoritySignatureInput formatFinite provider state = .ok bytes
  | .device state item => devicePossessionInput state item = .ok bytes
  | .replacement state => replacementPossessionInput state = .ok bytes

/-- The inputs that are digested on the way to the bytes. -/
def digested (provider : Provider) : SignedMessage → Set Bytes
  | .initiator packet =>
    digestInputs dPrekeyTranscript (prekeyTranscriptValue packet) ∪
      {input | ∃ prekeyDigest, prekeyTranscriptDigest provider packet = .ok prekeyDigest ∧
        input ∈ digestInputs dHandshakeTranscript (handshakeCoreValue prekeyDigest packet)}
  | .authority state =>
    {input | ∃ record projection, members state = .ok record ∧
      authorityStateProjection record = .ok projection ∧
      input ∈ digestInputs authorityStateDomain projection}
  | _ => ∅

def SameFunction : SignedMessage → SignedMessage → Prop
  | .bundle _, .bundle _ => True
  | .initiator _, .initiator _ => True
  | .authority _, .authority _ => True
  | .device _ _, .device _ _ => True
  | .replacement _, .replacement _ => True
  | _, _ => False

/-- Two messages of one function that have every field in common. -/
def Agrees : SignedMessage → SignedMessage → Prop
  | .bundle first, .bundle second => first.unsigned = second.unsigned
  | .initiator first, .initiator second => first.unsigned = second.unsigned
  | .authority first, .authority second =>
    ∃ fields : AuthorityFields, fields.Read first ∧ fields.Read second
  | .device first item, .device second item' =>
    ∃ binding : DeviceBinding, binding.Read first item ∧ binding.Read second item'
  | .replacement first, .replacement second =>
    ∃ binding : ReplacementBinding, binding.Read first ∧ binding.Read second
  | _, _ => False

end SignedMessage

section Values

theorem bundleUnsignedValue_wellFormed (bundle : PrekeyBundle) :
    WellFormed (bundleUnsignedValue bundle) := by
  simp [bundleUnsignedValue, bundleUnsignedEntries, WellFormed, Encoding.WellFormedEntries]

theorem bundleUnsignedValue_injective {first second : PrekeyBundle}
    (h : bundleUnsignedValue first = bundleUnsignedValue second) :
    first.unsigned = second.unsigned := by
  simp only [bundleUnsignedValue, bundleUnsignedEntries, CborValue.map.injEq, List.cons.injEq,
    Prod.mk.injEq, CborValue.bytes.injEq, CborValue.unsigned.injEq, true_and, and_true] at h
  obtain ⟨hline, hprofile, hidentity, hed, hml, hsequence, hx, hkem, hfrom, huntil⟩ := h
  simp only [PrekeyBundle.unsigned, PrekeyBundle.mk.injEq, and_true]
  exact ⟨FixedBytes.toList_injective hline, FixedBytes.toList_injective hprofile,
    FixedBytes.toList_injective hidentity, FixedBytes.toList_injective hed,
    FixedBytes.toList_injective hml, hsequence, FixedBytes.toList_injective hx, hkem, hfrom, huntil⟩

theorem prekeyTranscriptValue_wellFormed (packet : FirstPacket) :
    WellFormed (prekeyTranscriptValue packet) := by
  simp [prekeyTranscriptValue, WellFormed, WellFormedItems, bundleUnsignedValue_wellFormed]

theorem handshakeCoreValue_wellFormed (prekeyDigest : FixedBytes 32) (packet : FirstPacket) :
    WellFormed (handshakeCoreValue prekeyDigest packet) := by
  simp [handshakeCoreValue, WellFormed, WellFormedItems]

theorem handshakeValues_injective {first second : FirstPacket} {digest : FixedBytes 32}
    (hcore : handshakeCoreValue digest first = handshakeCoreValue digest second)
    (hprekey : prekeyTranscriptValue first = prekeyTranscriptValue second) :
    first.unsigned = second.unsigned := by
  simp only [handshakeCoreValue, CborValue.array.injEq, List.cons.injEq, CborValue.bytes.injEq,
    true_and, and_true] at hcore
  simp only [prekeyTranscriptValue, CborValue.array.injEq, List.cons.injEq, and_true] at hprekey
  obtain ⟨hline, hprofile, hidentity, hauthority, hresponder, hresponderAuthority, hed, hml, hx,
    hkem⟩ := hcore
  simp only [FirstPacket.unsigned, FirstPacket.mk.injEq, and_true]
  exact ⟨FixedBytes.toList_injective hline, FixedBytes.toList_injective hprofile,
    FixedBytes.toList_injective hidentity, FixedBytes.toList_injective hauthority,
    FixedBytes.toList_injective hresponder, FixedBytes.toList_injective hresponderAuthority,
    bundleUnsignedValue_injective hprekey.2.2.2.2.2, FixedBytes.toList_injective hx, hkem,
    FixedBytes.toList_injective hed, FixedBytes.toList_injective hml⟩

end Values

section Digests

variable {provider : Provider} {inputs : Set Bytes}

theorem value_of_digest (hfree : Set.InjOn provider.sha256 inputs) {label encoded encoded' : Bytes}
    {value value' : CborValue} (hwell : WellFormed value) (hwell' : WellFormed value')
    (hencoded : Encoding.encode value = .ok encoded)
    (hencoded' : Encoding.encode value' = .ok encoded')
    (hmem : label ++ encoded ∈ inputs) (hmem' : label ++ encoded' ∈ inputs)
    (h : provider.sha256 (label ++ encoded) = provider.sha256 (label ++ encoded')) :
    value = value' := by
  have hsame := List.append_cancel_left (hfree hmem hmem' h)
  rw [← hsame] at hencoded'
  exact Encoding.encode_injective hwell hwell' hencoded hencoded'

theorem prekeyTranscriptDigest_eq_ok {packet : FirstPacket} {digest : FixedBytes 32} :
    prekeyTranscriptDigest provider packet = .ok digest ↔
      ∃ encoded, Encoding.encode (prekeyTranscriptValue packet) = .ok encoded ∧
        provider.sha256 (dPrekeyTranscript ++ encoded) = digest := by
  rw [prekeyTranscriptDigest, ← prekeyTranscriptValue, Except.bind_eq_ok]
  simp only [Except.pure_eq, Except.ok.injEq]

theorem handshakeCore_eq_ok {packet : FirstPacket} {core : FixedBytes 32} :
    handshakeCore provider packet = .ok core ↔
      ∃ digest, prekeyTranscriptDigest provider packet = .ok digest ∧
        ∃ encoded, Encoding.encode (handshakeCoreValue digest packet) = .ok encoded ∧
          provider.sha256 (dHandshakeTranscript ++ encoded) = core := by
  simp only [handshakeCore, handshakeCoreValue, Except.bind_eq_ok, Except.pure_eq,
    Except.ok.injEq]

end Digests

/-! ## What a message fixes -/

namespace SignedMessage

variable {formatFinite : Rat → String} {provider : Provider} {bytes : Bytes}

def label : SignedMessage → String
  | .bundle _ => "LICOARC-V1/PREKEY-BUNDLE/SIGN"
  | .initiator _ => "LICOARC-V1/HANDSHAKE/INITIATOR-SIGN"
  | .authority _ => "LICOARC-V1/USER-AUTHORITY-STATE/SIGN"
  | .device _ _ => "LICOARC-V1/USER-AUTHORITY/DEVICE-POSSESSION"
  | .replacement _ => "LICOARC-V1/USER-AUTHORITY/DEVICE-POSSESSION"

theorem labelled (message : SignedMessage) : Labelled message.label := by
  cases message <;> (rw [label]; decide)

def Body (formatFinite : Rat → String) (provider : Provider) (body : Bytes) :
    SignedMessage → Prop
  | .bundle prekey => Encoding.encode (bundleUnsignedValue prekey) = .ok body
  | .initiator packet => ∃ core, handshakeCore provider packet = .ok core ∧ body = core.toList
  | .authority state =>
    ∃ digest, userAuthorityStateDigest formatFinite provider state = .ok digest ∧
      body = digest.toList
  | .device state item => ∃ binding : DeviceBinding, binding.Read state item ∧
      Encoding.encode binding.value = .ok body
  | .replacement state => ∃ binding : ReplacementBinding, binding.Read state ∧
      Encoding.encode binding.value = .ok body

theorem Signs.body {message : SignedMessage} (h : message.Signs formatFinite provider bytes) :
    ∃ body, bytes = domain message.label ++ body ∧ message.Body formatFinite provider body := by
  cases message with
  | bundle prekey =>
    obtain ⟨encoded, hencoded, hbytes⟩ := Except.bind_eq_ok.mp h
    exact ⟨encoded, (Except.ok.inj hbytes).symm, hencoded⟩
  | initiator packet =>
    obtain ⟨core, hcore, hbytes⟩ := h
    exact ⟨core.toList, hbytes, core, hcore, rfl⟩
  | authority state =>
    obtain ⟨digest, hdigest, hbytes⟩ := Except.bind_eq_ok.mp h
    exact ⟨digest.toList, (Except.ok.inj hbytes).symm, digest, hdigest, rfl⟩
  | device state item =>
    simp only [Signs, devicePossessionInput, Except.bind_eq_ok, liftM_eq_ok, Except.pure_eq,
      Except.ok.injEq] at h
    obtain ⟨record, hrecord, fields, hfields, line, hline, user, huser, epoch, hepoch, endpoint,
      hendpoint, identity, hidentity, encoded, hencoded, rfl⟩ := h
    exact ⟨encoded, rfl, ⟨line, user, epoch, endpoint, identity⟩,
      ⟨record, fields, hrecord, hfields, hline, huser, hepoch, hendpoint, hidentity⟩, hencoded⟩
  | replacement state =>
    simp only [Signs, replacementPossessionInput, Except.bind_eq_ok, liftM_eq_ok, Except.pure_eq,
      Except.ok.injEq] at h
    obtain ⟨record, hrecord, line, hline, user, huser, epoch, hepoch, managementKeys,
      hmanagementKeys, management, hmanagement, recoveryKeys, hrecoveryKeys, recovery, hrecovery,
      encoded, hencoded, rfl⟩ := h
    obtain ⟨management, hkeys, rfl⟩ := authorityKeyProjection_reads hmanagementKeys hmanagement
    obtain ⟨recovery, hkeys', rfl⟩ := authorityKeyProjection_reads hrecoveryKeys hrecovery
    exact ⟨encoded, rfl, ⟨line, user, epoch, management, recovery⟩,
      ⟨record, hrecord, hline, huser, hepoch, hkeys, hkeys'⟩, hencoded⟩

theorem core_fixes_packet {first second : FirstPacket} {core : FixedBytes 32}
    (h : handshakeCore provider first = .ok core) (h' : handshakeCore provider second = .ok core)
    (hfree : Set.InjOn provider.sha256
      ((initiator first).digested provider ∪ (initiator second).digested provider)) :
    first.unsigned = second.unsigned := by
  obtain ⟨digest, hdigest, encoded, hencoded, hcore⟩ := handshakeCore_eq_ok.mp h
  obtain ⟨digest', hdigest', encoded', hencoded', hcore'⟩ := handshakeCore_eq_ok.mp h'
  have hvalue := value_of_digest hfree (handshakeCoreValue_wellFormed _ _)
    (handshakeCoreValue_wellFormed _ _) hencoded hencoded'
    (.inl (.inr ⟨digest, hdigest, encoded, hencoded, rfl⟩))
    (.inr (.inr ⟨digest', hdigest', encoded', hencoded', rfl⟩)) (hcore.trans hcore'.symm)
  -- the first element of the array is the digest of the prekey transcript
  have hsame : digest = digest' :=
    FixedBytes.toList_injective (CborValue.bytes.inj (List.cons.inj (CborValue.array.inj hvalue)).1)
  subst hsame
  obtain ⟨prekey, hprekey, hhash⟩ := prekeyTranscriptDigest_eq_ok.mp hdigest
  obtain ⟨prekey', hprekey', hhash'⟩ := prekeyTranscriptDigest_eq_ok.mp hdigest'
  have htranscript := value_of_digest hfree (prekeyTranscriptValue_wellFormed _)
    (prekeyTranscriptValue_wellFormed _) hprekey hprekey'
    (.inl (.inl ⟨prekey, hprekey, rfl⟩)) (.inr (.inl ⟨prekey', hprekey', rfl⟩))
    (hhash.trans hhash'.symm)
  exact handshakeValues_injective hvalue htranscript

theorem digest_fixes_state {first second : Value} {digest : FixedBytes 32}
    (h : userAuthorityStateDigest formatFinite provider first = .ok digest)
    (h' : userAuthorityStateDigest formatFinite provider second = .ok digest)
    (hfree : Set.InjOn provider.sha256
      ((authority first).digested provider ∪ (authority second).digested provider)) :
    ∃ fields : AuthorityFields, fields.Read first ∧ fields.Read second := by
  simp only [userAuthorityStateDigest, Except.bind_eq_ok, liftM_eq_ok, Except.pure_eq,
    Except.ok.injEq] at h h'
  obtain ⟨_, _, record, hrecord, projected, hprojected, encoded, hencoded, hdigest⟩ := h
  obtain ⟨_, _, record', hrecord', projected', hprojected', encoded', hencoded', hdigest'⟩ := h'
  obtain ⟨fields, hread, rfl⟩ := authorityStateProjection_reads hrecord hprojected
  obtain ⟨fields', hread', rfl⟩ := authorityStateProjection_reads hrecord' hprojected'
  have hvalue := value_of_digest hfree fields.value_wellFormed fields'.value_wellFormed hencoded
    hencoded' (.inl ⟨record, _, hrecord, hprojected, encoded, hencoded, rfl⟩)
    (.inr ⟨record', _, hrecord', hprojected', encoded', hencoded', rfl⟩)
    (hdigest.trans hdigest'.symm)
  rw [← AuthorityFields.value_injective hvalue] at hread'
  exact ⟨fields, hread, hread'⟩

/-- The array of a device has five elements, that of a replacement six. -/
theorem binding_ne_replacement (binding : DeviceBinding) (replacement : ReplacementBinding) :
    binding.value ≠ replacement.value := by
  intro h
  have hlength := congrArg List.length (CborValue.array.inj h)
  cases hlength

/-- The label tells the functions apart, and the length of the array the two under one label. -/
theorem Body.sameFunction {message message' : SignedMessage} {body : Bytes}
    (h : message.Body formatFinite provider body) (h' : message'.Body formatFinite provider body)
    (hlabel : message.label = message'.label) : message.SameFunction message' := by
  cases message with
  | device state item =>
    cases message' with
    | device state' item' => trivial
    | replacement state' =>
      obtain ⟨binding, -, hencoded⟩ := h
      obtain ⟨binding', -, hencoded'⟩ := h'
      exact absurd (Encoding.encode_injective binding.value_wellFormed binding'.value_wellFormed
        hencoded hencoded') (binding_ne_replacement binding binding')
    | bundle | initiator | authority => simp [label] at hlabel
  | replacement state =>
    cases message' with
    | replacement state' => trivial
    | device state' item' =>
      obtain ⟨binding, -, hencoded⟩ := h
      obtain ⟨binding', -, hencoded'⟩ := h'
      exact absurd (Encoding.encode_injective binding'.value_wellFormed binding.value_wellFormed
        hencoded' hencoded) (binding_ne_replacement binding' binding)
    | bundle | initiator | authority => simp [label] at hlabel
  | bundle prekey => cases message' <;> simp_all [label, SameFunction]
  | initiator packet => cases message' <;> simp_all [label, SameFunction]
  | authority state => cases message' <;> simp_all [label, SameFunction]

theorem Body.agrees {message message' : SignedMessage} {body : Bytes}
    (h : message.Body formatFinite provider body) (h' : message'.Body formatFinite provider body)
    (hsame : message.SameFunction message')
    (hfree : Set.InjOn provider.sha256 (message.digested provider ∪ message'.digested provider)) :
    message.Agrees message' := by
  cases message <;> cases message' <;> try exact hsame.elim
  case bundle.bundle prekey prekey' =>
    exact bundleUnsignedValue_injective (Encoding.encode_injective
      (bundleUnsignedValue_wellFormed _) (bundleUnsignedValue_wellFormed _) h h')
  case initiator.initiator packet packet' =>
    obtain ⟨core, hcore, rfl⟩ := h
    obtain ⟨core', hcore', heq⟩ := h'
    rw [← FixedBytes.toList_injective heq] at hcore'
    exact core_fixes_packet hcore hcore' hfree
  case authority.authority state state' =>
    obtain ⟨digest, hdigest, rfl⟩ := h
    obtain ⟨digest', hdigest', heq⟩ := h'
    rw [← FixedBytes.toList_injective heq] at hdigest'
    exact digest_fixes_state hdigest hdigest' hfree
  case device.device state item state' item' =>
    obtain ⟨binding, hread, hencoded⟩ := h
    obtain ⟨binding', hread', hencoded'⟩ := h'
    have hvalue := Encoding.encode_injective binding.value_wellFormed binding'.value_wellFormed
      hencoded hencoded'
    rw [← DeviceBinding.value_injective hvalue] at hread'
    exact ⟨binding, hread, hread'⟩
  case replacement.replacement state state' =>
    obtain ⟨binding, hread, hencoded⟩ := h
    obtain ⟨binding', hread', hencoded'⟩ := h'
    have hvalue := Encoding.encode_injective binding.value_wellFormed binding'.value_wellFormed
      hencoded hencoded'
    rw [← ReplacementBinding.value_injective hvalue] at hread'
    exact ⟨binding, hread, hread'⟩

/-- Equal signed bytes come from one function, whatever the digests do. While the digests on the
way do not collide they agree on every field, so that a signature of one message verifies for no
other. -/
theorem signed_inputs_injective {message message' : SignedMessage} {bytes bytes' : Bytes}
    (h : message.Signs formatFinite provider bytes)
    (h' : message'.Signs formatFinite provider bytes') :
    (bytes = bytes' → message.SameFunction message') ∧
    (Set.InjOn provider.sha256 (message.digested provider ∪ message'.digested provider) →
      (bytes = bytes' → message.Agrees message') ∧
      ∀ verifies : Bytes → Prop,
        (∀ input input', verifies input → verifies input' → input = input') →
        verifies bytes → verifies bytes' → message.Agrees message') := by
  obtain ⟨body, hbytes, hbody⟩ := h.body
  obtain ⟨body', hbytes', hbody'⟩ := h'.body
  have hsplit : bytes = bytes' → message.label = message'.label ∧ body = body' := by
    intro heq
    rw [hbytes, hbytes'] at heq
    exact domain_append_inj message.labelled message'.labelled heq
  have hsame : bytes = bytes' → message.SameFunction message' := by
    intro heq
    obtain ⟨hlabel, rfl⟩ := hsplit heq
    exact hbody.sameFunction hbody' hlabel
  refine ⟨hsame, fun hfree => ?_⟩
  have hagrees : bytes = bytes' → message.Agrees message' := by
    intro heq
    obtain ⟨-, rfl⟩ := hsplit heq
    exact hbody.agrees hbody' (hsame heq) hfree
  exact ⟨hagrees, fun verifies hone hverifies hverifies' =>
    hagrees (hone _ _ hverifies hverifies')⟩

end SignedMessage

/-! ## A packet that is signed twice -/

namespace Resigned

def provider : Provider :=
  { tableProvider [] [] with sha256 := fun input => .replicate 32 (input.getD 11 0) }

def packet (signature : UInt8) : FirstPacket where
  protocolLineId := .zero 32
  protectionProfileId := .zero 32
  initiatorIdentityStateDigest := .zero 32
  initiatorUserAuthorityStateDigest := .zero 32
  responderIdentityStateDigest := .zero 32
  responderUserAuthorityStateDigest := .zero 32
  prekey := ⟨.zero 32, .zero 32, .zero 32, .zero 32, .zero 32, 1, .zero 32,
    List.replicate mlKem768PublicKeyBytes 0, 0, 10, .zero 64,
    List.replicate mlDsa65SignatureBytes 0⟩
  initiatorX25519Public := .zero 32
  mlKem768Ciphertext := List.replicate mlKem768CiphertextBytes 0
  initiatorEd25519KeyId := .zero 32
  initiatorMlDsa65KeyId := .zero 32
  initiatorEd25519Signature := .replicate 64 signature
  initiatorMlDsa65Signature := List.replicate mlDsa65SignatureBytes signature
  clientConfirmCiphertext := .zero 36
  clientConfirmTag := .zero 16

theorem sha256_domain (label : String) (input : Bytes) (h : 11 < (domain label).length) :
    provider.sha256 (domain label ++ input) = .replicate 32 ((domain label).getD 11 0) := by
  simp only [provider]
  rw [List.getD_append _ _ _ _ h]

theorem digests_apart (input input' : Bytes) :
    provider.sha256 (dPrekeyTranscript ++ input) ≠
      provider.sha256 (dHandshakeTranscript ++ input') := by
  rw [dPrekeyTranscript, dHandshakeTranscript, sha256_domain _ _ (by decide),
    sha256_domain _ _ (by decide)]
  decide

/-- The digested inputs do not depend on the signatures. -/
theorem digested_packet {signature : UInt8} {input : Bytes}
    (h : input ∈ (SignedMessage.initiator (packet signature)).digested provider) :
    (∃ encoded, Encoding.encode (prekeyTranscriptValue (packet 0)) = .ok encoded ∧
        input = dPrekeyTranscript ++ encoded) ∨
      ∃ digest encoded, prekeyTranscriptDigest provider (packet 0) = .ok digest ∧
        Encoding.encode (handshakeCoreValue digest (packet 0)) = .ok encoded ∧
        input = dHandshakeTranscript ++ encoded := by
  rcases h with h | h
  · exact .inl h
  · obtain ⟨digest, hdigest, encoded, hencoded, hinput⟩ := h
    exact .inr ⟨digest, encoded, hdigest, hencoded, hinput⟩

theorem digested_injOn (first second : UInt8) :
    Set.InjOn provider.sha256 ((SignedMessage.initiator (packet first)).digested provider ∪
      (SignedMessage.initiator (packet second)).digested provider) := by
  have hkind := fun input
      (h : input ∈ (SignedMessage.initiator (packet first)).digested provider ∪
        (SignedMessage.initiator (packet second)).digested provider) =>
    h.elim digested_packet digested_packet
  intro x hx y hy h
  rcases hkind x hx with ⟨e, he, rfl⟩ | ⟨d, e, hd, he, rfl⟩ <;>
    rcases hkind y hy with ⟨e', he', rfl⟩ | ⟨d', e', hd', he', rfl⟩
  · rw [Except.ok.inj (he.symm.trans he')]
  · exact absurd h (digests_apart e e')
  · exact absurd h.symm (digests_apart e' e)
  · cases hd.symm.trans hd'
    rw [Except.ok.inj (he.symm.trans he')]

theorem packet_signs (signature : UInt8) :
    (SignedMessage.initiator (packet signature)).Signs (fun _ => "") provider
      (dInitiatorSign ++ (List.Vector.replicate 32 (72 : UInt8)).toList) := by
  have hcore : handshakeCore provider (packet 0) = .ok (.replicate 32 72) := by decide +kernel
  exact ⟨_, hcore, rfl⟩

theorem signed_inputs_injective_resigned :
    (SignedMessage.initiator (packet 1)).SameFunction (.initiator (packet 2)) ∧
      (SignedMessage.initiator (packet 1)).Agrees (.initiator (packet 2)) := by
  obtain ⟨hsame, hagrees⟩ :=
    SignedMessage.signed_inputs_injective (packet_signs 1) (packet_signs 2)
  exact ⟨hsame rfl, (hagrees (digested_injOn 1 2)).1 rfl⟩

end Resigned

end LicoArc
