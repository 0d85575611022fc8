import LicoArc.CanonicalText
import LicoArc.EncodingListing
import LicoArc.Interaction.Sequence
import LicoArc.TableProvider

/-!
# The content identity of a profile

The semantic projection of a profile, its encoding and its digest. The encoding
is prefix-free, and a text source differs from every printed JSON source in its
last character, so that the digest binds the whole projection.
-/

namespace LicoArc

namespace Artifact

open Json

/-! ## Semantic CBOR -/

inductive SemanticCbor
  | unsigned (value : Nat)
  | bytes (value : Bytes)
  | text (value : String)
  | bool (value : Bool)
  | array (values : List SemanticCbor)

def cborHead (major : UInt8) (value : Nat) : Bytes := Encoding.head major value

mutual

def encodeSemanticCbor : SemanticCbor → Bytes
  | .unsigned value => cborHead 0 value
  | .bytes value => cborHead 2 value.length ++ value
  | .text value => cborHead 3 (Encoding.textBytes value).length ++ Encoding.textBytes value
  | .bool value => [if value then 0xf5 else 0xf4]
  | .array values => cborHead 4 values.length ++ encodeSemanticItems values

def encodeSemanticItems : List SemanticCbor → Bytes
  | [] => []
  | value :: values => encodeSemanticCbor value ++ encodeSemanticItems values

end

def semanticBytes (domain : Bytes) (value : SemanticCbor) : Bytes :=
  domain ++ encodeSemanticCbor value

mutual

/-- Every length and every integer of the value is one of 64 bits. -/
def SemanticCbor.Addressable : SemanticCbor → Prop
  | .unsigned value => value < 2 ^ 64
  | .bytes value => value.length < 2 ^ 64
  | .text value => (Encoding.textBytes value).length < 2 ^ 64
  | .bool _ => True
  | .array values => values.length < 2 ^ 64 ∧ ItemsAddressable values

def ItemsAddressable : List SemanticCbor → Prop
  | [] => True
  | value :: values => value.Addressable ∧ ItemsAddressable values

end

theorem itemsAddressable_iff {values : List SemanticCbor} :
    ItemsAddressable values ↔ ∀ value ∈ values, value.Addressable := by
  induction values with
  | nil => simp [ItemsAddressable]
  | cons value values ih => rw [ItemsAddressable, ih, List.forall_mem_cons]

def SemanticCbor.parts : SemanticCbor → Fin 8 × Nat × Bytes
  | .unsigned value => (0, value, [])
  | .bytes value => (2, value.length, value)
  | .text value => (3, (Encoding.textBytes value).length, Encoding.textBytes value)
  | .bool value => (7, if value then 21 else 20, [])
  | .array values => (4, values.length, encodeSemanticItems values)

theorem encodeSemanticCbor_parts (value : SemanticCbor) : encodeSemanticCbor value =
    Encoding.head (UInt8.ofNat value.parts.1) value.parts.2.1 ++ value.parts.2.2 := by
  cases value with
  | unsigned value => exact (List.append_nil _).symm
  | bool value => cases value <;> rfl
  | bytes | text | array => rfl

theorem SemanticCbor.Addressable.argument_lt {value : SemanticCbor} (h : value.Addressable) :
    value.parts.2.1 < 256 ^ 8 := by
  have hlimit : 2 ^ 64 = 256 ^ 8 := by decide
  cases value with
  | bool value => cases value <;> decide
  | unsigned _ | bytes _ | text _ => exact hlimit ▸ h
  | array _ => exact hlimit ▸ h.1

mutual

theorem encodeSemanticCbor_inj : ∀ {a b : SemanticCbor}, a.Addressable → b.Addressable →
    ∀ {rest rest' : Bytes}, encodeSemanticCbor a ++ rest = encodeSemanticCbor b ++ rest' →
      a = b ∧ rest = rest'
  | a, b, ha, hb, rest, rest', h => by
    rw [encodeSemanticCbor_parts, encodeSemanticCbor_parts, List.append_assoc,
      List.append_assoc] at h
    obtain ⟨hmajor, hargument, htail⟩ := Encoding.head_inj ha.argument_lt hb.argument_lt h
    match a, b with
    | .unsigned _, .unsigned _ =>
      cases hargument
      exact ⟨rfl, htail⟩
    | .bytes _, .bytes _ =>
      obtain ⟨rfl, hrest⟩ := List.append_inj htail hargument
      exact ⟨rfl, hrest⟩
    | .text _, .text _ =>
      obtain ⟨hbytes, hrest⟩ := List.append_inj htail hargument
      exact ⟨congrArg _ (Encoding.textBytes_injective hbytes), hrest⟩
    | .bool value, .bool value' =>
      cases value <;> cases value' <;> first | exact ⟨rfl, htail⟩ | cases hargument
    | .array values, .array values' =>
      obtain ⟨rfl, hrest⟩ :=
        @encodeSemanticItems_inj values values' ha.2 hb.2 hargument rest rest' htail
      exact ⟨rfl, hrest⟩

theorem encodeSemanticItems_inj : ∀ {as bs : List SemanticCbor}, ItemsAddressable as →
    ItemsAddressable bs → as.length = bs.length → ∀ {rest rest' : Bytes},
      encodeSemanticItems as ++ rest = encodeSemanticItems bs ++ rest' → as = bs ∧ rest = rest'
  | [], [], _, _, _, _, _, h => ⟨rfl, h⟩
  | a :: as, b :: bs, ha, hb, hlength, _, _, h => by
    rw [encodeSemanticItems, encodeSemanticItems, List.append_assoc, List.append_assoc] at h
    obtain ⟨rfl, htail⟩ := @encodeSemanticCbor_inj a b ha.1 hb.1 _ _ h
    obtain ⟨rfl, hrest⟩ := @encodeSemanticItems_inj as bs ha.2 hb.2 (Nat.succ.inj hlength) _ _ htail
    exact ⟨rfl, hrest⟩

end

/-! ## The projection -/

def requiredString (object : Map) (key : String) : Except Error String :=
  okOr (admission .invalidAuthorityInput) ((object.get key).bind Value.asStr)

def asBool : Value → Option Bool
  | .bool value => some value
  | _ => none

def requiredBool (object : Map) (key : String) : Except Error Bool :=
  okOr (admission .invalidAuthorityInput) ((object.get key).bind asBool)

def textArray (values : List String) : SemanticCbor := .array (values.map .text)

def endsWithNewline (text : String) : Prop := text.toList.getLast? = some '\n'

instance (text : String) : Decidable (endsWithNewline text) :=
  inferInstanceAs (Decidable (text.toList.getLast? = some '\n'))

section

variable (formatFinite : Rat → String)

/-- The bytes of a semantic source: a text as it is, and any other value as its canonical JSON. -/
def sourceBytes (source : Value) : Except Error Bytes :=
  match source.asStr with
  | some text => do
    reject ("base64:".toList <+: text.toList) (admission .invalidAuthorityInput)
    reject (¬endsWithNewline text ∨ '\r' ∈ text.toList ∨ Char.ofNat 0 ∈ text.toList)
      (admission .invalidAuthorityInput)
    return Encoding.textBytes text
  | none => do
    let text ← canonicalJson formatFinite source
    return Encoding.textBytes text

def encodeSource (entry : String × Value) : Except Error SemanticCbor := do
  let bytes ← sourceBytes formatFinite entry.2
  return .array [.text entry.1, .bytes bytes]

/-- The semantic sources that the identity covers, by their roles. -/
def semanticRoles (semanticSources : Map) : List (String × Value) :=
  (semanticSources.filter fun entry => entry.1 ≠ "authorityVectors").insertionSort
    fun left right => left.1 ≤ right.1

def profileProjection (descriptor semanticSources : Map)
    (stableClaims stableNonClaims : List String) : Except Error SemanticCbor := do
  let roles := semanticRoles semanticSources
  reject (roles = [] ∨ roles.length > 32 ∨ stableClaims = [] ∨ stableNonClaims = [] ∨
    ¬stableClaims.IsChain (· < ·) ∨ ¬stableNonClaims.IsChain (· < ·))
    (admission .contentIdentityMismatch)
  let encodedSources ← roles.mapM (encodeSource formatFinite)
  let profileSemanticVersion ← requiredString descriptor "profileSemanticVersion"
  let indivisible ← requiredBool descriptor "indivisible"
  let componentNegotiation ← requiredBool descriptor "componentNegotiation"
  let fallback ← requiredString descriptor "fallback"
  return .array [.text "ProtectionProfileSemanticProjectionV1", .text profileSemanticVersion,
    .bool indivisible, .bool componentNegotiation, .text fallback, .array encodedSources,
    textArray stableClaims, textArray stableNonClaims]

def dProfileContentIdentity : Bytes := domain "LICOARC/PROFILE-CONTENT-IDENTITY/V1"

def computeProfileContentIdentity (descriptor semanticSources : Map)
    (stableClaims stableNonClaims : List String) (provider : Provider) :
    Except Error (FixedBytes 32) := do
  let projection ← profileProjection formatFinite descriptor semanticSources stableClaims
    stableNonClaims
  return provider.sha256 (semanticBytes dProfileContentIdentity projection)

end

/-! ## The sources -/

variable {formatFinite : Rat → String}

theorem sourceBytes_eq_ok {source : Value} {bytes : Bytes} :
    sourceBytes formatFinite source = .ok bytes ↔
      (∃ text, source = .string text ∧ endsWithNewline text ∧
        ¬("base64:".toList <+: text.toList) ∧ '\r' ∉ text.toList ∧ Char.ofNat 0 ∉ text.toList ∧
        bytes = Encoding.textBytes text) ∨
      source.asStr = none ∧ ∃ text, canonicalJson formatFinite source = .ok text ∧
        bytes = Encoding.textBytes text := by
  rw [sourceBytes]
  cases hsource : source.asStr with
  | none =>
    have hnot : ∀ text, source ≠ .string text := by
      rintro text rfl
      cases hsource
    simp only [hnot, false_and, exists_false, false_or, true_and, Except.bind_eq_ok,
      Except.pure_eq, Except.ok.injEq]
    exact exists_congr fun text => and_congr_right fun _ => eq_comm
  | some text =>
    have hstring := Value.asStr_eq_some.mp hsource
    subst hstring
    simp only [Except.bind_eq_ok, reject_eq_ok, exists_const, not_or, not_not, Except.pure_eq,
      Except.ok.injEq, Value.string.injEq, reduceCtorEq, false_and, or_false]
    constructor
    · rintro ⟨hbase, ⟨hline, hreturn, hzero⟩, rfl⟩
      exact ⟨text, rfl, hline, hbase, hreturn, hzero, rfl⟩
    · rintro ⟨_, rfl, hline, hbase, hreturn, hzero, rfl⟩
      exact ⟨hbase, ⟨hline, hreturn, hzero⟩, rfl⟩

/-- A printed number does not end a line. -/
def NumbersEndNoLine (formatFinite : Rat → String) : Prop :=
  ∀ value : Rat, value ≠ 0 → ¬endsWithNewline (formatFinite value)

theorem integer_text_no_newline (value : Int) : ¬endsWithNewline (toString value) := by
  intro h
  have hnumeral := isNumeral_of_mem_toString value '\n' (List.mem_of_getLast? h)
  cases hnumeral

theorem canonicalJson_no_newline (hformat : NumbersEndNoLine formatFinite) {source : Value}
    {text : String} (hsource : source.asStr = none)
    (h : canonicalJson formatFinite source = .ok text) : ¬endsWithNewline text := by
  obtain ⟨hprintable, htext⟩ := canonicalJson_text h
  cases source with
  | string text => cases hsource
  | null =>
    rw [endsWithNewline, htext, canonicalText]
    decide
  | bool value =>
    rw [endsWithNewline, htext, canonicalText]
    cases value <;> decide
  | number number =>
    rw [Value.Numbers, Printable] at hprintable
    obtain ⟨printed, hprinted⟩ := Option.isSome_iff_exists.mp hprintable
    rw [canonicalText, hprinted, Option.getD_some, String.toList_inj] at htext
    subst htext
    cases number with
    | integer value =>
      rw [canonicalNumber] at hprinted
      split_ifs at hprinted
      cases hprinted
      exact integer_text_no_newline value
    | float value =>
      rw [canonicalNumber] at hprinted
      split_ifs at hprinted with hfinite hzero
      · cases hprinted
        decide
      · cases hprinted
        exact hformat value hzero
  | array values =>
    rw [endsWithNewline, htext, canonicalText_array, ← List.cons_append, List.getLast?_concat]
    exact fun hlast => absurd (Option.some.inj hlast) (by decide)
  | object entries =>
    rw [endsWithNewline, htext, canonicalText_object, ← List.cons_append, List.getLast?_concat]
    exact fun hlast => absurd (Option.some.inj hlast) (by decide)

/-- The canonical writer is injective on the sources under two lists of roles. -/
def InjectiveOn (formatFinite : Rat → String) (roles roles' : List (String × Value)) : Prop :=
  ∀ entry ∈ roles, ∀ entry' ∈ roles', ∀ text,
    canonicalJson formatFinite entry.2 = .ok text → canonicalJson formatFinite entry'.2 = .ok text →
    entry.2 = entry'.2

theorem sourceBytes_inj (hformat : NumbersEndNoLine formatFinite) {source source' : Value}
    {bytes : Bytes} (hinjective : ∀ text, canonicalJson formatFinite source = .ok text →
      canonicalJson formatFinite source' = .ok text → source = source')
    (h : sourceBytes formatFinite source = .ok bytes)
    (h' : sourceBytes formatFinite source' = .ok bytes) : source = source' := by
  rcases sourceBytes_eq_ok.mp h with ⟨text, rfl, hline, _, _, _, rfl⟩ | ⟨hnone, text, htext, rfl⟩
  · rcases sourceBytes_eq_ok.mp h' with ⟨text', rfl, _, _, _, _, hbytes⟩ | ⟨hnone', text', htext',
      hbytes⟩
    · rw [Encoding.textBytes_injective hbytes]
    · rw [Encoding.textBytes_injective hbytes] at hline
      exact absurd hline (canonicalJson_no_newline hformat hnone' htext')
  · rcases sourceBytes_eq_ok.mp h' with ⟨text', rfl, hline', _, _, _, hbytes⟩ | ⟨_, text', htext',
      hbytes⟩
    · rw [← Encoding.textBytes_injective hbytes] at hline'
      exact absurd hline' (canonicalJson_no_newline hformat hnone htext)
    · rw [← Encoding.textBytes_injective hbytes] at htext'
      exact hinjective text htext htext'

theorem encodeSources_inj (hformat : NumbersEndNoLine formatFinite)
    {roles roles' : List (String × Value)}
    (hinjective : InjectiveOn formatFinite roles roles') {encoded : List SemanticCbor}
    (h : roles.mapM (encodeSource formatFinite) = .ok encoded)
    (h' : roles'.mapM (encodeSource formatFinite) = .ok encoded) : roles = roles' := by
  rw [Except.mapM_eq_ok] at h h'
  induction h generalizing roles' with
  | nil =>
    cases h'
    rfl
  | @cons entry value entries values hentry _ ih =>
    obtain ⟨entry', entries', hentry', hentries', rfl⟩ := List.forall₂_cons_right_iff.mp h'
    have hrest := ih (fun e he e' he' => hinjective e (List.mem_cons_of_mem _ he) e'
      (List.mem_cons_of_mem _ he')) hentries'
    obtain ⟨role, source⟩ := entry
    obtain ⟨role', source'⟩ := entry'
    simp only [encodeSource, Except.bind_eq_ok, Except.pure_eq, Except.ok.injEq] at hentry hentry'
    obtain ⟨bytes, hbytes, rfl⟩ := hentry
    obtain ⟨bytes', hbytes', hsame⟩ := hentry'
    simp only [SemanticCbor.array.injEq, List.cons.injEq, SemanticCbor.text.injEq,
      SemanticCbor.bytes.injEq, and_true] at hsame
    obtain ⟨rfl, rfl⟩ := hsame
    have hsource := sourceBytes_inj hformat
      (hinjective _ List.mem_cons_self _ List.mem_cons_self) hbytes hbytes'
    simp only at hsource
    rw [hrest, hsource]

theorem mem_semanticRoles {semanticSources : Map} {entry : String × Value} :
    entry ∈ semanticRoles semanticSources ↔
      entry ∈ semanticSources ∧ entry.1 ≠ "authorityVectors" := by
  rw [semanticRoles, List.mem_insertionSort, List.mem_filter, decide_eq_true_eq]

/-! ## What the digest binds -/

/-- The strings and the lists of an input have lengths of 64 bits. -/
structure Resident (descriptor semanticSources : Map) (stableClaims stableNonClaims : List String) :
    Prop where
  descriptor {key text : String} (h : descriptor.get key = some (.string text)) :
    (Encoding.textBytes text).length < 2 ^ 64
  role {entry : String × Value} (h : entry ∈ semanticSources) :
    (Encoding.textBytes entry.1).length < 2 ^ 64
  source {role text : String} (h : (role, Value.string text) ∈ semanticSources) :
    (Encoding.textBytes text).length < 2 ^ 64
  claims : stableClaims.length < 2 ^ 64 ∧
    ∀ claim ∈ stableClaims, (Encoding.textBytes claim).length < 2 ^ 64
  nonClaims : stableNonClaims.length < 2 ^ 64 ∧
    ∀ claim ∈ stableNonClaims, (Encoding.textBytes claim).length < 2 ^ 64

theorem pushBounded_size {maximum : Nat} {output value result : String}
    (h : pushBounded maximum output value = .ok result) : result.utf8ByteSize ≤ maximum := by
  rw [pushBounded] at h
  split_ifs at h with hfits
  cases h
  rwa [String.utf8ByteSize_append]

theorem canonicalJson_size {source : Value} {text : String}
    (h : canonicalJson formatFinite source = .ok text) : text.utf8ByteSize ≤ maxSourceBytes := by
  rw [canonicalJson, canonicalJsonBounded] at h
  cases source with
  | null | bool _ | string _ => exact pushBounded_size h
  | number _ =>
    obtain ⟨_, _, h⟩ := Except.bind_eq_ok.mp h
    exact pushBounded_size h
  | array _ | object _ =>
    obtain ⟨_, _, h⟩ := Except.bind_eq_ok.mp h
    obtain ⟨_, _, h⟩ := Except.bind_eq_ok.mp h
    exact pushBounded_size h

theorem textBytes_length (text : String) :
    (Encoding.textBytes text).length = text.utf8ByteSize := rfl

theorem textArray_addressable {values : List String} (hlength : values.length < 2 ^ 64)
    (h : ∀ value ∈ values, (Encoding.textBytes value).length < 2 ^ 64) :
    (textArray values).Addressable := by
  refine ⟨by rwa [List.length_map], itemsAddressable_iff.mpr ?_⟩
  rw [List.forall_mem_map]
  exact h

theorem encodeSource_addressable {role : String} {source : Value} {value : SemanticCbor}
    (hrole : (Encoding.textBytes role).length < 2 ^ 64)
    (hsource : ∀ text, source = .string text → (Encoding.textBytes text).length < 2 ^ 64)
    (h : encodeSource formatFinite (role, source) = .ok value) : value.Addressable := by
  simp only [encodeSource, Except.bind_eq_ok, Except.pure_eq, Except.ok.injEq] at h
  obtain ⟨bytes, hbytes, rfl⟩ := h
  refine ⟨show 2 < 2 ^ 64 by decide, hrole, ?_, trivial⟩
  rcases sourceBytes_eq_ok.mp hbytes with ⟨text, rfl, _, _, _, _, rfl⟩ | ⟨_, text, htext, rfl⟩
  · exact hsource text rfl
  · rw [SemanticCbor.Addressable, textBytes_length]
    exact lt_of_le_of_lt (canonicalJson_size htext) (by decide)

theorem profileProjection_eq_ok {descriptor semanticSources : Map}
    {stableClaims stableNonClaims : List String} {projection : SemanticCbor}
    (h : profileProjection formatFinite descriptor semanticSources stableClaims stableNonClaims =
      .ok projection) :
    ∃ version indivisible negotiation fallback encoded,
      requiredString descriptor "profileSemanticVersion" = .ok version ∧
      requiredBool descriptor "indivisible" = .ok indivisible ∧
      requiredBool descriptor "componentNegotiation" = .ok negotiation ∧
      requiredString descriptor "fallback" = .ok fallback ∧
      (semanticRoles semanticSources).length ≤ 32 ∧
      (semanticRoles semanticSources).mapM (encodeSource formatFinite) = .ok encoded ∧
      projection = .array [.text "ProtectionProfileSemanticProjectionV1", .text version,
        .bool indivisible, .bool negotiation, .text fallback, .array encoded,
        textArray stableClaims, textArray stableNonClaims] := by
  simp only [profileProjection, Except.bind_eq_ok, reject_eq_ok, exists_const, not_or, not_lt,
    Except.pure_eq, Except.ok.injEq, gt_iff_lt] at h
  obtain ⟨⟨_, hcount, _⟩, encoded, hencoded, version, hversion, indivisible, hindivisible,
    negotiation, hnegotiation, fallback, hfallback, rfl⟩ := h
  exact ⟨version, indivisible, negotiation, fallback, encoded, hversion, hindivisible, hnegotiation,
    hfallback, hcount, hencoded, rfl⟩

theorem get_of_requiredString {object : Map} {key text : String}
    (h : requiredString object key = .ok text) : object.get key = some (.string text) := by
  rw [requiredString, okOr_eq_ok, Option.bind_eq_some_iff] at h
  obtain ⟨value, hvalue, htext⟩ := h
  rw [hvalue, Value.asStr_eq_some.mp htext]

theorem label_addressable :
    (SemanticCbor.text "ProtectionProfileSemanticProjectionV1").Addressable := by
  rw [SemanticCbor.Addressable, textBytes_length]
  decide

theorem profileProjection_addressable {descriptor semanticSources : Map}
    {stableClaims stableNonClaims : List String} {projection : SemanticCbor}
    (hresident : Resident descriptor semanticSources stableClaims stableNonClaims)
    (h : profileProjection formatFinite descriptor semanticSources stableClaims stableNonClaims =
      .ok projection) : projection.Addressable := by
  obtain ⟨version, _, _, fallback, encoded, hversion, _, _, hfallback, hcount, hencoded, rfl⟩ :=
    profileProjection_eq_ok h
  have hall := Except.mapM_eq_ok.mp hencoded
  have hlength : encoded.length < 2 ^ 64 := by
    rw [← hall.length_eq]
    omega
  have hsources : ItemsAddressable encoded := by
    refine itemsAddressable_iff.mpr fun value hvalue => ?_
    obtain ⟨⟨role, source⟩, hentry, hsource⟩ := Except.exists_mem_of_mapM_eq_ok hencoded hvalue
    have hmem := (mem_semanticRoles.mp hentry).1
    exact encodeSource_addressable (hresident.role hmem)
      (fun text htext => hresident.source (htext ▸ hmem)) hsource
  refine ⟨show 8 < 2 ^ 64 by decide, label_addressable,
    hresident.descriptor (get_of_requiredString hversion), trivial, trivial,
    hresident.descriptor (get_of_requiredString hfallback), ⟨hlength, hsources⟩,
    textArray_addressable hresident.claims.1 hresident.claims.2,
    textArray_addressable hresident.nonClaims.1 hresident.nonClaims.2, trivial⟩

/-- Two inputs of one identity have the same semantic version, flags, fallback and claims, and the
same source under every role but the vectors of the authority. -/
theorem profile_identity_binds {provider : Provider} (hformat : NumbersEndNoLine formatFinite)
    {descriptor descriptor' semanticSources semanticSources' : Map}
    {stableClaims stableClaims' stableNonClaims stableNonClaims' : List String}
    (hresident : Resident descriptor semanticSources stableClaims stableNonClaims)
    (hresident' : Resident descriptor' semanticSources' stableClaims' stableNonClaims')
    (hordered : (semanticSources.map Prod.fst).Pairwise (· < ·))
    (hordered' : (semanticSources'.map Prod.fst).Pairwise (· < ·))
    (hinjective : InjectiveOn formatFinite (semanticRoles semanticSources)
      (semanticRoles semanticSources'))
    (hcollision : ∀ projection projection',
      profileProjection formatFinite descriptor semanticSources stableClaims stableNonClaims =
        .ok projection →
      profileProjection formatFinite descriptor' semanticSources' stableClaims' stableNonClaims' =
        .ok projection' →
      provider.sha256 (semanticBytes dProfileContentIdentity projection) =
        provider.sha256 (semanticBytes dProfileContentIdentity projection') →
      semanticBytes dProfileContentIdentity projection =
        semanticBytes dProfileContentIdentity projection')
    {identity : FixedBytes 32}
    (h : computeProfileContentIdentity formatFinite descriptor semanticSources stableClaims
      stableNonClaims provider = .ok identity)
    (h' : computeProfileContentIdentity formatFinite descriptor' semanticSources' stableClaims'
      stableNonClaims' provider = .ok identity) :
    requiredString descriptor "profileSemanticVersion" =
        requiredString descriptor' "profileSemanticVersion" ∧
      requiredBool descriptor "indivisible" = requiredBool descriptor' "indivisible" ∧
      requiredBool descriptor "componentNegotiation" =
        requiredBool descriptor' "componentNegotiation" ∧
      requiredString descriptor "fallback" = requiredString descriptor' "fallback" ∧
      stableClaims = stableClaims' ∧ stableNonClaims = stableNonClaims' ∧
      ∀ role, role ≠ "authorityVectors" → semanticSources.get role = semanticSources'.get role := by
  simp only [computeProfileContentIdentity, Except.bind_eq_ok, Except.pure_eq,
    Except.ok.injEq] at h h'
  obtain ⟨projection, hprojection, hdigest⟩ := h
  obtain ⟨projection', hprojection', hdigest'⟩ := h'
  have hbytes := hcollision projection projection' hprojection hprojection'
    (hdigest.trans hdigest'.symm)
  have hencoded := List.append_cancel_left hbytes
  have hsame := (encodeSemanticCbor_inj (profileProjection_addressable hresident hprojection)
    (profileProjection_addressable hresident' hprojection')
    (by rw [List.append_nil, List.append_nil]; exact hencoded) :
      projection = projection' ∧ ([] : Bytes) = []).1
  subst hsame
  obtain ⟨version, indivisible, negotiation, fallback, encoded, hversion, hindivisible,
    hnegotiation, hfallback, _, hsources, rfl⟩ := profileProjection_eq_ok hprojection
  obtain ⟨version', indivisible', negotiation', fallback', encoded', hversion', hindivisible',
    hnegotiation', hfallback', _, hsources', hparts⟩ := profileProjection_eq_ok hprojection'
  simp only [SemanticCbor.array.injEq, List.cons.injEq, SemanticCbor.text.injEq,
    SemanticCbor.bool.injEq, true_and, and_true, textArray] at hparts
  obtain ⟨rfl, rfl, rfl, rfl, rfl, hclaims, hnonClaims⟩ := hparts
  have htext : Function.Injective SemanticCbor.text := fun _ _ => SemanticCbor.text.inj
  have hroles := encodeSources_inj hformat hinjective hsources hsources'
  refine ⟨hversion.trans hversion'.symm, hindivisible.trans hindivisible'.symm,
    hnegotiation.trans hnegotiation'.symm, hfallback.trans hfallback'.symm,
    htext.list_map hclaims, htext.list_map hnonClaims, ?_⟩
  intro role hrole
  refine Option.ext fun source => ?_
  have hmem : ∀ {sources : Map}, (sources.map Prod.fst).Pairwise (· < ·) →
      (sources.get role = some source ↔ (role, source) ∈ semanticRoles sources) := by
    intro sources hsorted
    rw [mem_semanticRoles, and_iff_left hrole]
    exact ⟨Map.mem_of_get, Map.get_of_mem hsorted⟩
  rw [hmem hordered, hmem hordered', hroles]

namespace OneSource

def descriptor : Map :=
  [("componentNegotiation", .bool false), ("fallback", .string "none"), ("indivisible", .bool true),
    ("profileSemanticVersion", .string "1")]

def sources : Map := [("kem", .string "a\n")]

def vectored : Map := [("authorityVectors", .null), ("kem", .string "a\n")]

def print (value : Rat) : String := toString value.num

theorem print_no_line : NumbersEndNoLine print := fun value _ => integer_text_no_newline value.num

theorem projections : ∃ projection,
    profileProjection print descriptor sources ["c"] ["n"] = .ok projection ∧
      profileProjection print descriptor vectored ["c"] ["n"] = .ok projection := ⟨_, rfl, rfl⟩

theorem resident {semanticSources : Map}
    (h : semanticSources = sources ∨ semanticSources = vectored) :
    Resident descriptor semanticSources ["c"] ["n"] where
  descriptor {key text} hget := by
    have hmem := Map.mem_of_get hget
    simp only [descriptor, List.mem_cons, Prod.mk.injEq, reduceCtorEq, and_false,
      Value.string.injEq, List.not_mem_nil, or_false, false_or] at hmem
    rcases hmem with ⟨_, rfl⟩ | ⟨_, rfl⟩ <;> rw [textBytes_length] <;> decide
  role {entry} hentry := by
    rcases h with rfl | rfl
    · cases List.mem_singleton.mp hentry
      rw [textBytes_length]
      decide
    · rcases List.mem_pair.mp hentry with rfl | rfl <;> rw [textBytes_length] <;> decide
  source {role text} hentry := by
    have htext : text = "a\n" := by
      rcases h with rfl | rfl
      · cases List.mem_singleton.mp hentry
        rfl
      · rcases List.mem_pair.mp hentry with heq | heq <;> cases heq
        rfl
    rw [htext, textBytes_length]
    decide
  claims := by
    refine ⟨by decide, fun claim hclaim => ?_⟩
    rw [List.mem_singleton.mp hclaim, textBytes_length]
    decide
  nonClaims := by
    refine ⟨by decide, fun claim hclaim => ?_⟩
    rw [List.mem_singleton.mp hclaim, textBytes_length]
    decide

theorem injectiveOn : InjectiveOn print (semanticRoles sources) (semanticRoles vectored) := by
  intro entry hentry entry' hentry' _ _ _
  obtain ⟨hmem, -⟩ := mem_semanticRoles.mp hentry
  obtain ⟨hmem', hrole⟩ := mem_semanticRoles.mp hentry'
  cases List.mem_singleton.mp hmem
  rcases List.mem_pair.mp hmem' with rfl | rfl
  · exact absurd rfl hrole
  · rfl

end OneSource

open OneSource in
/-- The source that the identity leaves out does not change it. -/
theorem profile_identity_binds_of_one : ∃ identity,
    computeProfileContentIdentity print descriptor sources ["c"] ["n"] (tableProvider [] []) =
        .ok identity ∧
      computeProfileContentIdentity print descriptor vectored ["c"] ["n"] (tableProvider [] []) =
        .ok identity ∧
      ∀ role, role ≠ "authorityVectors" → sources.get role = vectored.get role := by
  obtain ⟨projection, hprojection, hprojection'⟩ := projections
  have h : computeProfileContentIdentity print descriptor sources ["c"] ["n"]
      (tableProvider [] []) = .ok ((tableProvider [] []).sha256
      (semanticBytes dProfileContentIdentity projection)) := by
    rw [computeProfileContentIdentity, hprojection]
    rfl
  have h' : computeProfileContentIdentity print descriptor vectored ["c"] ["n"]
      (tableProvider [] []) = .ok ((tableProvider [] []).sha256
      (semanticBytes dProfileContentIdentity projection)) := by
    rw [computeProfileContentIdentity, hprojection']
    rfl
  refine ⟨_, h, h', (profile_identity_binds print_no_line (resident (.inl rfl))
    (resident (.inr rfl)) ?_ ?_ injectiveOn ?_ h h').2.2.2.2.2.2⟩
  · simp [sources]
  · simp only [vectored, List.map_cons, List.map_nil, List.pairwise_cons, List.not_mem_nil,
      IsEmpty.forall_iff, implies_true, List.Pairwise.nil, and_true, List.mem_singleton, forall_eq]
    decide
  · intro first second hfirst hsecond _
    rw [hprojection] at hfirst
    rw [hprojection'] at hsecond
    cases hfirst
    cases hsecond
    rfl

end Artifact

end LicoArc
