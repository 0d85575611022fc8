import LicoArc.KeySeparation

/-!
# A provider given by tables

Digests and derivations are the positions of their inputs in a list, so that
distinct inputs have distinct outputs and a run can be evaluated. The provider
satisfies what the results assume of a provider.
-/

namespace LicoArc

inductive Derivation
  | hkdf (salt inputKeyMaterial info : Bytes)
  | expand (pseudorandomKey : FixedBytes 32) (info : Bytes)
  deriving DecidableEq

namespace TableProvider

def position {α : Type} [DecidableEq α] (table : List α) (length : Nat) (input : α) :
    Except Error (FixedBytes length) :=
  match table.idxOf? input with
  | some index => .ok (List.Vector.replicate length (UInt8.ofNat index))
  | none => .error (.terminal .providerFailure .provider)

def sealedPrefix (key : FixedBytes 32) (nonce : FixedBytes 12) (data : Bytes) : Bytes :=
  key.toList ++ nonce.toList ++ bigEndian 8 data.length ++ data

def agree (privateKey publicKey : FixedBytes 32) : FixedBytes 32 :=
  privateKey.map₂ (· + ·) publicKey

end TableProvider

open TableProvider in
def tableProvider (digests : List Bytes) (derivations : List Derivation) : Provider where
  sha256 input := List.Vector.replicate 32 (UInt8.ofNat (digests.idxOf input))
  hkdfSha256 salt inputKeyMaterial info length :=
    position derivations length (.hkdf salt inputKeyMaterial info)
  hkdfExpandSha256 pseudorandomKey info length :=
    position derivations length (.expand pseudorandomKey info)
  hmacSha256 _ _ := .ok (FixedBytes.zero 32)
  hmacSha256Verify _ _ expected :=
    reject (expected ≠ FixedBytes.zero 32) (.terminal .authenticationFailed .provider)
  aeadSeal key nonce data plaintext :=
    if data.length < 256 ^ 8 then .ok (sealedPrefix key nonce data ++ plaintext)
    else .error (.terminal .providerFailure .provider)
  aeadOpen key nonce data sealedText :=
    if data.length < 256 ^ 8 ∧ sealedPrefix key nonce data <+: sealedText then
      .ok (sealedText.drop (sealedPrefix key nonce data).length)
    else .error (.terminal .authenticationFailed .provider)
  x25519Public privateKey := privateKey
  x25519 privateKey publicKey := .ok (agree privateKey publicKey)
  mlKem768Public seed := seed.toList
  mlKem768Encapsulate publicKey entropy := .ok (publicKey, entropy)
  mlKem768Decapsulate _ _ := .error (.terminal .providerFailure .provider)
  ed25519Public seed := seed
  ed25519Sign _ _ := FixedBytes.zero 64
  ed25519VerifyStrict _ _ _ := .ok ()
  mlDsa65Public seed := seed.toList
  mlDsa65Sign _ _ := []
  mlDsa65Verify _ _ _ := .ok ()

namespace TableProvider

variable {digests : List Bytes} {derivations : List Derivation}

theorem position_injective {α : Type} [DecidableEq α] {table : List α} (hsize : table.length ≤ 256)
    {input input' : α} {key : FixedBytes 32} (h : position table 32 input = .ok key)
    (h' : position table 32 input' = .ok key) : input = input' := by
  unfold position at h h'
  split at h
  · next index hindex =>
    split at h'
    · next index' hindex' =>
      have heq := congrArg List.Vector.head ((Except.ok.inj h).trans (Except.ok.inj h').symm)
      have hbyte : UInt8.ofNat index = UInt8.ofNat index' := heq
      rw [List.idxOf?_eq_some_iff] at hindex hindex'
      obtain ⟨hlt, hget, _⟩ := hindex
      obtain ⟨hlt', hget', _⟩ := hindex'
      have hnat := congrArg UInt8.toNat hbyte
      rw [UInt8.toNat_ofNat', UInt8.toNat_ofNat'] at hnat
      obtain rfl : index = index' := by omega
      exact hget.symm.trans hget'
    · cases h'
  · cases h

theorem kdfSeparation (hsize : derivations.length ≤ 256) :
    KdfSeparation (tableProvider digests derivations) where
  hkdf h h' := by
    have heq := position_injective hsize h h'
    simp only [Derivation.hkdf.injEq] at heq
    exact ⟨FixedBytes.toList_injective heq.1, FixedBytes.toList_injective heq.2.1, heq.2.2⟩
  expand h h' := by
    have heq := position_injective hsize h h'
    simpa only [Derivation.expand.injEq] using heq
  separate _ h h' := by
    cases position_injective hsize h h'

theorem sealedPrefix_injective {key key' : FixedBytes 32} {nonce nonce' : FixedBytes 12}
    {data data' rest rest' : Bytes} (hdata : data.length < 256 ^ 8)
    (hdata' : data'.length < 256 ^ 8)
    (h : sealedPrefix key nonce data ++ rest = sealedPrefix key' nonce' data' ++ rest') :
    key = key' ∧ nonce = nonce' ∧ data = data' ∧ rest = rest' := by
  simp only [sealedPrefix, List.append_assoc] at h
  obtain ⟨hkey, h⟩ := List.append_inj h (by simp)
  obtain ⟨hnonce, h⟩ := List.append_inj h (by simp)
  obtain ⟨hlength, h⟩ := List.append_inj h (by simp)
  have hlength := bigEndian_injective hdata hdata' hlength
  obtain ⟨hdata, hrest⟩ := List.append_inj h hlength
  exact ⟨FixedBytes.toList_injective hkey, FixedBytes.toList_injective hnonce, hdata, hrest⟩

theorem aeadBinding : AeadBinding (tableProvider digests derivations) := by
  intro key key' nonce nonce' data data' plaintext plaintext' sealedText hseal hopen
  simp only [tableProvider] at hseal hopen
  split at hseal
  · next hdata =>
    cases hseal
    split at hopen
    · next hopened =>
      obtain ⟨hdata', rest, hrest⟩ := hopened
      obtain ⟨rfl, rfl, rfl, rfl⟩ := sealedPrefix_injective hdata' hdata hrest
      rw [List.drop_left] at hopen
      exact ⟨rfl, rfl, rfl, Except.ok.inj hopen⟩
    · cases hopen
  · cases hseal

theorem aeadCorrect : AeadCorrect (tableProvider digests derivations) := by
  intro key nonce data plaintext sealedText hseal
  simp only [tableProvider] at hseal ⊢
  split at hseal
  · next hdata =>
    cases hseal
    rw [if_pos ⟨hdata, List.prefix_append _ _⟩, List.drop_left]
  · cases hseal

theorem x25519Commutes : X25519Commutes (tableProvider digests derivations) := by
  intro a b
  refine congrArg Except.ok (List.Vector.ext fun i => ?_)
  simp only [agree, tableProvider, List.Vector.get_map₂]
  exact UInt8.add_comm _ _

end TableProvider

end LicoArc
