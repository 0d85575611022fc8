import LicoArc.Bytes
import LicoArc.Error

/-!
# The fixed cryptographic operations

The traits `DigestProvider`, `KdfProvider`, `AeadProvider`, `AgreementProvider`
and `SignatureProvider` as one record of functions. Their implementations are
third-party crates; what a result relies on is a named hypothesis about the
record.
-/

namespace LicoArc

def mlKem768PublicKeyBytes : Nat := 1184
def mlKem768CiphertextBytes : Nat := 1088
def mlDsa65PublicKeyBytes : Nat := 1952
def mlDsa65SignatureBytes : Nat := 3309

structure Provider where
  sha256 : Bytes → FixedBytes 32
  hkdfSha256 : (salt inputKeyMaterial info : Bytes) → (length : Nat) →
    Except Error (FixedBytes length)
  hkdfExpandSha256 : (pseudorandomKey : FixedBytes 32) → (info : Bytes) → (length : Nat) →
    Except Error (FixedBytes length)
  hmacSha256 : (key input : Bytes) → Except Error (FixedBytes 32)
  hmacSha256Verify : (key input : Bytes) → (expected : FixedBytes 32) → Except Error Unit
  aeadSeal : (key : FixedBytes 32) → (nonce : FixedBytes 12) → (associatedData plaintext : Bytes) →
    Except Error Bytes
  aeadOpen : (key : FixedBytes 32) → (nonce : FixedBytes 12) →
    (associatedData ciphertextAndTag : Bytes) → Except Error Bytes
  x25519Public : (privateKey : FixedBytes 32) → FixedBytes 32
  x25519 : (privateKey publicKey : FixedBytes 32) → Except Error (FixedBytes 32)
  mlKem768Public : (seed : FixedBytes 64) → Bytes
  mlKem768Encapsulate : (publicKey : Bytes) → (entropy : FixedBytes 32) →
    Except Error (Bytes × FixedBytes 32)
  mlKem768Decapsulate : (seed : FixedBytes 64) → (ciphertext : Bytes) →
    Except Error (FixedBytes 32)
  ed25519Public : (seed : FixedBytes 32) → FixedBytes 32
  ed25519Sign : (seed : FixedBytes 32) → (message : Bytes) → FixedBytes 64
  ed25519VerifyStrict : (publicKey : FixedBytes 32) → (message : Bytes) →
    (signature : FixedBytes 64) → Except Error Unit
  mlDsa65Public : (seed : FixedBytes 32) → Bytes
  mlDsa65Sign : (seed : FixedBytes 32) → (message : Bytes) → Bytes
  mlDsa65Verify : (publicKey message signature : Bytes) → Except Error Unit

end LicoArc
