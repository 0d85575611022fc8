import LicoArc.RatchetLaws

/-!
# Separation of the derived keys

What the exchange of records assumes of the cryptographic provider, and how it
lifts from one derivation to the message keys of a chain. A provider may fail,
so that an assumption about all successful derivations speaks about those of
one run.
-/

namespace LicoArc

/-- Derivations from distinct inputs have distinct outputs. A key that is itself a derived key is
never the extracted key of another derivation. -/
structure KdfSeparation (provider : Provider) : Prop where
  hkdf {salt salt' shared shared' : FixedBytes 32} {info info' : Bytes} {key : Secret} :
    provider.hkdfSha256 salt.toList shared.toList info 32 = .ok key →
    provider.hkdfSha256 salt'.toList shared'.toList info' 32 = .ok key →
    salt = salt' ∧ shared = shared' ∧ info = info'
  expand {source source' : FixedBytes 32} {info info' : Bytes} {key : Secret} :
    provider.hkdfExpandSha256 source info 32 = .ok key →
    provider.hkdfExpandSha256 source' info' 32 = .ok key → source = source' ∧ info = info'
  separate {salt ikm label : Bytes} {source salt' shared : FixedBytes 32} {info info' : Bytes}
      {key : Secret} :
    provider.hkdfSha256 salt ikm label 32 = .ok source →
    provider.hkdfExpandSha256 source info 32 = .ok key →
    provider.hkdfSha256 salt'.toList shared.toList info' 32 ≠ .ok key

/-- A sealed text opens only under the key, nonce and associated data that sealed it. -/
def AeadBinding (provider : Provider) : Prop :=
  ∀ {key key' : FixedBytes 32} {nonce nonce' : FixedBytes 12} {data data' plaintext plaintext'
    sealedText : Bytes},
    provider.aeadSeal key nonce data plaintext = .ok sealedText →
    provider.aeadOpen key' nonce' data' sealedText = .ok plaintext' →
    key = key' ∧ nonce = nonce' ∧ data = data' ∧ plaintext = plaintext'

def AeadCorrect (provider : Provider) : Prop :=
  ∀ {key : FixedBytes 32} {nonce : FixedBytes 12} {data plaintext sealedText : Bytes},
    provider.aeadSeal key nonce data plaintext = .ok sealedText →
    provider.aeadOpen key nonce data sealedText = .ok plaintext

def X25519Commutes (provider : Provider) : Prop :=
  ∀ a b : FixedBytes 32,
    provider.x25519 a (provider.x25519Public b) = provider.x25519 b (provider.x25519Public a)

theorem initialKeys_eq_ok {provider : Provider} {hybrid : HybridSecrets} {context : FixedBytes 32}
    {root chain : Secret} :
    initialKeys provider hybrid context = .ok (root, chain) ↔
      provider.hkdfExpandSha256 hybrid.hybridRoot (dInitialRoot ++ context.toList) 32 = .ok root ∧
      provider.hkdfExpandSha256 hybrid.hybridRoot (dChainI2R ++ context.toList) 32 = .ok chain := by
  simp [initialKeys, Except.bind_eq_ok]

theorem dhKeys_eq_ok {provider : Provider} {root shared context : FixedBytes 32}
    {direction : Direction} {nextRoot chain : Secret} :
    dhKeys provider root shared direction context = .ok (nextRoot, chain) ↔
      provider.hkdfSha256 root.toList shared.toList (direction.rootDomain ++ context.toList) 32 =
        .ok nextRoot ∧
      provider.hkdfSha256 root.toList shared.toList (direction.chainDomain ++ context.toList) 32 =
        .ok chain := by
  simp [dhKeys, Except.bind_eq_ok]

theorem messageStep_eq_ok {provider : Provider} {chain : Secret} {number : Nat}
    {step : MessageStep} :
    messageStep provider chain number = .ok step ↔
      provider.hkdfExpandSha256 chain (dMessageKey ++ bigEndian 4 number) 32 = .ok step.key ∧
      provider.hkdfExpandSha256 chain (dNonce ++ bigEndian 4 number) 12 = .ok step.nonce ∧
      provider.hkdfExpandSha256 chain (dNextChain ++ bigEndian 4 number) 32 = .ok step.next := by
  simp only [messageStep, Except.bind_eq_ok, Except.pure_eq, Except.ok.injEq]
  constructor
  · rintro ⟨key, hkey, nonce, hnonce, following, hnext, rfl⟩
    exact ⟨hkey, hnonce, hnext⟩
  · rintro ⟨hkey, hnonce, hnext⟩
    exact ⟨_, hkey, _, hnonce, _, hnext, rfl⟩

theorem HybridSecrets.derive_hybridRoot {provider : Provider} {hybrid : HybridSecrets}
    {x25519Shared mlKemShared transcript core : FixedBytes 32}
    (h : HybridSecrets.derive provider x25519Shared mlKemShared transcript core = .ok hybrid) :
    ∃ salt ikm label, provider.hkdfSha256 salt ikm label 32 = .ok hybrid.hybridRoot := by
  simp only [derive, expand, Except.bind_eq_ok, Except.pure_eq, Except.ok.injEq] at h
  obtain ⟨root, hroot, _, _, _, _, _, _, rfl⟩ := h
  exact ⟨_, _, _, hroot⟩

theorem Direction.chainDomain_injective {a b : Direction} (h : a.chainDomain = b.chainDomain) :
    a = b := by
  have hne : dChainI2R ≠ dChainR2I := by decide +kernel
  cases a <;> cases b
  · rfl
  · exact absurd h hne
  · exact absurd h hne.symm
  · rfl

namespace KdfSeparation

variable {provider : Provider} (kdf : KdfSeparation provider) {context : FixedBytes 32}

include kdf

theorem dhKeys_root {root root' shared shared' nextRoot chain chain' : FixedBytes 32}
    {direction direction' : Direction}
    (h : dhKeys provider root shared direction context = .ok (nextRoot, chain))
    (h' : dhKeys provider root' shared' direction' context = .ok (nextRoot, chain')) :
    root = root' :=
  (kdf.hkdf (dhKeys_eq_ok.mp h).1 (dhKeys_eq_ok.mp h').1).1

theorem dhKeys_chain {root root' shared shared' nextRoot nextRoot' chain : FixedBytes 32}
    {direction direction' : Direction}
    (h : dhKeys provider root shared direction context = .ok (nextRoot, chain))
    (h' : dhKeys provider root' shared' direction' context = .ok (nextRoot', chain)) :
    root = root' ∧ shared = shared' ∧ direction = direction' := by
  obtain ⟨hroot, hshared, hinfo⟩ := kdf.hkdf (dhKeys_eq_ok.mp h).2 (dhKeys_eq_ok.mp h').2
  exact ⟨hroot, hshared, Direction.chainDomain_injective (List.append_cancel_right hinfo)⟩

theorem chainAt_start {start start' chain : Secret} {number : Nat}
    (h : chainAt provider start number = .ok chain)
    (h' : chainAt provider start' number = .ok chain) : start = start' := by
  induction number generalizing chain with
  | zero =>
    cases h
    cases h'
    rfl
  | succ number ih =>
    obtain ⟨previous, hprevious, h⟩ := Except.bind_eq_ok.mp h
    obtain ⟨previous', hprevious', h'⟩ := Except.bind_eq_ok.mp h'
    obtain ⟨step, hstep, h⟩ := Except.bind_eq_ok.mp h
    obtain ⟨step', hstep', h'⟩ := Except.bind_eq_ok.mp h'
    have hnext : step.next = step'.next := (Except.ok.inj h).trans (Except.ok.inj h').symm
    have hexpand := (messageStep_eq_ok.mp hstep).2.2
    rw [hnext] at hexpand
    obtain ⟨rfl, _⟩ := kdf.expand hexpand (messageStep_eq_ok.mp hstep').2.2
    exact ih hprevious hprevious'

theorem stepAt_key {start start' : Secret} {number number' : Nat} {step step' : MessageStep}
    (hnumber : number < 2 ^ 32) (hnumber' : number' < 2 ^ 32)
    (h : stepAt provider start number = .ok step)
    (h' : stepAt provider start' number' = .ok step') (hkey : step.key = step'.key) :
    start = start' ∧ number = number' := by
  obtain ⟨chain, hchain, hstep⟩ := Except.bind_eq_ok.mp h
  obtain ⟨chain', hchain', hstep'⟩ := Except.bind_eq_ok.mp h'
  have hexpand := (messageStep_eq_ok.mp hstep).1
  rw [hkey] at hexpand
  obtain ⟨rfl, hinfo⟩ := kdf.expand hexpand (messageStep_eq_ok.mp hstep').1
  obtain rfl : number = number' :=
    bigEndian_injective (by omega) (by omega) (List.append_cancel_left hinfo)
  exact ⟨kdf.chainAt_start hchain hchain', rfl⟩

end KdfSeparation

end LicoArc
