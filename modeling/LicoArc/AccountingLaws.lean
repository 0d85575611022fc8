import LicoArc.Accounting
import LicoArc.Interaction.Sequence

/-!
# What the accounting says

An accounting is never built through a panic, and one that is built lists the
claims of the manifest, each of which has exactly one binding of every kind that
quotes the model and the lemma of the claim.
-/

namespace LicoArc

namespace Security

open Json

section Loop

variable {semanticSources requiredKinds : List String}
  {claimProofs : List (String × String × String)} {marks result : Marks} {bindings : List Binding}

def Binding.claimKind (self : Binding) : String × String := (self.claimId, self.kind)

/-- What the loop checks of each binding for itself. -/
structure Supports (semanticSources requiredKinds : List String)
    (claimProofs : List (String × String × String)) (binding : Binding) : Prop where
  source : binding.authorityPath ∈ semanticSources
  proof : tableGet claimProofs binding.claimId = some (binding.proofModel, binding.proofLemma)
  kind : binding.kind ∈ requiredKinds

theorem bindAll_supports
    (h : bindAll semanticSources claimProofs requiredKinds marks bindings = some result) :
    ∀ binding ∈ bindings, Supports semanticSources requiredKinds claimProofs binding := by
  induction bindings generalizing marks with
  | nil => exact fun binding hbinding => absurd hbinding List.not_mem_nil
  | cons binding bindings ih =>
    rw [bindAll] at h
    split_ifs at h with haccepted
    obtain ⟨_, _, hsource, hproof, hkind, _⟩ := haccepted
    exact List.forall_mem_cons.mpr ⟨⟨hsource, hproof, hkind⟩, ih h⟩

theorem bindAll_marks
    (h : bindAll semanticSources claimProofs requiredKinds marks bindings = some result) :
    result.boundClaimKinds = (bindings.map Binding.claimKind).reverse ++ marks.boundClaimKinds := by
  induction bindings generalizing marks with
  | nil =>
    rw [bindAll] at h
    rw [Option.some.inj h]
    rfl
  | cons binding bindings ih =>
    rw [bindAll] at h
    split_ifs at h
    rw [ih h, List.map_cons, List.reverse_cons, List.append_assoc]
    rfl

theorem bindAll_nodup (hmarks : marks.boundClaimKinds.Nodup)
    (h : bindAll semanticSources claimProofs requiredKinds marks bindings = some result) :
    result.boundClaimKinds.Nodup := by
  induction bindings generalizing marks with
  | nil =>
    rw [bindAll] at h
    rwa [← Option.some.inj h]
  | cons binding bindings ih =>
    rw [bindAll] at h
    split_ifs at h with haccepted
    obtain ⟨_, _, _, _, _, hfresh⟩ := haccepted
    exact ih (List.nodup_cons.mpr ⟨hfresh, hmarks⟩) h

end Loop

section Proofs

variable {claims : List Claim} {entries : List (String × String × String)}

theorem claimProof_eq_ok {claim : Claim} {entry : String × String × String} :
    claimProof claim = .ok entry ↔ claim.id = entry.1 ∧ claim.proofModel = some entry.2.1 ∧
      claim.proofLemma = some entry.2.2 := by
  obtain ⟨id, proofModel, proofLemma⟩ := entry
  rw [claimProof]
  cases claim.proofModel <;> cases claim.proofLemma <;> simp [expect]

theorem claimProof_ne_panicked {claim : Claim} (h : claim.isValid = true) :
    claimProof claim ≠ .error .panicked := by
  simp only [Claim.isValid, Bool.and_eq_true, Option.any_eq_true] at h
  obtain ⟨⟨⟨⟨⟨_, model, hmodel, _⟩, proof, hproof, _⟩, _⟩, _⟩, _⟩ := h
  rw [claimProof, hmodel, hproof]
  rintro ⟨⟩

theorem exists_claim (h : claims.mapM claimProof = .ok entries) {name : String}
    {proof : String × String} (hproof : tableGet entries name = some proof) :
    ∃ claim ∈ claims, claim.id = name ∧ claim.proofModel = some proof.1 ∧
      claim.proofLemma = some proof.2 := by
  rw [tableGet, List.lookup_eq_some_iff] at hproof
  obtain ⟨before, after, hentries, _⟩ := hproof
  have hmem : (name, proof) ∈ entries := by
    rw [← List.mem_reverse, hentries]
    exact List.mem_append_right _ List.mem_cons_self
  have hall := Except.mapM_eq_ok.mp h
  clear h hentries
  induction hall with
  | nil => cases hmem
  | @cons claim entry claims entries hentry _ ih =>
    rcases List.mem_cons.mp hmem with rfl | hmem
    · exact ⟨claim, List.mem_cons_self, claimProof_eq_ok.mp hentry⟩
    · obtain ⟨other, hother, hquotes⟩ := ih hmem
      exact ⟨other, List.mem_cons_of_mem _ hother, hquotes⟩

end Proofs

structure Registered (claims : Claims) (bindings : Bindings) (manifest : Manifest) : Prop where
  claims {claim : Claim} : claim ∈ claims.claims → claim.isValid = true
  kinds : bindings.requiredKinds = kinds
  bindings : bindings.bindings.length ≤ 512
  stable : manifest.stableClaimIds.Pairwise (· < ·)

theorem registered_of_valid {claims : Claims} {bindings : Bindings} {manifest : Manifest}
    (h : registriesValid claims bindings manifest = true) :
    Registered claims bindings manifest := by
  simp only [registriesValid, Bool.and_eq_true, List.all_eq_true, beq_iff_eq, decide_eq_true_eq,
    sortedUnique] at h
  have hstable := List.isChain_iff_pairwise.mp h.2
  refine ⟨?_, ?_, ?_, hstable⟩ <;> tauto

/-- What an accounting says of the registries that it was built from. -/
structure Accounts (account : SecurityAccounting) (claims : Claims) (bindings : Bindings)
    (manifest : Manifest) : Prop where
  stable : account.claimIds = manifest.stableClaimIds
  ascending : account.claimIds.Pairwise (· < ·)
  proved (claimId : String) : account.requireProved claimId = .ok () ↔
    ∃ claim ∈ claims.claims, claim.id = claimId ∧ claim.status = "proved"
  bound {claim : Claim} {kind : String} : claim ∈ claims.claims → kind ∈ kinds →
    ∃! binding, binding ∈ bindings.bindings ∧ binding.claimId = claim.id ∧ binding.kind = kind
  quotes {binding : Binding} : binding ∈ bindings.bindings →
    binding.kind ∈ kinds ∧ binding.authorityPath ∈ bindings.semanticSources ∧
    ∃ claim ∈ claims.claims, claim.id = binding.claimId ∧
      claim.proofModel = some binding.proofModel ∧ claim.proofLemma = some binding.proofLemma
  counted : bindings.bindings.length = claims.claims.length * 7
  limited : claims.claims.length ≤ 73

structure Checked (account : SecurityAccounting) (claims : Claims) (bindings : Bindings)
    (manifest : Manifest) (claimProofs : List (String × String × String)) (marks : Marks) :
    Prop where
  valid : registriesValid claims bindings manifest = true
  proofs : claims.claims.mapM claimProof = .ok claimProofs
  sorted : account.claimIds = sortStrings (claims.claims.map Claim.id)
  stable : account.claimIds = manifest.stableClaimIds
  marked : bindAll bindings.semanticSources claimProofs bindings.requiredKinds ⟨[], []⟩
    bindings.bindings = some marks
  complete : ∀ claimId ∈ account.claimIds, ∀ kind ∈ bindings.requiredKinds,
    (claimId, kind) ∈ marks.boundClaimKinds

section

variable {sources : Map} {account : SecurityAccounting} {claims : Claims} {bindings : Bindings}
  {manifest : Manifest} {claimProofs : List (String × String × String)} {marks : Marks}

theorem fromProtocolLine_checked (h : SecurityAccounting.fromProtocolLine sources = .ok account) :
    ∃ claims bindings manifest claimProofs marks,
      (sources.get "spec/v1/security/claims.json").bind Claims.read = some claims ∧
      (sources.get "spec/v1/security/formal-bindings.json").bind Bindings.read = some bindings ∧
      (sources.get "spec/v1/manifest.json").bind Manifest.read = some manifest ∧
      Checked account claims bindings manifest claimProofs marks := by
  simp only [SecurityAccounting.fromProtocolLine, Except.bind_eq_ok, liftM_eq_ok, source, readAs,
    okOr_eq_ok, reject_eq_ok, Except.pure_eq, Except.ok.injEq] at h
  obtain ⟨claimsValue, hclaims, claims, hreadClaims, bindingsValue, hbindings, bindings,
    hreadBindings, manifestValue, hmanifest, manifest, hreadManifest, _, hvalid, claimProofs,
    hproofs, _, hids, marks, hmarks, _, hcomplete, rfl⟩ := h
  refine ⟨claims, bindings, manifest, claimProofs, marks, ?_, ?_, ?_, ?_⟩
  · rw [hclaims, Option.bind_some, hreadClaims]
  · rw [hbindings, Option.bind_some, hreadBindings]
  · rw [hmanifest, Option.bind_some, hreadManifest]
  · rw [not_or, not_not, not_not] at hids
    push Not at hcomplete
    exact ⟨Bool.eq_true_of_not_eq_false hvalid, hproofs, rfl, hids.2, hmarks, hcomplete⟩

theorem fromProtocolLine_ne_panicked :
    SecurityAccounting.fromProtocolLine sources ≠ .error .panicked := by
  rw [SecurityAccounting.fromProtocolLine]
  simp only [Except.bind_ne_error]
  refine ⟨liftM_ne_panicked _, fun _ _ => ⟨liftM_ne_panicked _, fun claims _ =>
    ⟨liftM_ne_panicked _, fun _ _ => ⟨liftM_ne_panicked _, fun bindings _ =>
    ⟨liftM_ne_panicked _, fun _ _ => ⟨liftM_ne_panicked _, fun manifest _ =>
    ⟨by simp, fun _ hvalid => ⟨?_, fun _ _ => ⟨by simp, fun _ _ => ⟨?_, fun _ _ =>
    ⟨by simp, fun _ _ => by simp⟩⟩⟩⟩⟩⟩⟩⟩⟩⟩⟩
  · rw [reject_eq_ok, Bool.not_eq_false] at hvalid
    have hregistered := registered_of_valid hvalid
    exact Except.mapM_ne_error fun claim hclaim =>
      claimProof_ne_panicked (hregistered.claims hclaim)
  · cases bindAll _ _ _ _ _ <;> simp [okOr]

namespace Checked

variable (h : Checked account claims bindings manifest claimProofs marks)
include h

theorem kinds_eq : bindings.requiredKinds = kinds := (registered_of_valid h.valid).kinds

theorem ascending : account.claimIds.Pairwise (· < ·) := by
  rw [h.stable]
  exact (registered_of_valid h.valid).stable

theorem ids_perm : account.claimIds.Perm (claims.claims.map Claim.id) := by
  rw [h.sorted]
  exact List.perm_insertionSort _ _

theorem ids_nodup : (claims.claims.map Claim.id).Nodup :=
  h.ids_perm.nodup_iff.mp (h.ascending.imp fun hlt => ne_of_lt hlt)

theorem quotes {binding : Binding} (hbinding : binding ∈ bindings.bindings) :
    binding.kind ∈ kinds ∧ binding.authorityPath ∈ bindings.semanticSources ∧
    ∃ claim ∈ claims.claims, claim.id = binding.claimId ∧
      claim.proofModel = some binding.proofModel ∧ claim.proofLemma = some binding.proofLemma := by
  have hsupports := bindAll_supports h.marked binding hbinding
  refine ⟨h.kinds_eq ▸ hsupports.kind, hsupports.source, ?_⟩
  exact exists_claim h.proofs hsupports.proof

theorem pairs_perm : (bindings.bindings.map Binding.claimKind).Perm
    (claims.claims.map Claim.id ×ˢ kinds) := by
  have hmarks := bindAll_marks h.marked
  rw [List.append_nil] at hmarks
  have hnodup := bindAll_nodup List.nodup_nil h.marked
  rw [hmarks, List.nodup_reverse] at hnodup
  have hkinds : kinds.Nodup := by decide
  refine (List.perm_ext_iff_of_nodup hnodup (h.ids_nodup.product hkinds)).mpr ?_
  rintro ⟨claimId, kind⟩
  rw [List.mem_product]
  constructor
  · intro hpair
    obtain ⟨binding, hbinding, hsame⟩ := List.mem_map.mp hpair
    obtain ⟨rfl, rfl⟩ := Prod.mk.inj hsame
    obtain ⟨hkind, _, claim, hclaim, hid, _⟩ := h.quotes hbinding
    exact ⟨hid ▸ List.mem_map_of_mem hclaim, hkind⟩
  · rintro ⟨hid, hkind⟩
    have hpair := h.complete claimId (h.ids_perm.mem_iff.mpr hid) kind (h.kinds_eq ▸ hkind)
    rwa [hmarks, List.mem_reverse] at hpair

theorem counted : bindings.bindings.length = claims.claims.length * 7 := by
  have hlength := h.pairs_perm.length_eq
  rwa [List.length_map, List.length_product, List.length_map] at hlength

theorem bound {claim : Claim} {kind : String} (hclaim : claim ∈ claims.claims)
    (hkind : kind ∈ kinds) : ∃! binding, binding ∈ bindings.bindings ∧
      binding.claimId = claim.id ∧ binding.kind = kind := by
  have hpair : (claim.id, kind) ∈ bindings.bindings.map Binding.claimKind := by
    rw [h.pairs_perm.mem_iff, List.mem_product]
    exact ⟨List.mem_map_of_mem hclaim, hkind⟩
  have hnodup : (bindings.bindings.map Binding.claimKind).Nodup :=
    h.pairs_perm.nodup_iff.mpr (h.ids_nodup.product (by decide))
  obtain ⟨binding, hbinding, hsame⟩ := List.mem_map.mp hpair
  obtain ⟨hid, hkind⟩ := Prod.mk.inj hsame
  refine ⟨binding, ⟨hbinding, hid, hkind⟩, ?_⟩
  rintro other ⟨hother, hid', hkind'⟩
  exact List.inj_on_of_nodup_map hnodup hother hbinding
    (Prod.ext (hid'.trans hid.symm) (hkind'.trans hkind.symm))

theorem proved (claimId : String) : account.requireProved claimId = .ok () ↔
    ∃ claim ∈ claims.claims, claim.id = claimId ∧ claim.status = "proved" := by
  have hmem : account.requireProved claimId = .ok () ↔ claimId ∈ account.claimIds := by
    rw [SecurityAccounting.requireProved]
    split_ifs with hmem <;> simp [hmem]
  rw [hmem, h.ids_perm.mem_iff, List.mem_map]
  constructor
  · rintro ⟨claim, hclaim, hid⟩
    have hclaimValid := (registered_of_valid h.valid).claims hclaim
    rw [Claim.isValid, Bool.and_eq_true, beq_iff_eq] at hclaimValid
    exact ⟨claim, hclaim, hid, hclaimValid.2⟩
  · rintro ⟨claim, hclaim, hid, _⟩
    exact ⟨claim, hclaim, hid⟩

theorem limited : claims.claims.length ≤ 73 := by
  have hbound := (registered_of_valid h.valid).bindings
  have hcounted := h.counted
  omega

end Checked

end

/-- Building the accounting never panics, and an accounting that is built answers for exactly the
claims of the registry, every one of which has one binding of every kind. -/
theorem security_accounting (sources : Map) :
    SecurityAccounting.fromProtocolLine sources ≠ .error .panicked ∧
    ∀ account, SecurityAccounting.fromProtocolLine sources = .ok account →
      ∃ claims bindings manifest,
        (sources.get "spec/v1/security/claims.json").bind Claims.read = some claims ∧
        (sources.get "spec/v1/security/formal-bindings.json").bind Bindings.read = some bindings ∧
        (sources.get "spec/v1/manifest.json").bind Manifest.read = some manifest ∧
        Accounts account claims bindings manifest := by
  refine ⟨fromProtocolLine_ne_panicked, fun account h => ?_⟩
  obtain ⟨claims, bindings, manifest, _, _, hclaims, hbindings, hmanifest, hchecked⟩ :=
    fromProtocolLine_checked h
  refine ⟨claims, bindings, manifest, hclaims, hbindings, hmanifest, ?_⟩
  exact ⟨hchecked.stable, hchecked.ascending, hchecked.proved, hchecked.bound, hchecked.quotes,
    hchecked.counted, hchecked.limited⟩

namespace Sample

def digest : String := "0000000000000000000000000000000000000000000000000000000000000000"

def claim (id : String) : Value :=
  .object [("adversary", .array [.string "A1"]), ("assumptions", .array []),
  ("counterexampleStatus", .string "no-counterexample-found"), ("id", .string id),
  ("proofLemma", .string ("lemma-" ++ id)), ("proofModel", .string "model"),
  ("property", .string "secrecy"), ("residualRisk", .string "none"), ("scope", .string "session"),
  ("status", .string "proved")]

def claims : Value := .object [("$id", .string "https://licoarc.com/spec/v1/security/claims.json"),
  ("$schema", .string "https://licoarc.com/spec/schemas/security-claims.schema.json"),
  ("claimStatusValues", .array [.string "unproved", .string "proved",
    .string "explicit-nonclaim"]),
  ("claims", .array [claim "SEC-002", claim "SEC-001"]), ("lifecycle", .string "Candidate"),
  ("nonClaims", .array [.string "anonymity"]),
  ("registryVersion", .string "licoarc.security-claims.v1")]

def binding (id kind bindingId : String) : Value := .object [("authorityDigest", .string digest),
  ("authorityPath", .string "spec/v1/manifest.json"), ("authorityPointer", .string "/wireId"),
  ("authorityValueDigest", .string digest), ("bindingId", .string ("BIND-" ++ bindingId)),
  ("claimId", .string id), ("kind", .string kind), ("proofLemma", .string ("lemma-" ++ id)),
  ("proofModel", .string "model")]

def bindingsOf (id : String) : List Value :=
  (kinds.zip ["-1", "-2", "-3", "-4", "-5", "-6", "-7"]).map fun (kind, suffix) =>
    binding id kind (id ++ suffix)

def bindings : Value := .object [
  ("$id", .string "https://licoarc.com/spec/v1/security/formal-bindings.json"),
  ("$schema", .string "https://licoarc.com/spec/schemas/security-formal-bindings.schema.json"),
  ("authority", .string "generated-only-from-decided-specified-normative-sources"),
  ("bindings", .array (bindingsOf "SEC-001" ++ bindingsOf "SEC-002")),
  ("lifecycle", .string "Candidate"),
  ("missingBindingPolicy", .string "claim-remains-unproved-and-line-ineligible"),
  ("modelAuthority", .string "never-a-second-protocol"),
  ("registryVersion", .string "licoarc.formal-bindings.v1"),
  ("requiredKinds", .array (kinds.map .string)), ("semanticSourceDigest", .string digest),
  ("semanticSources", .array [.string "spec/v1/manifest.json"]), ("status", .string "complete")]

def sources : Map := [
  ("spec/v1/manifest.json",
    .object [("stableClaimIds", .array [.string "SEC-001", .string "SEC-002"])]),
  ("spec/v1/security/claims.json", claims), ("spec/v1/security/formal-bindings.json", bindings)]

theorem accounted : Except.check (SecurityAccounting.fromProtocolLine sources)
    (fun account => account.claimIds = ["SEC-001", "SEC-002"]) = true := by
  decide +kernel

/-- Two claims, which the accounting lists in order, and a binding of every kind for each. -/
theorem security_accounting_of_two : ∃ account claims bindings manifest,
    SecurityAccounting.fromProtocolLine sources = .ok account ∧
    account.claimIds = ["SEC-001", "SEC-002"] ∧ Accounts account claims bindings manifest := by
  obtain ⟨account, haccount, hids⟩ := Except.exists_of_check accounted
  obtain ⟨claims, bindings, manifest, _, _, _, haccounts⟩ :=
    (security_accounting sources).2 account haccount
  exact ⟨account, claims, bindings, manifest, haccount, hids, haccounts⟩

end Sample

end Security

end LicoArc
