import LicoArc.CanonicalText
import LicoArc.Utf16Order

/-!
# The bundle body

The body of an authority bundle that the digest is taken of. It is streamed by
hand, with its sources in the order of their map, while the canonical writer
sorts the members of an object by their UTF-16 names.
-/

namespace LicoArc

namespace Json

structure Bundle where
  artifactVersion : String
  wireId : String
  generation : Nat
  lifecycle : String
  definitionStatus : String
  sessionEligible : Bool
  publicationEligible : Bool
  digestAlgorithm : String
  sources : Map
  digest : String
  /-- The sources are a `BTreeMap`. -/
  ascending : (sources.map Prod.fst).Pairwise (· < ·)

def maxBundleBytes : Nat := 16 * 1024 * 1024

def validatePath (path : String) : Except Error Unit := do
  let parts := path.toList.splitOn '/'
  reject (path = "" ∨ path.toList.head? = some '/' ∨ '\\' ∈ path.toList ∨
    (parts.any fun part => part = [] ∨ part = ".".toList ∨ part = "..".toList) ∨
    ¬(".json".toList.isSuffixOf path.toList ∨ ".cddl".toList.isSuffixOf path.toList ∨
      ".md".toList.isSuffixOf path.toList)) (admission .invalidAuthorityInput)

def appendJsonString (maximum : Nat) (value output : String) : Except Error String :=
  pushBounded maximum output (quoted value)

def booleanText (value : Bool) : String := if value then "true" else "false"

section

variable (formatFinite : Rat → String)

def canonicalBundleBody (bundle : Bundle) : Except Error String := do
  let output ← pushBounded maxBundleBytes "" "\x7b\"artifactVersion\":"
  let output ← appendJsonString maxBundleBytes bundle.artifactVersion output
  let output ← pushBounded maxBundleBytes output ",\"definitionStatus\":"
  let output ← appendJsonString maxBundleBytes bundle.definitionStatus output
  let output ← pushBounded maxBundleBytes output ",\"digestAlgorithm\":"
  let output ← appendJsonString maxBundleBytes bundle.digestAlgorithm output
  let output ← pushBounded maxBundleBytes output ",\"generation\":"
  let output ← pushBounded maxBundleBytes output (toString bundle.generation)
  let output ← pushBounded maxBundleBytes output ",\"lifecycle\":"
  let output ← appendJsonString maxBundleBytes bundle.lifecycle output
  let output ← pushBounded maxBundleBytes output ",\"publicationEligible\":"
  let output ← pushBounded maxBundleBytes output (booleanText bundle.publicationEligible)
  let output ← pushBounded maxBundleBytes output ",\"sessionEligible\":"
  let output ← pushBounded maxBundleBytes output (booleanText bundle.sessionEligible)
  let output ← pushBounded maxBundleBytes output ",\"sources\":\x7b"
  let output ← appendEntries maxBundleBytes true
    (entryAppenders formatFinite maxBundleBytes bundle.sources) output
  let output ← pushBounded maxBundleBytes output "\x7d,\"wireId\":"
  let output ← appendJsonString maxBundleBytes bundle.wireId output
  pushBounded maxBundleBytes output "\x7d"

end

namespace Bundle

def members (bundle : Bundle) : Map :=
  [("artifactVersion", .string bundle.artifactVersion),
    ("definitionStatus", .string bundle.definitionStatus),
    ("digestAlgorithm", .string bundle.digestAlgorithm),
    ("generation", .number (.integer bundle.generation)),
    ("lifecycle", .string bundle.lifecycle),
    ("publicationEligible", .bool bundle.publicationEligible),
    ("sessionEligible", .bool bundle.sessionEligible),
    ("sources", .object bundle.sources),
    ("wireId", .string bundle.wireId)]

def body (bundle : Bundle) : Value := .object bundle.members

end Bundle

section Texts

variable {formatFinite : Rat → String} {bundle : Bundle}

def bodyHead (bundle : Bundle) (rest : List Char) : List Char :=
  "\x7b\"artifactVersion\":".toList ++ ((quoted bundle.artifactVersion).toList ++
  (",\"definitionStatus\":".toList ++ ((quoted bundle.definitionStatus).toList ++
  (",\"digestAlgorithm\":".toList ++ ((quoted bundle.digestAlgorithm).toList ++
  (",\"generation\":".toList ++ ((toString bundle.generation).toList ++
  (",\"lifecycle\":".toList ++ ((quoted bundle.lifecycle).toList ++
  (",\"publicationEligible\":".toList ++ ((booleanText bundle.publicationEligible).toList ++
  (",\"sessionEligible\":".toList ++ ((booleanText bundle.sessionEligible).toList ++
  (",\"sources\":\x7b".toList ++ rest))))))))))))))

def bodyTail (bundle : Bundle) : List Char :=
  "\x7d,\"wireId\":".toList ++ ((quoted bundle.wireId).toList ++ "\x7d".toList)

theorem bodyHead_inj {rest rest' : List Char} (h : bodyHead bundle rest = bodyHead bundle rest') :
    rest = rest' := by
  unfold bodyHead at h
  iterate 15 replace h := List.append_cancel_left h
  exact h

theorem appends_quoted (value : String) :
    Appends True (appendJsonString maxBundleBytes value) (quoted value).toList :=
  appends_push (quoted value)

theorem appends_literal (value : String) :
    Appends True (fun output => pushBounded maxBundleBytes output value) value.toList :=
  appends_push value

theorem canonicalBundleBody_text {text : String}
    (h : canonicalBundleBody formatFinite bundle = .ok text) :
    text.toList = bodyHead bundle
      (separated ',' true (bundle.sources.map (entryText formatFinite)) ++ bodyTail bundle) := by
  have hsources := @appendEntries_appends formatFinite maxBundleBytes bundle.sources
    (fun _ _ => appendCanonicalJson_appends _) true
  rw [← entryAppenders_eq] at hsources
  have hbody := (appends_literal "\x7b\"artifactVersion\":").bind
    ((appends_quoted bundle.artifactVersion).bind
    ((appends_literal ",\"definitionStatus\":").bind ((appends_quoted bundle.definitionStatus).bind
    ((appends_literal ",\"digestAlgorithm\":").bind ((appends_quoted bundle.digestAlgorithm).bind
    ((appends_literal ",\"generation\":").bind ((appends_literal (toString bundle.generation)).bind
    ((appends_literal ",\"lifecycle\":").bind ((appends_quoted bundle.lifecycle).bind
    ((appends_literal ",\"publicationEligible\":").bind
    ((appends_literal (booleanText bundle.publicationEligible)).bind
    ((appends_literal ",\"sessionEligible\":").bind
    ((appends_literal (booleanText bundle.sessionEligible)).bind
    ((appends_literal ",\"sources\":\x7b").bind (hsources.bind
    ((appends_literal "\x7d,\"wireId\":").bind ((appends_quoted bundle.wireId).bind
    (appends_literal "\x7d"))))))))))))))))))
  rw [canonicalBundleBody] at h
  obtain ⟨_, htext⟩ := hbody "" text h
  rw [String.toList_empty, List.nil_append] at htext
  exact htext

/-- A literal of the streamed body is a separator with a quoted name. -/
theorem literal_eq :
    "\x7b\"artifactVersion\":".toList = '\x7b' :: ((quoted "artifactVersion").toList ++ [':']) ∧
    ",\"definitionStatus\":".toList = ',' :: ((quoted "definitionStatus").toList ++ [':']) ∧
    ",\"digestAlgorithm\":".toList = ',' :: ((quoted "digestAlgorithm").toList ++ [':']) ∧
    ",\"generation\":".toList = ',' :: ((quoted "generation").toList ++ [':']) ∧
    ",\"lifecycle\":".toList = ',' :: ((quoted "lifecycle").toList ++ [':']) ∧
    ",\"publicationEligible\":".toList = ',' :: ((quoted "publicationEligible").toList ++ [':']) ∧
    ",\"sessionEligible\":".toList = ',' :: ((quoted "sessionEligible").toList ++ [':']) ∧
    ",\"sources\":\x7b".toList = ',' :: ((quoted "sources").toList ++ [':', '\x7b']) ∧
    "\x7d,\"wireId\":".toList = '\x7d' :: ',' :: ((quoted "wireId").toList ++ [':']) := by
  refine ⟨?_, ?_, ?_, ?_, ?_, ?_, ?_, ?_, ?_⟩ <;> rfl

theorem bodyNames_sorted :
    (["artifactVersion", "definitionStatus", "digestAlgorithm", "generation", "lifecycle",
      "publicationEligible", "sessionEligible", "sources", "wireId"].Pairwise
        fun a b => encodeUtf16 a ≤ encodeUtf16 b) := by decide

theorem sortEntries_members : sortEntries bundle.members = bundle.members :=
  sortEntries_eq_self bodyNames_sorted

theorem canonicalText_generation (hsafe : bundle.generation ≤ maxInteger) :
    canonicalText formatFinite (.number (.integer bundle.generation)) =
      (toString bundle.generation).toList := by
  have hnumber : canonicalNumber formatFinite (.integer bundle.generation) =
      some (toString bundle.generation) := if_pos hsafe
  rw [canonicalText, hnumber, Option.getD_some]

theorem canonicalText_bool (value : Bool) :
    canonicalText formatFinite (.bool value) = (booleanText value).toList := by
  cases value <;> rfl

theorem canonicalText_string (value : String) :
    canonicalText formatFinite (.string value) = (quoted value).toList := by
  rw [canonicalText]

theorem canonicalText_body (hsafe : bundle.generation ≤ maxInteger) :
    canonicalText formatFinite bundle.body = bodyHead bundle
      (separated ',' true ((sortEntries bundle.sources).map (entryText formatFinite)) ++
        bodyTail bundle) := by
  obtain ⟨h1, h2, h3, h4, h5, h6, h7, h8, h9⟩ := literal_eq
  unfold bodyHead bodyTail
  rw [h1, h2, h3, h4, h5, h6, h7, h8, h9, Bundle.body, canonicalText_object, sortEntries_members]
  clear h1 h2 h3 h4 h5 h6 h7 h8 h9
  unfold Bundle.members
  simp only [List.map_cons, List.map_nil, separated_true, separated_false, entryText, memberText,
    canonicalText_generation hsafe, canonicalText_bool, canonicalText_string, canonicalText_object,
    List.cons_append, List.append_assoc, List.nil_append]
  rfl

theorem generation_safe {text : String} (h : canonicalJson formatFinite bundle.body = .ok text) :
    bundle.generation ≤ maxInteger := by
  have hnumbers := Value.numbers_object.mp (canonicalJson_text h).1
    ("generation", .number (.integer bundle.generation)) (by simp [Bundle.members])
  rw [Value.Numbers, Printable, canonicalNumber] at hnumbers
  by_contra hunsafe
  rw [if_neg (by simpa using hunsafe)] at hnumbers
  cases hnumbers

/-- The streamed body is the canonical text of the bundle where no two paths first differ at
characters of which one code unit is above the surrogates of the other. -/
theorem bundle_body_canonical_iff {text text' : String}
    (hbody : canonicalBundleBody formatFinite bundle = .ok text)
    (hjson : canonicalJson formatFinite bundle.body = .ok text') :
    text = text' ↔ ∀ path ∈ bundle.sources.map Prod.fst, ∀ other ∈ bundle.sources.map Prod.fst,
      ¬Straddling path.toList other.toList := by
  rw [← sortEntries_eq_self_iff bundle.ascending, ← String.toList_inj,
    canonicalBundleBody_text hbody, (canonicalJson_text hjson).2,
    canonicalText_body (generation_safe hjson)]
  constructor
  · intro htext
    have hperm := sortEntries_perm bundle.sources
    refine (members_eq_of_text (fun entry hentry other hother hname => ?_) hperm.symm.length_eq
      (bodyHead_inj htext)).symm
    have hother := Map.get_of_mem bundle.ascending (hperm.mem_iff.mp hother)
    rw [← hname, Map.get_of_mem bundle.ascending hentry] at hother
    exact Prod.ext hname (Option.some.inj hother)
  · intro hsorted
    rw [hsorted]

/-- Three paths of one, two and four octets a character, in the order of strings. -/
def threeSources : Bundle where
  artifactVersion := "licoarc.bundle.v1"
  wireId := "licoarc.protocol-line.v1"
  generation := 1
  lifecycle := "Candidate"
  definitionStatus := "COMPLETE"
  sessionEligible := true
  publicationEligible := false
  digestAlgorithm := "sha256"
  sources := [("a.json", .null), ("é.json", .null), ("𐀀.json", .null)]
  digest := ""
  ascending := by decide

set_option maxRecDepth 20000 in
theorem bundle_body_of_three : ∃ text text',
    canonicalBundleBody (fun _ => "") threeSources = .ok text ∧
    canonicalJson (fun _ => "") threeSources.body = .ok text' ∧ text = text' := by
  have hbody : ∃ text, canonicalBundleBody (fun _ => "") threeSources = .ok text := ⟨_, rfl⟩
  have hjson : ∃ text, canonicalJson (fun _ => "") threeSources.body = .ok text := ⟨_, rfl⟩
  obtain ⟨text, hbody⟩ := hbody
  obtain ⟨text', hjson⟩ := hjson
  have hbelow : ∀ path ∈ threeSources.sources.map Prod.fst, ∀ c ∈ path.toList,
      ¬(0xe000 ≤ c.toNat ∧ c.toNat < 0x10000) := by simp [threeSources]
  refine ⟨text, text', hbody, hjson, (bundle_body_canonical_iff hbody hjson).mpr ?_⟩
  intro path hpath other _ hstraddling
  obtain ⟨c, hc, hrange⟩ := hstraddling.exists_mem
  exact hbelow path hpath c hc hrange

/-- Two paths in the order of strings, whose UTF-16 order is the other one. -/
def twoSources : Bundle :=
  { threeSources with
    sources := [("\ue000.json", .null), ("𐀀.json", .null)]
    ascending := by decide }

set_option maxRecDepth 20000 in
theorem bundle_body_of_two_disagrees :
    (∀ path ∈ twoSources.sources.map Prod.fst, validatePath path = .ok ()) ∧
    twoSources.generation ≤ maxInteger ∧
    ∃ text text', canonicalBundleBody (fun _ => "") twoSources = .ok text ∧
      canonicalJson (fun _ => "") twoSources.body = .ok text' ∧ text ≠ text' := by
  refine ⟨by decide, by decide, _, _, rfl, rfl, by decide⟩

end Texts

end Json

end LicoArc
