import LicoArc.EntryMaps
import LicoArc.Interaction.Sequence
import LicoArc.Messaging

/-!
# The wire form of a message

A message that was encoded is read back. The reader also accepts an optional
container that is present and empty, which the writer leaves out; the encoding
is exact but for these.
-/

namespace LicoArc

namespace Messaging

open Encoding

variable {key : Nat} {entries rest : Entries}

/-! ## Reading one field -/

theorem takeBytes_eq_ok {value : Bytes} :
    takeBytes key entries = .ok (value, rest) ↔
      lookupEntry key entries = some (.bytes value) ∧ rest = removeEntry key entries := by
  rw [takeBytes]
  cases lookupEntry key entries with
  | none => simp
  | some found => cases found <;> simp [eq_comm]

theorem takeFixed_eq_ok {n : Nat} {value : FixedBytes n} :
    takeFixed n key entries = .ok (value, rest) ↔
      lookupEntry key entries = some (.bytes value.toList) ∧ rest = removeEntry key entries := by
  simp only [takeFixed, Except.bind_eq_ok, Prod.exists, takeBytes_eq_ok, okOr_eq_ok,
    FixedBytes.ofBytes?_eq_some, Except.pure_eq, Except.ok.injEq, Prod.mk.injEq]
  constructor
  · intro h
    obtain ⟨_, _, ⟨hlookup, rfl⟩, _, rfl, rfl, rfl⟩ := h
    exact ⟨hlookup, rfl⟩
  · intro h
    exact ⟨_, _, ⟨h.1, rfl⟩, value, rfl, rfl, h.2.symm⟩

theorem takeUnsigned_eq_ok {value : Nat} :
    takeUnsigned key entries = .ok (value, rest) ↔
      lookupEntry key entries = some (.unsigned value) ∧ rest = removeEntry key entries := by
  rw [takeUnsigned]
  cases lookupEntry key entries with
  | none => simp
  | some found => cases found <;> simp [eq_comm]

theorem takeOptionalUnsigned_eq_ok {value : Option Nat} :
    takeOptionalUnsigned key entries = .ok (value, rest) ↔
      lookupEntry key entries = value.map .unsigned ∧ rest = removeEntry key entries := by
  rw [takeOptionalUnsigned]
  cases hlookup : lookupEntry key entries with
  | none => cases value <;> simp [removeEntry_of_none hlookup, eq_comm]
  | some found => cases found <;> cases value <;> simp [eq_comm]

theorem takeOptionalBool_eq_ok {value : Option Bool} :
    takeOptionalBool key entries = .ok (value, rest) ↔
      lookupEntry key entries = value.map .bool ∧ rest = removeEntry key entries := by
  rw [takeOptionalBool]
  cases hlookup : lookupEntry key entries with
  | none => cases value <;> simp [removeEntry_of_none hlookup, eq_comm]
  | some found => cases found <;> cases value <;> simp [eq_comm]

theorem takeOptionalFixed_eq_ok {n : Nat} {value : Option (FixedBytes n)} :
    takeOptionalFixed n key entries = .ok (value, rest) ↔
      lookupEntry key entries = value.map (fun value => .bytes value.toList) ∧
        rest = removeEntry key entries := by
  rw [takeOptionalFixed]
  cases hlookup : lookupEntry key entries with
  | none => cases value <;> simp [removeEntry_of_none hlookup, eq_comm]
  | some found =>
    cases found with
    | bytes bytes =>
      simp only [Except.bind_eq_ok, okOr_eq_ok, FixedBytes.ofBytes?_eq_some, Except.pure_eq,
        Except.ok.injEq, Prod.mk.injEq]
      constructor
      · intro h
        obtain ⟨_, rfl, rfl, rfl⟩ := h
        exact ⟨rfl, rfl⟩
      · intro h
        cases value with
        | none => cases h.1
        | some value =>
          obtain ⟨hvalue, rfl⟩ := h
          cases hvalue
          exact ⟨value, rfl, rfl, rfl⟩
    | null | unsigned | text | bool | array | map => cases value <;> simp

theorem tryU32_eq_ok {value : Nat} {word : UInt32} :
    tryU32 value = .ok word ↔ value = word.toNat := by
  simp only [tryU32, Except.bind_eq_ok, reject_eq_ok, Except.pure_eq, Except.ok.injEq]
  constructor
  · intro h
    obtain ⟨_, hlt, rfl⟩ := h
    rw [UInt32.toNat_ofNat', Nat.mod_eq_of_lt (not_le.mp hlt)]
  · intro h
    subst h
    exact ⟨(), not_le.mpr word.toNat_lt, UInt32.ofNat_toNat⟩

end Messaging

namespace Message

open Encoding Messaging

variable {entries : Entries} {value : CborValue}

/-! ## Containers -/

theorem toList_ofList {α : Type} {entries : List (Nat × α)}
    (h : entries.Pairwise fun first second => first.1 < second.1) :
    (Std.ExtTreeMap.ofList entries).toList = entries := by
  have hdistinct : entries.Pairwise fun first second => ¬compare first.1 second.1 = .eq :=
    h.imp fun hlt => by simpa using hlt.ne
  have hnodup : entries.Nodup := h.imp fun hlt heq => absurd (heq ▸ hlt) (lt_irrefl _)
  have hsubset : entries ⊆ (Std.ExtTreeMap.ofList entries).toList := fun entry hentry =>
    Std.ExtTreeMap.mem_toList_iff_getElem?_eq_some.mpr
      (Std.ExtTreeMap.getElem?_ofList_of_mem (by simp) hdistinct hentry)
  have hlength : (Std.ExtTreeMap.ofList entries).toList.length ≤ entries.length := by
    rw [Std.ExtTreeMap.length_toList, Std.ExtTreeMap.size_ofList hdistinct]
  have hperm := (hnodup.subperm hsubset).perm_of_length_le hlength
  have hordered := (Std.ExtTreeMap.ordered_keys_toList (t := Std.ExtTreeMap.ofList entries)).imp
    fun hlt => Nat.compare_eq_lt.mp hlt
  refine (hperm.eq_of_pairwise (fun _ _ _ _ hlt hgt => ?_) h hordered).symm
  exact absurd hgt (not_lt.mpr (le_of_lt hlt))

theorem ofList_toList {α : Type} (entries : Std.ExtTreeMap Nat α) :
    Std.ExtTreeMap.ofList entries.toList = entries :=
  Std.ExtTreeMap.toList_inj.mp
    (toList_ofList (Std.ExtTreeMap.ordered_keys_toList.imp fun hlt => Nat.compare_eq_lt.mp hlt))

def extensionsValue (extensions : Std.ExtTreeMap Nat Bytes) : CborValue :=
  .map (extensions.toList.map fun entry => (entry.1, .bytes entry.2))

theorem decodeExtension_eq_ok {entry : Nat × CborValue} {extension : Nat × Bytes} :
    decodeExtension entry = .ok extension ↔
      entry = (extension.1, .bytes extension.2) ∧ extension.1 < 2 ^ 32 := by
  obtain ⟨key, value⟩ := entry
  simp only [decodeExtension, Except.bind_eq_ok, tryU32_eq_ok]
  constructor
  · intro h
    obtain ⟨word, rfl, h⟩ := h
    cases value with
    | bytes value =>
      cases h
      exact ⟨rfl, word.toNat_lt⟩
    | null | unsigned | text | bool | array | map => cases h
  · intro h
    obtain ⟨hentry, hlt⟩ := h
    cases hentry
    have hword : (UInt32.ofNat extension.1).toNat = extension.1 :=
      UInt32.toNat_ofNat_of_lt' hlt
    exact ⟨UInt32.ofNat extension.1, hword.symm, by rw [hword]; rfl⟩

theorem decodeExtensions_eq_ok {extensions : Std.ExtTreeMap Nat Bytes} (hwell : WellFormed value) :
    decodeExtensions (some value) = .ok extensions ↔
      value = extensionsValue extensions ∧ ∀ extension ∈ extensions.toList,
      extension.1 < 2 ^ 32 := by
  cases value with
  | map values =>
    have hascending := (wellFormed_map.mp hwell).1
    simp only [decodeExtensions, Except.bind_eq_ok,
      Except.mapM_eq_ok_iff_map fun _ _ _ => decodeExtension_eq_ok, Except.pure_eq,
      Except.ok.injEq, extensionsValue, CborValue.map.injEq]
    constructor
    · intro h
      obtain ⟨list, ⟨rfl, hlt⟩, rfl⟩ := h
      rw [Ascending, List.pairwise_map] at hascending
      rw [toList_ofList hascending]
      exact ⟨rfl, hlt⟩
    · intro h
      exact ⟨extensions.toList, h, ofList_toList extensions⟩
  | null | unsigned | bytes | text | bool | array =>
    simp [decodeExtensions, extensionsValue]

theorem decodeCriticalLabel_eq_ok {label : Nat} :
    decodeCriticalLabel value = .ok label ↔ value = .unsigned label ∧ label < 2 ^ 32 := by
  cases value with
  | unsigned value =>
    simp only [decodeCriticalLabel, Except.bind_eq_ok, tryU32_eq_ok, Except.pure_eq,
      Except.ok.injEq, CborValue.unsigned.injEq]
    constructor
    · intro h
      obtain ⟨word, rfl, rfl⟩ := h
      exact ⟨rfl, word.toNat_lt⟩
    · intro h
      obtain ⟨rfl, hlt⟩ := h
      have hword : (UInt32.ofNat value).toNat = value := UInt32.toNat_ofNat_of_lt' hlt
      exact ⟨UInt32.ofNat value, hword.symm, hword⟩
  | null | bytes | text | bool | array | map => simp [decodeCriticalLabel]

theorem decodeCritical_eq_ok {critical : List Nat} :
    decodeCritical (some value) = .ok critical ↔
      value = .array (critical.map .unsigned) ∧ ∀ label ∈ critical, label < 2 ^ 32 := by
  cases value with
  | array values =>
    rw [decodeCritical, Except.mapM_eq_ok_iff_map fun _ _ _ => decodeCriticalLabel_eq_ok,
      CborValue.array.injEq]
  | null | unsigned | bytes | text | bool | map => simp [decodeCritical]

theorem decodeAttachment_eq_ok {item : Attachment} (hwell : WellFormed value) :
    decodeAttachment value = .ok item ↔ value = attachmentValue item := by
  cases value with
  | map entries =>
    simp only [decodeAttachment, Except.bind_eq_ok, Prod.exists, takeFixed_eq_ok,
      takeUnsigned_eq_ok, tryU32_eq_ok, reject_eq_ok, not_not, Except.pure_eq, Except.ok.injEq]
    constructor
    · intro h
      obtain ⟨id, _, ⟨hid, rfl⟩, _, _, ⟨hmediaType, rfl⟩, mediaType, rfl, byteLength, _,
        ⟨hbyteLength, rfl⟩, contentDigest, _, ⟨hcontentDigest, rfl⟩, _, hrest, rfl⟩ := h
      refine congrArg CborValue.map ((wellFormed_map.mp hwell).1.ext (by simp [Ascending])
        fun key => ?_)
      rcases key with _ | _ | _ | _ | key
      · exact hid
      · simpa [lookupEntry_removeEntry_ne, lookupEntry] using hmediaType
      · simpa [lookupEntry_removeEntry_ne, lookupEntry] using hbyteLength
      · simpa [lookupEntry_removeEntry_ne, lookupEntry] using hcontentDigest
      · have hother := congrArg (lookupEntry (key + 4)) hrest
        simpa [lookupEntry_removeEntry_ne, lookupEntry] using hother
    · intro h
      cases h
      exact ⟨item.id, _, ⟨rfl, rfl⟩, _, _, ⟨rfl, rfl⟩, item.mediaType, rfl, item.byteLength, _,
        ⟨rfl, rfl⟩, item.contentDigest, _, ⟨rfl, rfl⟩, (), rfl, rfl⟩
  | null | unsigned | bytes | text | bool | array => simp [decodeAttachment, attachmentValue]

def attachmentsValue (items : List Attachment) : CborValue := .array (items.map attachmentValue)

theorem decodeAttachments_eq_ok {items : List Attachment} (hwell : WellFormed value) :
    decodeAttachments (some value) = .ok items ↔ value = attachmentsValue items := by
  cases value with
  | array values =>
    have hvalues : ∀ value ∈ values, ∀ item, decodeAttachment value = .ok item ↔
        value = attachmentValue item ∧ True := fun value hvalue item => by
      rw [and_true, decodeAttachment_eq_ok (wellFormedItems_iff.mp hwell value hvalue)]
    rw [decodeAttachments, Except.mapM_eq_ok_iff_map hvalues, attachmentsValue,
      CborValue.array.injEq]
    simp
  | null | unsigned | bytes | text | bool | map => simp [decodeAttachments, attachmentsValue]

/-! ## The fields -/

/-- The entries of a map that reads as a message. -/
structure Reads (entries : Entries) (message : Message) : Prop where
  id : lookupEntry 0 entries = some (.bytes message.id.toList)
  kind : lookupEntry 1 entries = some (.unsigned (kindValue message.kind))
  relatesTo : lookupEntry 2 entries = message.relatesTo.map fun value => .bytes value.toList
  contentType : lookupEntry 3 entries = some (.unsigned message.contentType)
  contentTypeBound : message.contentType < 2 ^ 32
  payload : lookupEntry 4 entries = some (.bytes message.payload)
  extensions : decodeExtensions (lookupEntry 5 entries) = .ok message.extensions
  critical : decodeCritical (lookupEntry 6 entries) = .ok message.critical
  chunkIndex : lookupEntry 7 entries = message.chunkIndex.map .unsigned
  chunkFinal : lookupEntry 8 entries = message.chunkFinal.map .bool
  attachmentId : lookupEntry 9 entries = message.attachmentId.map fun value => .bytes value.toList
  attachments : decodeAttachments (lookupEntry 10 entries) = .ok message.attachments
  others : ∀ entry ∈ entries, entry.1 ≤ 10

theorem decodeKind_eq_ok {number : Nat} {kind : MessageKind} :
    decodeKind number = .ok kind ↔ number = kindValue kind := by
  match number with
  | 0 | 1 | 2 | 3 | 4 | 5 => cases kind <;> simp [decodeKind, kindValue]
  | number + 6 => cases kind <;> simp [decodeKind, kindValue]

/-- The labels that the reader removes are all that it admits. -/
theorem removeEntry_labels (h : ∀ entry ∈ entries, entry.1 ≤ 10) :
    removeEntry 10 (removeEntry 9 (removeEntry 8 (removeEntry 7 (removeEntry 6 (removeEntry 5
      (removeEntry 4 (removeEntry 3 (removeEntry 2 (removeEntry 1
        (removeEntry 0 entries)))))))))) = [] := by
  simp only [removeEntry, List.filter_filter, List.filter_eq_nil_iff]
  intro entry hentry hlabel
  have hle := h entry hentry
  simp only [ne_eq, decide_not, Bool.and_eq_true, Bool.not_eq_eq_eq_not, Bool.not_true,
    decide_eq_false_iff_not] at hlabel
  omega

theorem decodeFields_eq_ok {message : Message} :
    decodeFields entries = .ok message ↔ Reads entries message := by
  simp only [decodeFields, Except.bind_eq_ok, Prod.exists, takeFixed_eq_ok, takeUnsigned_eq_ok,
    takeBytes_eq_ok, takeOptionalFixed_eq_ok, takeOptionalUnsigned_eq_ok, takeOptionalBool_eq_ok,
    decodeKind_eq_ok, tryU32_eq_ok, reject_eq_ok, not_not, Except.pure_eq, Except.ok.injEq]
  constructor
  · intro h
    obtain ⟨_, hothers, id, _, ⟨hid, rfl⟩, _, _, ⟨hkind, rfl⟩, kind, rfl, relatesTo, _,
      ⟨hrelatesTo, rfl⟩, _, _, ⟨hcontentType, rfl⟩, contentType, rfl, payload, _, ⟨hpayload, rfl⟩,
      extensions, hextensions, critical, hcritical, chunkIndex, _, ⟨hchunkIndex, rfl⟩, chunkFinal,
      _, ⟨hchunkFinal, rfl⟩, attachmentId, _, ⟨hattachmentId, rfl⟩, attachments, hattachments, _,
      _, rfl⟩ := h
    simp only [lookupEntry_removeEntry_ne, ne_eq, Nat.reduceEqDiff, OfNat.ofNat_ne_zero,
      OfNat.ofNat_ne_one, one_ne_zero, not_false_eq_true] at *
    exact { id := hid, kind := hkind, relatesTo := hrelatesTo, contentType := hcontentType,
            contentTypeBound := contentType.toNat_lt, payload := hpayload,
            extensions := hextensions, critical := hcritical, chunkIndex := hchunkIndex,
            chunkFinal := hchunkFinal, attachmentId := hattachmentId, attachments := hattachments,
            others := by simpa using hothers }
  · intro h
    have hword : (UInt32.ofNat message.contentType).toNat = message.contentType :=
      UInt32.toNat_ofNat_of_lt' h.contentTypeBound
    have hothers : ¬∃ key value, (key, value) ∈ entries ∧ key > 10 := by simpa using h.others
    refine ⟨(), hothers, message.id, _, ⟨h.id, rfl⟩, _, _, ⟨?_, rfl⟩, message.kind, rfl,
      message.relatesTo, _, ⟨?_, rfl⟩, _, _, ⟨?_, rfl⟩, _, hword.symm, message.payload, _,
      ⟨?_, rfl⟩, message.extensions, ?_, message.critical, ?_, message.chunkIndex, _, ⟨?_, rfl⟩,
      message.chunkFinal, _, ⟨?_, rfl⟩, message.attachmentId, _, ⟨?_, rfl⟩, message.attachments,
      ?_, (), removeEntry_labels h.others, by rw [hword]⟩ <;>
    simp only [lookupEntry_removeEntry_ne, ne_eq, Nat.reduceEqDiff, OfNat.ofNat_ne_zero,
      OfNat.ofNat_ne_one, one_ne_zero, not_false_eq_true, h.kind, h.relatesTo, h.contentType,
      h.payload, h.extensions, h.critical, h.chunkIndex, h.chunkFinal, h.attachmentId,
      h.attachments]

/-! ## Printing -/

variable {message : Message}

/-- The entry of a container that is left out when it is empty. -/
def present (absent : Prop) [Decidable absent] (key : Nat) (value : CborValue) : Entries :=
  if absent then [] else [(key, value)]

theorem entry_labels (key : Nat) (value : Option CborValue) :
    ((entry key value).map Prod.fst).Sublist [key] := by
  cases value <;> simp [entry]

theorem present_labels (absent : Prop) [Decidable absent] (key : Nat) (value : CborValue) :
    ((present absent key value).map Prod.fst).Sublist [key] := by
  rw [present]
  split <;> simp

theorem lookupEntry_entry (key label : Nat) (value : Option CborValue) :
    lookupEntry key (entry label value) = if key = label then value else none := by
  cases value <;> simp [entry, lookupEntry]

theorem lookupEntry_present (absent : Prop) [Decidable absent] (key label : Nat)
    (value : CborValue) :
    lookupEntry key (present absent label value) =
      if key = label then if absent then none else some value else none := by
  rw [present]
  split
  · rw [ite_self, lookupEntry]
  · rw [lookupEntry, lookupEntry]

def asCborEntries (self : Message) : Entries :=
  [(0, .bytes self.id.toList), (1, .unsigned (kindValue self.kind))] ++
  entry 2 (self.relatesTo.map fun value => .bytes value.toList) ++
  [(3, .unsigned self.contentType), (4, .bytes self.payload)] ++
  present (self.extensions.isEmpty = true) 5 (extensionsValue self.extensions) ++
  present (self.critical = []) 6 (.array (self.critical.map .unsigned)) ++
  entry 7 (self.chunkIndex.map .unsigned) ++ entry 8 (self.chunkFinal.map .bool) ++
  entry 9 (self.attachmentId.map fun value => .bytes value.toList) ++
  present (self.attachments = []) 10 (attachmentsValue self.attachments)

theorem asCbor_eq (message : Message) : message.asCbor = .map message.asCborEntries := rfl

theorem asCborEntries_labels (message : Message) :
    (message.asCborEntries.map Prod.fst).Sublist [0, 1, 2, 3, 4, 5, 6, 7, 8, 9, 10] := by
  simp only [asCborEntries, List.map_append]
  exact ((((((((List.Sublist.refl [0, 1]).append (entry_labels 2 _)).append
    (List.Sublist.refl [3, 4])).append (present_labels _ 5 _)).append (present_labels _ 6 _)).append
    (entry_labels 7 _)).append (entry_labels 8 _)).append (entry_labels 9 _)).append
    (present_labels _ 10 _)

theorem asCborEntries_ascending (message : Message) : Ascending message.asCborEntries := by
  refine List.pairwise_map.mp (List.Pairwise.sublist message.asCborEntries_labels ?_)
  decide

theorem extensionsValue_wellFormed (extensions : Std.ExtTreeMap Nat Bytes) :
    WellFormed (extensionsValue extensions) := by
  refine wellFormed_map.mpr ⟨?_, ?_⟩
  · rw [Ascending, List.pairwise_map]
    exact Std.ExtTreeMap.ordered_keys_toList.imp fun hlt => Nat.compare_eq_lt.mp hlt
  · rw [List.forall_mem_map]
    exact fun _ _ => trivial

theorem attachmentValue_wellFormed (item : Attachment) : WellFormed (attachmentValue item) := by
  simp [attachmentValue, wellFormed_map, Ascending, WellFormed]

theorem attachmentsValue_wellFormed (items : List Attachment) :
    WellFormed (attachmentsValue items) := by
  refine wellFormedItems_iff.mpr ?_
  rw [List.forall_mem_map]
  exact fun item _ => attachmentValue_wellFormed item

theorem entry_wellFormed {key : Nat} {value : Option CborValue}
    (h : ∀ found ∈ value, WellFormed found) : ∀ item ∈ entry key value, WellFormed item.2 := by
  cases value with
  | none => exact nofun
  | some value => simpa [Message.entry] using h

theorem present_wellFormed {absent : Prop} [Decidable absent] {key : Nat} (h : WellFormed value) :
    ∀ item ∈ present absent key value, WellFormed item.2 := by
  rw [present]
  split
  · exact nofun
  · simpa using h

theorem asCbor_wellFormed (message : Message) : WellFormed message.asCbor := by
  refine wellFormed_map.mpr ⟨message.asCborEntries_ascending, ?_⟩
  have hcritical : WellFormed (.array (message.critical.map .unsigned)) := by
    refine wellFormedItems_iff.mpr ?_
    rw [List.forall_mem_map]
    exact fun _ _ => trivial
  simp only [List.forall_mem_append, List.forall_mem_cons]
  refine ⟨⟨⟨⟨⟨⟨⟨⟨⟨trivial, trivial, (by rintro _ ⟨⟩)⟩, entry_wellFormed ?_⟩, trivial, trivial,
    (by rintro _ ⟨⟩)⟩,
    present_wellFormed (extensionsValue_wellFormed _)⟩, present_wellFormed hcritical⟩,
    entry_wellFormed ?_⟩, entry_wellFormed ?_⟩, entry_wellFormed ?_⟩,
    present_wellFormed (attachmentsValue_wellFormed _)⟩ <;>
  · intro found hfound
    obtain ⟨_, _, rfl⟩ := Option.map_eq_some_iff.mp hfound
    trivial

theorem lookup_extensions (message : Message) : lookupEntry 5 message.asCborEntries =
    if message.extensions = ∅ then none else some (extensionsValue message.extensions) := by
  simp [asCborEntries, lookupEntry_append, lookupEntry_entry, lookupEntry_present, lookupEntry]

theorem lookup_critical (message : Message) : lookupEntry 6 message.asCborEntries =
    if message.critical = [] then none
    else some (.array (message.critical.map .unsigned)) := by
  simp [asCborEntries, lookupEntry_append, lookupEntry_entry, lookupEntry_present, lookupEntry]

theorem lookup_attachments (message : Message) : lookupEntry 10 message.asCborEntries =
    if message.attachments = [] then none else some (attachmentsValue message.attachments) := by
  simp [asCborEntries, lookupEntry_append, lookupEntry_entry, lookupEntry_present, lookupEntry]

theorem reads_asCborEntries (hcontentType : message.contentType < 2 ^ 32)
    (hextensions : ∀ extension ∈ message.extensions.toList, extension.1 < 2 ^ 32)
    (hcritical : ∀ label ∈ message.critical, label < 2 ^ 32) :
    Reads message.asCborEntries message := by
  constructor
  case contentTypeBound => exact hcontentType
  case others =>
    intro item hitem
    have hlabel := message.asCborEntries_labels.subset (List.mem_map_of_mem hitem)
    simp only [List.mem_cons, List.not_mem_nil, or_false] at hlabel
    omega
  case extensions =>
    rw [lookup_extensions]
    split
    · rename_i hempty
      rw [hempty, decodeExtensions]
    · exact (decodeExtensions_eq_ok (extensionsValue_wellFormed _)).mpr ⟨rfl, hextensions⟩
  case critical =>
    rw [lookup_critical]
    split
    · rename_i hempty
      rw [hempty, decodeCritical]
    · exact decodeCritical_eq_ok.mpr ⟨rfl, hcritical⟩
  case attachments =>
    rw [lookup_attachments]
    split
    · rename_i hempty
      rw [hempty, decodeAttachments]
    · exact (decodeAttachments_eq_ok (attachmentsValue_wellFormed _)).mpr rfl
  all_goals
    simp [asCborEntries, lookupEntry_append, lookupEntry_entry, lookupEntry_present, lookupEntry]

/-! ## Empty containers -/

def emptyContainer : CborValue → Bool
  | .map [] | .array [] => true
  | _ => false

theorem emptyContainer_array {values : List CborValue} :
    emptyContainer (.array values) = true ↔ values = [] := by
  cases values <;> simp [emptyContainer]

theorem emptyContainer_extensions {extensions : Std.ExtTreeMap Nat Bytes} :
    emptyContainer (extensionsValue extensions) = true ↔ extensions = ∅ := by
  rw [← Std.ExtTreeMap.toList_eq_nil_iff, extensionsValue]
  cases extensions.toList <;> simp [emptyContainer]

/-- An optional container is read from its printed form, and from nothing when it is empty. -/
def Contains {α : Type} (zero x : α) (print : α → CborValue) (found : Option CborValue) : Prop :=
  found = none ∧ x = zero ∨ found = some (print x)

theorem Contains.ext {α : Type} {zero x : α} {print : α → CborValue}
    {first second : Option CborValue} (hprint : emptyContainer (print x) = true ↔ x = zero)
    (hfirst : Contains zero x print first) (hsecond : Contains zero x print second) :
    first = second ↔ first.any emptyContainer = second.any emptyContainer := by
  constructor
  · exact congrArg _
  · intro h
    rcases hfirst with ⟨rfl, hzero⟩ | rfl <;> rcases hsecond with ⟨rfl, hzero'⟩ | rfl
    · rfl
    · exact absurd (hprint.mpr hzero) (by simpa using h)
    · exact absurd (hprint.mpr hzero') (by simpa using h)
    · rfl

theorem Reads.contains_extensions (hwell : WellFormed (.map entries)) (h : Reads entries message) :
    Contains ∅ message.extensions extensionsValue (lookupEntry 5 entries) := by
  have hextensions := h.extensions
  cases hlookup : lookupEntry 5 entries with
  | none =>
    rw [hlookup] at hextensions
    exact .inl ⟨rfl, (Except.ok.inj hextensions).symm⟩
  | some value =>
    rw [hlookup] at hextensions
    have hvalue := (wellFormed_map.mp hwell).2 _ (mem_of_lookupEntry hlookup)
    exact .inr (congrArg some ((decodeExtensions_eq_ok hvalue).mp hextensions).1)

theorem Reads.contains_critical (h : Reads entries message) :
    Contains [] message.critical (fun critical => .array (critical.map .unsigned))
      (lookupEntry 6 entries) := by
  have hcritical := h.critical
  cases hlookup : lookupEntry 6 entries with
  | none =>
    rw [hlookup] at hcritical
    exact .inl ⟨rfl, (Except.ok.inj hcritical).symm⟩
  | some value =>
    rw [hlookup] at hcritical
    exact .inr (congrArg some (decodeCritical_eq_ok.mp hcritical).1)

theorem Reads.contains_attachments (hwell : WellFormed (.map entries)) (h : Reads entries message) :
    Contains [] message.attachments attachmentsValue (lookupEntry 10 entries) := by
  have hattachments := h.attachments
  cases hlookup : lookupEntry 10 entries with
  | none =>
    rw [hlookup] at hattachments
    exact .inl ⟨rfl, (Except.ok.inj hattachments).symm⟩
  | some value =>
    rw [hlookup] at hattachments
    have hvalue := (wellFormed_map.mp hwell).2 _ (mem_of_lookupEntry hlookup)
    exact .inr (congrArg some ((decodeAttachments_eq_ok hvalue).mp hattachments))

/-- Maps that read as one message differ in the empty containers that they hold. -/
theorem Reads.ext {others : Entries} (hwell : WellFormed (.map entries))
    (hothers : WellFormed (.map others)) (h : Reads entries message) (h' : Reads others message) :
    entries = others ↔ ∀ label ∈ [5, 6, 10], (lookupEntry label entries).any emptyContainer =
      (lookupEntry label others).any emptyContainer := by
  constructor
  · intro heq _ _
    rw [heq]
  · intro hsame
    refine (wellFormed_map.mp hwell).1.ext (wellFormed_map.mp hothers).1 fun key => ?_
    have habove : ∀ {held : Entries}, Reads held message → 10 < key →
      lookupEntry key held = none := by
      intro held hheld hkey
      cases hlookup : lookupEntry key held with
      | none => rfl
      | some value => exact absurd (hheld.others _ (mem_of_lookupEntry hlookup)) (not_le.mpr hkey)
    match key with
    | 0 => rw [h.id, h'.id]
    | 1 => rw [h.kind, h'.kind]
    | 2 => rw [h.relatesTo, h'.relatesTo]
    | 3 => rw [h.contentType, h'.contentType]
    | 4 => rw [h.payload, h'.payload]
    | 5 =>
      exact (Contains.ext emptyContainer_extensions (h.contains_extensions hwell)
        (h'.contains_extensions hothers)).mpr (hsame 5 (by simp))
    | 6 =>
      exact (Contains.ext (by simp [emptyContainer_array]) h.contains_critical
        h'.contains_critical).mpr (hsame 6 (by simp))
    | 7 => rw [h.chunkIndex, h'.chunkIndex]
    | 8 => rw [h.chunkFinal, h'.chunkFinal]
    | 9 => rw [h.attachmentId, h'.attachmentId]
    | 10 =>
      exact (Contains.ext (by simp [attachmentsValue, emptyContainer_array])
        (h.contains_attachments hwell) (h'.contains_attachments hothers)).mpr (hsame 10 (by simp))
    | key + 11 => rw [habove h (by omega), habove h' (by omega)]

theorem asCborEntries_any_empty (message : Message) :
    ∀ label ∈ [5, 6, 10], (lookupEntry label message.asCborEntries).any emptyContainer = false := by
  intro label hlabel
  rw [Option.any_eq_false]
  intro value hvalue
  rw [Bool.eq_false_iff]
  simp only [List.mem_cons, List.not_mem_nil, or_false] at hlabel
  rcases hlabel with rfl | rfl | rfl
  · rw [lookup_extensions, Option.ite_none_left_eq_some] at hvalue
    obtain ⟨hpresent, hvalue⟩ := hvalue
    rw [← Option.some.inj hvalue, ne_eq, emptyContainer_extensions]
    exact hpresent
  · rw [lookup_critical, Option.ite_none_left_eq_some] at hvalue
    obtain ⟨hpresent, hvalue⟩ := hvalue
    rw [← Option.some.inj hvalue, ne_eq, emptyContainer_array, List.map_eq_nil_iff]
    exact hpresent
  · rw [lookup_attachments, Option.ite_none_left_eq_some] at hvalue
    obtain ⟨hpresent, hvalue⟩ := hvalue
    rw [← Option.some.inj hvalue, attachmentsValue, ne_eq, emptyContainer_array,
      List.map_eq_nil_iff]
    exact hpresent

/-! ## Both directions -/

variable {bytes : Bytes}

theorem limits_of_validate (h : message.validate = .ok ()) : message.contentType < 2 ^ 32 ∧
    (∀ extension ∈ message.extensions.toList, extension.1 < 2 ^ 32) ∧ message.critical = [] := by
  simp only [validate, Except.bind_eq_ok, reject_eq_ok, not_or, not_not, not_and] at h
  obtain ⟨_, _, _, ⟨_, hextensions, _⟩, _, hcritical, _, _, _, hcontentType, _⟩ := h
  refine ⟨?_, fun extension hextension => ?_, hcritical⟩
  · by_cases hreserved : message.contentType ≥ reservedStart
    · rw [hcontentType hreserved]
      decide
    · exact lt_trans (not_le.mp hreserved) (by decide)
  · simp only [List.any_eq_true, decide_eq_true_eq, not_exists, not_and, not_or,
      not_lt] at hextensions
    have hbound := (hextensions extension hextension).2.1
    omega

theorem decode_eq_ok : Message.decode bytes = .ok message ↔
    ∃ entries, Encoding.decode bytes = .ok (.map entries) ∧ Reads entries message ∧
      message.validate = .ok () := by
  rw [Message.decode, Except.bind_eq_ok]
  constructor
  · intro h
    obtain ⟨value, hvalue, h⟩ := h
    cases value with
    | map entries =>
      simp only [Except.bind_eq_ok, decodeFields_eq_ok, Except.pure_eq, Except.ok.injEq] at h
      obtain ⟨_, hreads, _, hvalidate, rfl⟩ := h
      exact ⟨entries, hvalue, hreads, hvalidate⟩
    | null | unsigned | bytes | text | bool | array => cases h
  · intro h
    obtain ⟨entries, hentries, hreads, hvalidate⟩ := h
    refine ⟨.map entries, hentries, ?_⟩
    simp only [Except.bind_eq_ok, decodeFields_eq_ok, Except.pure_eq, Except.ok.injEq]
    exact ⟨message, hreads, (), hvalidate, rfl⟩

theorem encode_eq_ok : message.encode = .ok bytes ↔
    message.validate = .ok () ∧ Encoding.encode message.asCbor = .ok bytes := by
  rw [Message.encode, Except.bind_eq_ok]
  constructor
  · intro h
    obtain ⟨⟨⟩, h⟩ := h
    exact h
  · intro h
    exact ⟨(), h⟩

/-- A message that was encoded is read back. -/
theorem message_read_back (h : message.encode = .ok bytes) :
    Message.decode bytes = .ok message := by
  obtain ⟨hvalidate, hencode⟩ := encode_eq_ok.mp h
  obtain ⟨hcontentType, hextensions, hcritical⟩ := limits_of_validate hvalidate
  refine decode_eq_ok.mpr ⟨_, decode_encode message.asCbor_wellFormed hencode, ?_, hvalidate⟩
  exact reads_asCborEntries hcontentType hextensions (by rw [hcritical]; exact nofun)

namespace Progress

def progress : CborValue :=
  .map [(0, .bytes (List.replicate 16 7)), (1, .array [.map [(0, .unsigned 2), (1, .unsigned 5)]]),
    (2, .unsigned 1), (3, .unsigned 0), (5, .unsigned 0)]

def report : Message :=
  { id := .replicate 16 1, kind := .event, relatesTo := some (.replicate 16 2),
    contentType := attachmentReceiveState, payload := encodeInto progress, extensions := ∅,
    critical := [], chunkIndex := none, chunkFinal := none, attachmentId := none,
    attachments := [] }

theorem message_read_back_report :
    Message.decode (encodeInto report.asCbor) = .ok report :=
  message_read_back (by decide +kernel)

end Progress

def emptyAt (label : Nat) (bytes : Bytes) : Bool :=
  match Encoding.decode bytes with
  | .ok (.map entries) => (lookupEntry label entries).any emptyContainer
  | _ => false

theorem emptyAt_eq (h : Encoding.decode bytes = .ok (.map entries)) (label : Nat) :
    emptyAt label bytes = (lookupEntry label entries).any emptyContainer := by
  rw [emptyAt, h]

/-- Strings that read as one message differ in the empty containers that they hold. The message is
written back as the string that holds none. -/
theorem message_exact_iff {first second : Bytes} (hfirst : Message.decode first = .ok message)
    (hsecond : Message.decode second = .ok message) :
    (message.encode = .ok first ↔ ∀ label ∈ [5, 6, 10], emptyAt label first = false) ∧
    (first = second ↔ ∀ label ∈ [5, 6, 10], emptyAt label first = emptyAt label second) := by
  obtain ⟨entries, hdecode, hreads, hvalidate⟩ := decode_eq_ok.mp hfirst
  obtain ⟨others, hdecode', hreads', _⟩ := decode_eq_ok.mp hsecond
  obtain ⟨hcontentType, hextensions, hcritical⟩ := limits_of_validate hvalidate
  have hwell := decode_wellFormed hdecode
  have hprinted := reads_asCborEntries hcontentType hextensions (by rw [hcritical]; exact nofun)
  have hencode := encode_decode hdecode
  constructor
  · have hasCbor : WellFormed (.map message.asCborEntries) := message.asCbor_wellFormed
    have hsame := hreads.ext hwell hasCbor hprinted
    simp only [emptyAt_eq hdecode]
    rw [encode_eq_ok, and_iff_right hvalidate]
    constructor
    · intro h label hlabel
      have heq := encode_injective hwell hasCbor hencode h
      rw [hsame.mp (CborValue.map.inj heq) label hlabel]
      exact message.asCborEntries_any_empty label hlabel
    · intro h
      have heq := hsame.mpr fun label hlabel =>
        (h label hlabel).trans (message.asCborEntries_any_empty label hlabel).symm
      rw [asCbor_eq, ← heq]
      exact hencode
  · have hsame := hreads.ext hwell (decode_wellFormed hdecode') hreads'
    simp only [emptyAt_eq hdecode, emptyAt_eq hdecode']
    rw [← hsame]
    constructor
    · intro h
      rw [h, hdecode'] at hdecode
      exact (CborValue.map.inj (Except.ok.inj hdecode)).symm
    · intro h
      rw [h, encode_decode hdecode'] at hencode
      exact (Except.ok.inj hencode).symm

namespace Held

def request : Message :=
  { id := .replicate 16 1, kind := .request, relatesTo := none, contentType := 42,
    payload := [0, 255], extensions := ∅, critical := [], chunkIndex := none, chunkFinal := none,
    attachmentId := none, attachments := [] }

/-- The request with an empty list of critical labels. -/
def emptyCritical : Bytes := encodeInto (.map (insertEntry 6 (.array []) request.asCborEntries))

theorem message_exact_iff_critical :
    (request.encode = .ok emptyCritical ↔ ∀ label ∈ [5, 6, 10],
    emptyAt label emptyCritical = false) ∧
    (emptyCritical = encodeInto request.asCbor ↔ ∀ label ∈ [5, 6, 10],
      emptyAt label emptyCritical = emptyAt label (encodeInto request.asCbor)) :=
  message_exact_iff (by decide +kernel) (by decide +kernel)

theorem empty_critical_accepted :
    Message.decode emptyCritical = .ok request ∧
    request.encode = .ok (encodeInto request.asCbor) ∧
    Message.decode (encodeInto request.asCbor) = .ok request ∧
    emptyCritical ≠ encodeInto request.asCbor := by
  refine ⟨?_, ?_, ?_, ?_⟩ <;> decide +kernel

end Held

end Message

end LicoArc
