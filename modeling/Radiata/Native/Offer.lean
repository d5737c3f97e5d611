import Radiata.ForStd.List
import Radiata.Native.Feature
import Mathlib.Data.Finset.Sort

/-!
# Feature offers

`src/protocol/offer.rs`: the canonical offer of one endpoint (supported labels with
their definition digests, required labels, mandatory limits), its validation against
a registry, and the offer a node builds from its own registry.

An offer is built by `FeatureOffer.new` or read by `FeatureOffer.fromWire`; the
`wellFormed` field holds what both of them check.
-/

namespace Radiata

open Cbor (Item)
open Except (rejectIf)

def maxSupportedLabels : Nat := 128
def maxRequiredLabels : Nat := 128
def maxNegotiatedLimits : Nat := 128

inductive Role where
  | initiator
  | responder
  deriving DecidableEq

def Role.asStr : Role → Bytes
  | initiator => Bytes.utf8 "initiator"
  | responder => Bytes.utf8 "responder"

/-- `ensure_unique_sorted`: no two neighbours have one key. -/
def ensureUniqueSorted {α : Type} (sorted : List α) (key : α → Bytes) (context : String) :
    Result Unit :=
  rejectIf (¬ sorted.allAdjacent (fun a b => key a ≠ key b)) (.invalidInput context)

/-- `map_ordered`: the keys ascend strictly and every entry is transformed. -/
def mapOrdered {ε τ : Type} (key : ε → Bytes) (context : String) (map : ε → Result τ) :
    Option Bytes → List ε → Result (List τ)
  | _, [] => .ok []
  | previous, entry :: entries => do
    rejectIf (previous.any (fun before => key entry ≤ before)) (.invalidInput context)
    let value ← map entry
    let values ← mapOrdered key context map (some (key entry)) entries
    return value :: values

/-- A traversal of ordered entries succeeds on strictly ascending keys as the plain
    traversal does. -/
theorem mapOrdered_eq_ok {ε τ : Type} {key : ε → Bytes} {context : String} {map : ε → Result τ}
    {previous : Option Bytes} {entries : List ε} {values : List τ} :
    mapOrdered key context map previous entries = .ok values ↔
      (previous.toList ++ entries.map key).IsChain (· < ·) ∧ entries.mapM map = .ok values := by
  induction entries generalizing previous values with
  | nil =>
    have hchain : (previous.toList ++ ([] : List ε).map key).IsChain (· < ·) := by
      cases previous <;> simp
    exact ⟨fun h => ⟨hchain, h⟩, fun h => h.2⟩
  | cons entry entries ih =>
    have hhead : (previous.toList ++ (entry :: entries).map key).IsChain (· < ·) ↔
        (¬ previous.any (fun before => key entry ≤ before) = true) ∧
          ((some (key entry)).toList ++ entries.map key).IsChain (· < ·) := by
      cases previous with
      | none => simp
      | some before => simp
    rw [hhead, List.mapM_cons]
    simp only [mapOrdered, Except.bind_eq_ok, Except.rejectIf_eq_ok, exists_const, ih]
    constructor
    · rintro ⟨hprevious, value, hvalue, rest, ⟨hchain, hrest⟩, hvalues⟩
      exact ⟨⟨hprevious, hchain⟩, value, hvalue, rest, hrest, hvalues⟩
    · rintro ⟨⟨hprevious, hchain⟩, value, hvalue, rest, hrest, hvalues⟩
      exact ⟨hprevious, value, hvalue, rest, ⟨hchain, hrest⟩, hvalues⟩

/-- Entries whose keys ascend read back from what they are mapped to. -/
theorem mapOrdered_map {α β : Type} {key : β → Bytes} {context : String} {read : β → Result α}
    {write : α → β} {entries : List α}
    (hascending : entries.Pairwise fun a b => key (write a) < key (write b))
    (hback : ∀ entry ∈ entries, read (write entry) = .ok entry) :
    mapOrdered key context read none (entries.map write) = .ok entries := by
  refine mapOrdered_eq_ok.mpr ⟨?_, Except.mapM_eq_ok.mpr ?_⟩
  · rw [Option.toList_none, List.nil_append, List.map_map]
    refine List.Pairwise.isChain ?_
    rw [List.pairwise_map]
    exact hascending
  · rw [List.forall₂_map_left_iff, List.forall₂_same]
    exact hback

/-! ## Wire forms -/

structure SupportedEntryWire where
  label : Bytes
  digest : Bytes
  deriving DecidableEq

structure LimitEntryWire where
  tag : Bytes
  value : UInt64
  deriving DecidableEq

structure FeatureOfferWire where
  supported : List SupportedEntryWire
  required : List Bytes
  limits : List LimitEntryWire
  deriving DecidableEq

def SupportedEntryWire.toItem (wire : SupportedEntryWire) : Item :=
  .array [.text wire.label, .bytes wire.digest]

def SupportedEntryWire.decode : Reader SupportedEntryWire := Cbor.decodeFields 2 do
  return ⟨← Cbor.decodeStr, ← Cbor.decodeBytes⟩

def LimitEntryWire.toItem (wire : LimitEntryWire) : Item := .array [.text wire.tag, .uint wire.value]

def LimitEntryWire.decode : Reader LimitEntryWire := Cbor.decodeFields 2 do
  return ⟨← Cbor.decodeStr, ← Cbor.decodeU64⟩

namespace FeatureOfferWire

def toItem (wire : FeatureOfferWire) : Item :=
  .array [.array (wire.supported.map SupportedEntryWire.toItem), .array (wire.required.map .text),
    .array (wire.limits.map LimitEntryWire.toItem)]

def decode : Reader FeatureOfferWire := Cbor.decodeFields 3 do
  return ⟨← Cbor.decodeVec SupportedEntryWire.decode, ← Cbor.decodeVec Cbor.decodeStr,
    ← Cbor.decodeVec LimitEntryWire.decode⟩

def codec : CborCodec FeatureOfferWire := ⟨fun wire => wire.toItem.encode, decode⟩

end FeatureOfferWire

section Offers

variable [DnsName]

/-! ## Offers -/

/-- What `FeatureOffer::new` and `from_wire` both establish. The order is not part of it:
    `from_wire` compares the texts before their domains are folded to lowercase. -/
structure OfferWellFormed (supported : List (FeatureTag × Digest)) (required : List FeatureTag)
    (limits : List (QualifiedTag × UInt64)) : Prop where
  supportedCapacity : supported.length ≤ maxSupportedLabels
  requiredCapacity : required.length ≤ maxRequiredLabels
  limitsCapacity : limits.length ≤ maxNegotiatedLimits
  limitsCategory : ∀ entry ∈ limits, entry.1.category = categoryLimits
  requiredSupported : ∀ tag ∈ required, ∃ entry ∈ supported, entry.1 = tag

structure FeatureOffer where
  supported : List (FeatureTag × Digest)
  required : List FeatureTag
  limits : List (QualifiedTag × UInt64)
  wellFormed : OfferWellFormed supported required limits

/-- The checks of `FeatureOffer::new` on the sorted collections. -/
def checkOffer (supported : List (FeatureTag × Digest)) (required : List FeatureTag)
    (limits : List (QualifiedTag × UInt64)) : Result Unit := do
  rejectIf (supported.length > maxSupportedLabels) (.invalidInput "feature offer supported capacity")
  rejectIf (required.length > maxRequiredLabels) (.invalidInput "feature offer required capacity")
  rejectIf (limits.length > maxNegotiatedLimits) (.invalidInput "feature offer limits capacity")
  ensureUniqueSorted supported (fun entry => entry.1.asStr) "feature offer supported duplicate"
  ensureUniqueSorted required CategoryTag.asStr "feature offer required duplicate"
  ensureUniqueSorted limits (fun entry => entry.1.asStr) "feature offer limits duplicate"
  rejectIf (limits.any fun entry => entry.1.category ≠ categoryLimits)
    (.invalidInput "feature offer limit category")
  rejectIf (required.any fun tag => !supported.any fun entry => entry.1 = tag)
    (.invalidInput "feature offer required unsupported")

/-- The checks of `FeatureOffer::new`, one by one. -/
theorem checkOffer_eq_ok {supported : List (FeatureTag × Digest)} {required : List FeatureTag}
    {limits : List (QualifiedTag × UInt64)} :
    checkOffer supported required limits = .ok () ↔
      supported.length ≤ maxSupportedLabels ∧ required.length ≤ maxRequiredLabels ∧
      limits.length ≤ maxNegotiatedLimits ∧
      supported.allAdjacent (fun a b => a.1.asStr ≠ b.1.asStr) = true ∧
      required.allAdjacent (fun a b => a.asStr ≠ b.asStr) = true ∧
      limits.allAdjacent (fun a b => a.1.asStr ≠ b.1.asStr) = true ∧
      (∀ entry ∈ limits, entry.1.category = categoryLimits) ∧
      ∀ tag ∈ required, ∃ entry ∈ supported, entry.1 = tag := by
  simp only [checkOffer, ensureUniqueSorted, Except.seq_eq_ok, Except.rejectIf_eq_ok, not_lt,
    gt_iff_lt, not_not, List.any_eq_true, decide_eq_true_eq, Bool.not_eq_true', List.any_eq_false,
    not_exists, not_and, not_forall]
  simp

theorem wellFormed_of_checkOffer {supported : List (FeatureTag × Digest)}
    {required : List FeatureTag} {limits : List (QualifiedTag × UInt64)}
    (h : checkOffer supported required limits = .ok ()) :
    OfferWellFormed supported required limits := by
  obtain ⟨hs, hr, hl, -, -, -, hcategory, hsub⟩ := checkOffer_eq_ok.mp h
  exact ⟨hs, hr, hl, hcategory, hsub⟩

namespace FeatureOffer

/-- `FeatureOffer::new`: every collection is sorted and checked. -/
def new (supported : List (FeatureTag × Digest)) (required : List FeatureTag)
    (limits : List (QualifiedTag × UInt64)) : Result FeatureOffer :=
  match h : checkOffer (supported.insertionSort (fun a b => a.1 ≤ b.1))
      (required.insertionSort (· ≤ ·)) (limits.insertionSort (fun a b => a.1 ≤ b.1)) with
  | .error e => .error e
  | .ok () => .ok ⟨_, _, _, wellFormed_of_checkOffer h⟩

def supportedDigest (offer : FeatureOffer) (tag : FeatureTag) : Option Digest :=
  (offer.supported.find? fun entry => entry.1 = tag).map Prod.snd

def limitValue (offer : FeatureOffer) (tag : QualifiedTag) : Option UInt64 :=
  (offer.limits.find? fun entry => entry.1 = tag).map Prod.snd

def wire (offer : FeatureOffer) : FeatureOfferWire where
  supported := offer.supported.map fun entry => ⟨entry.1.asStr, entry.2.asBytes⟩
  required := offer.required.map CategoryTag.asStr
  limits := offer.limits.map fun entry => ⟨entry.1.asStr, entry.2⟩

def encode (offer : FeatureOffer) : Result Bytes :=
  encodeCanonical FeatureOfferWire.codec offer.wire controlCborLimits

/-- The limits a registry makes mandatory for the supported labels it knows. -/
def expectedLimits (offer : FeatureOffer) (registry : FeatureRegistry) :
    SortedMap QualifiedTag LimitDefinition :=
  (offer.supported.flatMap fun entry =>
    match registry.get entry.1 with
    | some definition => definition.limits.filter LimitDefinition.mandatory
    | none => []).foldl (fun expected limit => expected.insert limit.tag limit) .empty

/-- `validate_limits`: the offered limits are the mandatory limits of the supported
    labels, each in its range. -/
def validateLimits (offer : FeatureOffer) (registry : FeatureRegistry) : Result Unit := do
  let expected := offer.expectedLimits registry
  rejectIf (offer.limits.length ≠ expected.toList.length)
    (.invalidInput "feature offer mandatory limits")
  offer.limits.forM fun (tag, value) =>
    match expected.get tag with
    | none => .error (.invalidInput "feature offer unknown limit")
    | some definition =>
      rejectIf (¬ definition.contains value) (.invalidInput "feature offer limit range")

/-- The collections `from_wire` reads. -/
def readWire (wire : FeatureOfferWire) :
    Result (List (FeatureTag × Digest) × List FeatureTag × List (QualifiedTag × UInt64)) := do
  rejectIf (wire.supported.length > maxSupportedLabels)
    (.invalidInput "feature offer supported capacity")
  rejectIf (wire.required.length > maxRequiredLabels)
    (.invalidInput "feature offer required capacity")
  rejectIf (wire.limits.length > maxNegotiatedLimits)
    (.invalidInput "feature offer limits capacity")
  let supported ← mapOrdered SupportedEntryWire.label "feature offer supported ordering"
    (fun entry => do
      let digest ← fixedBytes 32 entry.digest "feature offer digest"
      return (← FeatureTag.parse entry.label, Digest.fromBytes digest)) none wire.supported
  let required ← mapOrdered id "feature offer required ordering" FeatureTag.parse none wire.required
  let limits ← mapOrdered LimitEntryWire.tag "feature offer limits ordering"
    (fun entry => do
      let tag ← QualifiedTag.parse entry.tag
      rejectIf (tag.category ≠ categoryLimits) (.invalidInput "feature offer limit category")
      return (tag, entry.value)) none wire.limits
  rejectIf (required.any fun tag => !supported.any fun entry => entry.1 = tag)
    (.invalidInput "feature offer required unsupported")
  return (supported, required, limits)

theorem wellFormed_of_readWire {wire : FeatureOfferWire} {supported : List (FeatureTag × Digest)}
    {required : List FeatureTag} {limits : List (QualifiedTag × UInt64)}
    (h : readWire wire = .ok (supported, required, limits)) :
    OfferWellFormed supported required limits := by
  simp only [readWire, Except.bind_eq_ok, Except.rejectIf_eq_ok, exists_const, mapOrdered_eq_ok,
    Result.mapM_eq_ok, Result.pure_eq_ok, Except.ok.injEq, Prod.mk.injEq] at h
  obtain ⟨hs, hr, hl, _, ⟨-, hsupported⟩, _, ⟨-, hrequired⟩, _, ⟨-, hlimits⟩, hsub, rfl, rfl, rfl⟩ := h
  refine ⟨?_, ?_, ?_, ?_, ?_⟩
  · rw [← hsupported.length_eq]
    omega
  · rw [← hrequired.length_eq]
    omega
  · rw [← hlimits.length_eq]
    omega
  · intro entry hentry
    obtain ⟨source, -, hsource⟩ := List.Forall₂.exists_of_mem_right hlimits hentry
    obtain ⟨tag, -, hcategory, hpair⟩ := hsource
    rw [← hpair]
    exact not_not.mp hcategory
  · simpa using hsub

/-- `from_wire` -/
def fromWire (wire : FeatureOfferWire) : Result FeatureOffer :=
  match h : readWire wire with
  | .error e => .error e
  | .ok (supported, required, limits) =>
    .ok ⟨supported, required, limits, wellFormed_of_readWire h⟩

def decode (bytes : Bytes) (registry : FeatureRegistry) : Result FeatureOffer := do
  let wire ← decodeCanonicalStrict FeatureOfferWire.codec bytes controlCborLimits
    "feature offer canonical form"
  let offer ← fromWire wire
  offer.validateLimits registry
  return offer

end FeatureOffer

/-- `node_offer`: every registered label at its digest, the session features and the
    caller's labels required, every mandatory limit at its default. -/
def nodeOffer (registry : FeatureRegistry) (callerRequired : Finset FeatureTag) :
    Result FeatureOffer := do
  let supported ← registry.definitions.toList.mapM fun entry => do
    return (entry.1, ← entry.2.definitionDigest)
  let limits := registry.definitions.toList.flatMap fun entry =>
    (entry.2.limits.filter LimitDefinition.mandatory).map fun limit => (limit.tag, limit.default)
  let session ← requiredSessionFeatures
  let required := callerRequired ∪ session.toFinset
  rejectIf (required.sort.any fun tag => !supported.any fun entry => entry.1 = tag)
    (.invalidInput "required feature")
  FeatureOffer.new supported required.sort limits

end Offers

end Radiata
