import Radiata.Native.Offer

/-!
# Feature selection

`src/protocol/selection.rs`: the exact effective feature set of one pair of offers.
Common labels must carry equal digests, labels whose dependencies are absent are
dropped up to a fixed point, conflicts and missing required labels reject, and the
effective limits are the minima of the offered values.

The ordered sets of the source are finite sets, iterated in ascending order.
-/

namespace Radiata

open Cbor (Item)
open Except (rejectIf okOr)

/-- The typed reason a selection failed. -/
inductive SelectionError where
  | digestMismatch (label : Bytes)
  | conflict (first second : Bytes)
  | missingRequired (label : Bytes)
  | unknownRequired (label : Bytes)
  | malformed (context : String)
  deriving DecidableEq

structure SelectionWire where
  features : List Bytes
  limits : List LimitEntryWire
  deriving DecidableEq

def SelectionWire.toItem (wire : SelectionWire) : Item :=
  .array [.array (wire.features.map .text), .array (wire.limits.map LimitEntryWire.toItem)]

section Selection

variable [DnsName]

/-- The exact pairwise selection both peers must reproduce. -/
structure Selection where
  features : List FeatureTag
  limits : List (QualifiedTag × UInt64)
  bytes : Bytes
  deriving DecidableEq

/-- One supported label of the local offer in steps 1 and 2. -/
def intersectLabel (registry : FeatureRegistry) (remoteOffer : FeatureOffer)
    (selected : Finset FeatureTag) (entry : FeatureTag × Digest) :
    Except SelectionError (Finset FeatureTag) :=
  match remoteOffer.supportedDigest entry.1 with
  | none => .ok selected
  | some remoteDigest => do
    rejectIf (remoteDigest ≠ entry.2) (.digestMismatch entry.1.asStr)
    -- a label the registry knows must carry the digest of its definition
    match registry.get entry.1 with
    | none => return insert entry.1 selected
    | some definition =>
      match definition.definitionDigest with
      | .error _ => throw (.malformed "selection definition digest")
      | .ok registryDigest =>
        rejectIf (registryDigest ≠ entry.2) (.digestMismatch entry.1.asStr)
        return insert entry.1 selected

/-- Whether a label is known and its dependencies are selected. -/
def supportedBy (registry : FeatureRegistry) (selected : Finset FeatureTag) (tag : FeatureTag) :
    Bool :=
  match registry.get tag with
  | some definition => definition.dependencies.all fun dependency => dependency ∈ selected
  | none => false

/-- Step 3: labels without their dependencies are dropped until none is. -/
def dependencyFixedPoint (registry : FeatureRegistry) (selected : Finset FeatureTag) :
    Finset FeatureTag :=
  let retained := selected.filter fun tag => supportedBy registry selected tag
  if retained.card = selected.card then selected
  else dependencyFixedPoint registry retained
termination_by selected.card
decreasing_by
  rename_i hne
  exact lt_of_le_of_ne (Finset.card_filter_le _ _) hne

/-- Step 4 for one selected label. -/
def rejectConflicts (registry : FeatureRegistry) (selected : Finset FeatureTag)
    (tag : FeatureTag) : Except SelectionError Unit := do
  let definition ← okOr (.malformed "selection definition") (registry.get tag)
  definition.conflicts.forM fun conflict =>
    if conflict ∈ selected then
      .error (if tag.asStr < conflict.asStr then .conflict tag.asStr conflict.asStr
        else .conflict conflict.asStr tag.asStr)
    else .ok ()

/-- Steps 5 and 6 for one required label. -/
def checkRequired (registry : FeatureRegistry) (selected : Finset FeatureTag) (tag : FeatureTag) :
    Except SelectionError Unit := do
  rejectIf (registry.get tag = none) (.unknownRequired tag.asStr)
  rejectIf (tag ∉ selected) (.missingRequired tag.asStr)

/-- The effective value of one mandatory limit. -/
def effectiveLimit (localOffer remoteOffer : FeatureOffer)
    (effective : SortedMap QualifiedTag UInt64) (limit : LimitDefinition) :
    Except SelectionError (SortedMap QualifiedTag UInt64) := do
  let localValue ← okOr (.malformed "selection local limit") (localOffer.limitValue limit.tag)
  let remoteValue ← okOr (.malformed "selection remote limit") (remoteOffer.limitValue limit.tag)
  return effective.insert limit.tag (min localValue remoteValue)

/-- Step 7 for one selected label: its mandatory limits. -/
def effectiveLimits (registry : FeatureRegistry) (localOffer remoteOffer : FeatureOffer)
    (effective : SortedMap QualifiedTag UInt64) (tag : FeatureTag) :
    Except SelectionError (SortedMap QualifiedTag UInt64) := do
  let definition ← okOr (.malformed "selection definition") (registry.get tag)
  (definition.limits.filter LimitDefinition.mandatory).foldlM
    (effectiveLimit localOffer remoteOffer) effective

def selectionWire (features : List FeatureTag) (limits : List (QualifiedTag × UInt64)) :
    SelectionWire where
  features := features.map CategoryTag.asStr
  limits := limits.map fun entry => ⟨entry.1.asStr, entry.2⟩

/-- `select` -/
def select (registry : FeatureRegistry) (localOffer remoteOffer : FeatureOffer)
    (localRequired remoteRequired : List FeatureTag) : Except SelectionError Selection := do
  let common ← localOffer.supported.foldlM (intersectLabel registry remoteOffer) ∅
  let selected := dependencyFixedPoint registry common
  selected.sort.forM (rejectConflicts registry selected)
  let required := localRequired.toFinset ∪ remoteRequired.toFinset
  required.sort.forM (checkRequired registry selected)
  let effective ← selected.sort.foldlM (effectiveLimits registry localOffer remoteOffer) .empty
  let features := selected.sort
  let limits := effective.toList
  match encodeCanonical (encodeOnly SelectionWire.toItem) (selectionWire features limits)
      controlCborLimits with
  | .error _ => throw (.malformed "selection encode")
  | .ok bytes => return ⟨features, limits, bytes⟩

end Selection

end Radiata
