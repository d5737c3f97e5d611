import Radiata.ForStd.CborItem
import Radiata.Native.Cbor
import Radiata.Native.Provider

/-!
# Feature definitions

`src/protocol/feature.rs`: the immutable contract behind one feature label, its
definition digest (SHA-256 over the canonical record with sorted collections), the
closed registry of the locally implemented definitions with the checks of its
construction, and the built-in definitions.

A text is represented by its UTF-8 bytes. The builders of the source are the only way
to a definition, so the structures carry what the builders check.
-/

namespace Radiata

open Cbor (Item)

def builtinTestOwner : Bytes := Bytes.utf8 "VERIFY-G03-01"
def fingerprintSeedPrefix : Bytes := Bytes.utf8 "radiata.woooo.tech/crypto/feature-fingerprint-v1/"

def authEd25519Session : Bytes := Bytes.utf8 "radiata.woooo.tech/features/auth-ed25519-session"
def sessionCore : Bytes := Bytes.utf8 "radiata.woooo.tech/features/session-core"
def dataMessages : Bytes := Bytes.utf8 "radiata.woooo.tech/features/data-messages"
def directRequest : Bytes := Bytes.utf8 "radiata.woooo.tech/features/direct-request"
def routedDelivery : Bytes := Bytes.utf8 "radiata.woooo.tech/features/routed-delivery"
def dataBodyBytesLimit : Bytes := Bytes.utf8 "radiata.woooo.tech/limits/data-body-bytes"
def inFlightRequestsLimit : Bytes := Bytes.utf8 "radiata.woooo.tech/limits/in-flight-requests"
def directRequestProtocol : Bytes := Bytes.utf8 "radiata.woooo.tech/protocols/direct-request"

def dataBodyFloor : UInt64 := 64 * 1024
def dataBodyDefault : UInt64 := 1024 * 1024
def dataBodyCeiling : UInt64 := 8 * 1024 * 1024
def inFlightFloor : UInt64 := 1
def inFlightDefault : UInt64 := 256
def inFlightCeiling : UInt64 := 1024

def definitionLimits : CborLimits := ⟨16, 1024, 65536⟩

/-! ## Limit definitions -/

inductive LimitWidth where
  | u16
  | u32
  | u64
  deriving DecidableEq

def LimitWidth.wire : LimitWidth → UInt64
  | u16 => 16
  | u32 => 32
  | u64 => 64

def LimitWidth.maximum : LimitWidth → UInt64
  | u16 => 65535
  | u32 => 4294967295
  | u64 => 18446744073709551615

inductive LimitUnit where
  | bytes
  | count
  deriving DecidableEq

def LimitUnit.wire : LimitUnit → UInt64
  | bytes => 0
  | count => 1

/-- The legal range and the local default of a limit. -/
structure LimitRange where
  floor : UInt64
  ceiling : UInt64
  default : UInt64
  aboveFloor : floor ≤ default
  belowCeiling : default ≤ ceiling
  deriving DecidableEq

def LimitRange.new (floor ceiling default : UInt64) : Result LimitRange :=
  if h : floor > ceiling ∨ default < floor ∨ default > ceiling then
    .error (.invalidInput "limit definition range")
  else
    .ok ⟨floor, ceiling, default, UInt64.not_lt.mp fun hlt => h (Or.inr (Or.inl hlt)),
      UInt64.not_lt.mp fun hlt => h (Or.inr (Or.inr hlt))⟩

def LimitRange.contains (range : LimitRange) (value : UInt64) : Bool :=
  range.floor ≤ value && value ≤ range.ceiling

/-- The list of a builder step: the element is new. -/
private theorem nodup_concat {α : Type} {l : List α} {a : α} (hl : l.Nodup) (ha : a ∉ l) :
    (l ++ [a]).Nodup := by
  rw [← List.concat_eq_append]
  exact hl.concat ha

section Definitions

variable [DnsName]

/-- The immutable definition of one negotiated numeric limit. -/
structure LimitDefinition where
  tag : QualifiedTag
  width : LimitWidth
  unit : LimitUnit
  range : LimitRange
  owner : FeatureTag
  mandatory : Bool
  inCategory : tag.category = categoryLimits
  fitsWidth : range.ceiling ≤ width.maximum
  deriving DecidableEq

namespace LimitDefinition

def new (tag : QualifiedTag) (width : LimitWidth) (unit : LimitUnit) (range : LimitRange)
    (owner : FeatureTag) (mandatory : Bool) : Result LimitDefinition :=
  if hcategory : tag.category ≠ categoryLimits then
    .error (.invalidInput "limit definition category")
  else if hwidth : range.ceiling > width.maximum then
    .error (.invalidInput "limit definition width")
  else
    .ok ⟨tag, width, unit, range, owner, mandatory, not_not.mp hcategory, UInt64.not_lt.mp hwidth⟩

def default (limit : LimitDefinition) : UInt64 := limit.range.default
def contains (limit : LimitDefinition) (value : UInt64) : Bool := limit.range.contains value

end LimitDefinition

/-! ## Feature definitions -/

/-- The canonical immutable contract behind one feature label. -/
structure FeatureDefinition where
  tag : FeatureTag
  fingerprint : Digest
  dependencies : List FeatureTag
  conflicts : List FeatureTag
  protocols : List ProtocolTag
  limits : List LimitDefinition
  testOwner : Bytes
  dependenciesDistinct : (tag :: dependencies).Nodup
  conflictsDistinct : (tag :: conflicts).Nodup
  protocolsDistinct : protocols.Nodup
  limitsDistinct : (limits.map LimitDefinition.tag).Nodup
  limitsOwned : ∀ limit ∈ limits, limit.owner = tag
  deriving DecidableEq

namespace FeatureDefinition

def unchecked (tag : FeatureTag) (fingerprint : Digest) (testOwner : Bytes) : FeatureDefinition where
  tag := tag
  fingerprint := fingerprint
  dependencies := []
  conflicts := []
  protocols := []
  limits := []
  testOwner := testOwner
  dependenciesDistinct := List.nodup_singleton tag
  conflictsDistinct := List.nodup_singleton tag
  protocolsDistinct := List.nodup_nil
  limitsDistinct := List.nodup_nil
  limitsOwned := by simp

/-- A definition of an extension feature; the built-in domain is reserved. -/
def new (tag : FeatureTag) (fingerprint : Digest) : Result FeatureDefinition :=
  if tag.domain = builtinDomain then
    .error (.invalidInput "feature definition reserved namespace")
  else .ok (unchecked tag fingerprint [])

def dependency (self : FeatureDefinition) (tag : FeatureTag) : Result FeatureDefinition :=
  if hself : tag = self.tag then .error (.invalidInput "feature dependency self")
  else if hmem : tag ∈ self.dependencies then .error (.invalidInput "feature dependency duplicate")
  else .ok { self with
    dependencies := self.dependencies ++ [tag]
    dependenciesDistinct := nodup_concat (l := self.tag :: self.dependencies)
      self.dependenciesDistinct (by simp [hself, hmem]) }

def protocol (self : FeatureDefinition) (tag : ProtocolTag) : Result FeatureDefinition :=
  if hmem : tag ∈ self.protocols then .error (.invalidInput "feature protocol duplicate")
  else .ok { self with
    protocols := self.protocols ++ [tag]
    protocolsDistinct := nodup_concat self.protocolsDistinct hmem }

def limit (self : FeatureDefinition) (limit : LimitDefinition) : Result FeatureDefinition :=
  if howner : limit.owner ≠ self.tag then .error (.invalidInput "feature limit owner")
  else if hmem : limit.tag ∈ self.limits.map LimitDefinition.tag then
    .error (.invalidInput "feature limit duplicate")
  else .ok { self with
    limits := self.limits ++ [limit]
    limitsDistinct := by
      rw [List.map_append]
      exact nodup_concat self.limitsDistinct hmem
    limitsOwned := by
      intro other hother
      rcases List.mem_append.mp hother with hother | hother
      · exact self.limitsOwned other hother
      · rw [List.mem_singleton.mp hother]
        exact not_not.mp howner }

end FeatureDefinition

/-! ## Definition digests -/

structure LimitDefinitionWire where
  tag : Bytes
  width : UInt64
  unit : UInt64
  floor : UInt64
  ceiling : UInt64
  default : UInt64
  owner : Bytes
  mandatory : Bool
  deriving DecidableEq

structure DefinitionWire where
  tag : Bytes
  fingerprint : Bytes
  dependencies : List Bytes
  conflicts : List Bytes
  protocols : List Bytes
  limits : List LimitDefinitionWire
  testOwner : Bytes
  deriving DecidableEq

def LimitDefinitionWire.toItem (wire : LimitDefinitionWire) : Item :=
  .array [.text wire.tag, .uint wire.width, .uint wire.unit, .uint wire.floor, .uint wire.ceiling,
    .uint wire.default, .text wire.owner, .bool wire.mandatory]

def DefinitionWire.toItem (wire : DefinitionWire) : Item :=
  .array [.text wire.tag, .bytes wire.fingerprint, .array (wire.dependencies.map .text),
    .array (wire.conflicts.map .text), .array (wire.protocols.map .text),
    .array (wire.limits.map LimitDefinitionWire.toItem), .text wire.testOwner]

/-- The codec of a wire type that is written and never read. -/
def encodeOnly {α : Type} (toItem : α → Item) : CborCodec α :=
  ⟨fun value => (toItem value).encode, failure⟩

def LimitDefinition.wire (limit : LimitDefinition) : LimitDefinitionWire where
  tag := limit.tag.asStr
  width := limit.width.wire
  unit := limit.unit.wire
  floor := limit.range.floor
  ceiling := limit.range.ceiling
  default := limit.range.default
  owner := limit.owner.asStr
  mandatory := limit.mandatory

namespace FeatureDefinition

/-- The canonical record: every collection sorted. -/
def wire (self : FeatureDefinition) : DefinitionWire where
  tag := self.tag.asStr
  fingerprint := self.fingerprint.asBytes
  dependencies := (self.dependencies.map CategoryTag.asStr).insertionSort (· ≤ ·)
  conflicts := (self.conflicts.map CategoryTag.asStr).insertionSort (· ≤ ·)
  protocols := (self.protocols.map CategoryTag.asStr).insertionSort (· ≤ ·)
  limits := (self.limits.map LimitDefinition.wire).insertionSort (fun a b => a.tag ≤ b.tag)
  testOwner := self.testOwner

def definitionDigest (self : FeatureDefinition) : Result Digest := do
  let bytes ← encodeCanonical (encodeOnly DefinitionWire.toItem) self.wire definitionLimits
  return sha256 bytes

end FeatureDefinition

/-! ## The built-in definitions -/

def builtinFingerprint (tag : FeatureTag) : Digest := sha256 (fingerprintSeedPrefix ++ tag.asStr)

def builtin (text : Bytes) : Result FeatureDefinition := do
  let tag ← FeatureTag.parse text
  return FeatureDefinition.unchecked tag (builtinFingerprint tag) builtinTestOwner

def builtinDefinitions : Result (List FeatureDefinition) := do
  let auth ← builtin authEd25519Session
  let session ← (← builtin sessionCore).dependency (← FeatureTag.parse authEd25519Session)
  let data ← (← builtin dataMessages).dependency (← FeatureTag.parse sessionCore)
  let data ← data.limit (← LimitDefinition.new (← QualifiedTag.parse dataBodyBytesLimit) .u32 .bytes
    (← LimitRange.new dataBodyFloor dataBodyCeiling dataBodyDefault)
    (← FeatureTag.parse dataMessages) true)
  let direct ← (← builtin directRequest).dependency (← FeatureTag.parse dataMessages)
  let direct ← direct.limit (← LimitDefinition.new (← QualifiedTag.parse inFlightRequestsLimit) .u16
    .count (← LimitRange.new inFlightFloor inFlightCeiling inFlightDefault)
    (← FeatureTag.parse directRequest) true)
  let direct ← direct.protocol (← ProtocolTag.parse directRequestProtocol)
  let routed ← (← builtin routedDelivery).dependency (← FeatureTag.parse dataMessages)
  return [auth, session, data, direct, routed]

/-- `required_session_features` -/
def requiredSessionFeatures : Result (List FeatureTag) := do
  return [← FeatureTag.parse authEd25519Session, ← FeatureTag.parse sessionCore]

/-! ## The registry -/

/-- The definitions of a registry by label. -/
abbrev Definitions := SortedMap FeatureTag FeatureDefinition

/-- One candidate of the loop in `check_reserved_namespace`. -/
def reservedCandidate (definition : FeatureDefinition) (actual : Digest) (found : Bool)
    (candidate : FeatureDefinition) : Result Bool := do
  if found then return true
  else if candidate.tag = definition.tag then
    return decide ((← candidate.definitionDigest) = actual)
  else return false

/-- `check_reserved_namespace`: a definition under the built-in domain is one of the
    built-in definitions. -/
def checkReservedNamespace (definition : FeatureDefinition) (builtins : List FeatureDefinition) :
    Result Unit := do
  if definition.tag.domain ≠ builtinDomain then
    return ()
  let actual ← definition.definitionDigest
  let found ← builtins.foldlM (reservedCandidate definition actual) false
  if found then return ()
  else throw (.invalidInput "feature registry reserved namespace")

inductive Mark where
  | visiting
  | done
  deriving DecidableEq

/-- `visit` of `check_dependencies`: a depth-first search. Every nested call marks one
    more label of the registry, so the recursion is bounded by their number
    (`checkDependencies_ne_exhausted`). -/
def visit (definitions : Definitions) :
    Nat → FeatureTag → SortedMap FeatureTag Mark → Result (SortedMap FeatureTag Mark)
  | 0, _, _ => .error (.internal "feature registry depth")
  | fuel + 1, tag, marks =>
    match marks.get tag with
    | some .done => .ok marks
    | some .visiting => .error (.invalidInput "feature registry dependency cycle")
    | none =>
      match definitions.get tag with
      | none => .error (.invalidInput "feature registry missing dependency")
      | some definition => do
        let marks ← definition.dependencies.foldlM
          (fun marks dependency => visit definitions fuel dependency marks)
          (marks.insert tag .visiting)
        return marks.insert tag .done

def checkDependencies (definitions : Definitions) : Result Unit := do
  let _ ← (definitions.toList.map Prod.fst).foldlM
    (fun marks tag => visit definitions (definitions.toList.length + 1) tag marks) .empty
  return ()

/-- One conflict of a definition in `check_conflicts`. -/
def checkConflict (definitions : Definitions) (definition : FeatureDefinition)
    (conflict : FeatureTag) : Result Unit :=
  if conflict = definition.tag then .error (.invalidInput "feature registry self conflict")
  else
    match definitions.get conflict with
    | none => .error (.invalidInput "feature registry asymmetric conflict")
    | some other =>
      if definition.tag ∈ other.conflicts then .ok ()
      else .error (.invalidInput "feature registry asymmetric conflict")

def checkConflicts (definitions : Definitions) : Result Unit :=
  definitions.toList.forM fun entry => entry.2.conflicts.forM (checkConflict definitions entry.2)

/-- Insertion of a key that must be new. -/
def insertOwned {κ : Type} [LinearOrder κ] (context : String) (owned : SortedMap κ Unit) (key : κ) :
    Result (SortedMap κ Unit) :=
  if owned.contains key then .error (.invalidInput context) else .ok (owned.insert key ())

/-- The loop of `check_unique_ownership` over the limits and protocols of a definition. -/
def checkOwnership (owned : SortedMap QualifiedTag Unit × SortedMap ProtocolTag Unit)
    (definition : FeatureDefinition) :
    Result (SortedMap QualifiedTag Unit × SortedMap ProtocolTag Unit) := do
  let limits ← (definition.limits.map LimitDefinition.tag).foldlM
    (insertOwned "feature registry duplicate limit owner") owned.1
  let protocols ← definition.protocols.foldlM
    (insertOwned "feature registry duplicate protocol owner") owned.2
  return (limits, protocols)

def checkUniqueOwnership (definitions : Definitions) : Result Unit := do
  let _ ← (definitions.toList.map Prod.snd).foldlM checkOwnership (.empty, .empty)
  return ()

/-- The checks of `FeatureRegistry::build` on the map of definitions. -/
def checkRegistry (definitions : Definitions) : Result Unit := do
  let builtins ← builtinDefinitions
  (definitions.toList.map Prod.snd).forM (checkReservedNamespace · builtins)
  checkDependencies definitions
  checkConflicts definitions
  checkUniqueOwnership definitions

/-- The map `FeatureRegistry::build` collects: a repeated label is refused. -/
def collectDefinitions (definitions : List FeatureDefinition) : Result Definitions :=
  definitions.foldlM (fun map definition =>
    if map.contains definition.tag then .error (.invalidInput "feature registry duplicate label")
    else .ok (map.insert definition.tag definition)) .empty

/-- The closed, validated set of locally implemented definitions: what
    `FeatureRegistry::build` accepted. -/
structure FeatureRegistry where
  definitions : Definitions
  built : ∃ source, collectDefinitions source = .ok definitions
  checked : checkRegistry definitions = .ok ()

namespace FeatureRegistry

def build (source : List FeatureDefinition) : Result FeatureRegistry :=
  match hcollect : collectDefinitions source with
  | .error e => .error e
  | .ok definitions =>
    match hcheck : checkRegistry definitions with
    | .error e => .error e
    | .ok () => .ok ⟨definitions, ⟨source, hcollect⟩, hcheck⟩

/-- The frozen built-in registry. -/
def builtin : Result FeatureRegistry := do build (← builtinDefinitions)

def get (registry : FeatureRegistry) (tag : FeatureTag) : Option FeatureDefinition :=
  registry.definitions.get tag

end FeatureRegistry

end Definitions

end Radiata
