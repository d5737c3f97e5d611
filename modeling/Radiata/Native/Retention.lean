import Radiata.ForStd.ConditionalStore
import Radiata.Native.NodeStore
import Radiata.Native.Register
import Radiata.Native.TraceRecord

/-!
# Retention passes

`sweep` of `src/routing/trace.rs` and `sweep_removed_ctx` of `src/resource/retention.rs`: a pass
reads one snapshot, selects the records of its namespace that have expired or are too many, and
deletes them by conditional transactions. The trace sweep commits batches, each at a revision of
its own; the resource pass commits single deletes, all at the revision of its snapshot.

The passes are programs over a store. A conforming conditional store answers them: alone, or
with others writing between any two calls.
-/

namespace Radiata

/-- The calls of a pass. Transaction ids are drawn by the commit; the digest a delete expects is
    that of the value it expects. -/
inductive PassCall (κ ν : Type) where
  | snapshot
  | commit (batch : StoreBatch κ ν)

@[reducible] def PassCall.Answer {κ ν : Type} : PassCall κ ν → Type
  | snapshot => Result (Store κ ν)
  | commit _ => Result StoreOutcome

/-- A pass over a store. -/
abbrev PassM (κ ν α : Type) := ExceptT Error (Prog (PassCall κ ν) PassCall.Answer) α

namespace PassM

variable {κ ν : Type}

def snapshot : PassM κ ν (Store κ ν) := ExceptT.mk (Prog.perform PassCall.snapshot)

def commit (batch : StoreBatch κ ν) : PassM κ ν StoreOutcome :=
  ExceptT.mk (Prog.perform (PassCall.commit batch))

end PassM

/-- A record is past its retention. -/
def isExpired (now : SystemTime) (retention : Duration) (stamped : SystemTime) : Bool :=
  decide (stamped.nanos ≤ now.nanos ∧ (retention.nanos : Int) ≤ now.nanos - stamped.nanos)

def commitUnknown : Error := .provider .commitUnknown .storageReconcile

/-! ## Traces -/

def maxBatchOperations : Nat := 64

section Batches

variable {κ ν : Type}

/-- `commit_batch`: an aborted batch counts like a committed one. -/
def commitBatch (actions : List (StoreAction κ ν)) : PassM κ ν Nat := do
  let snapshot ← PassM.snapshot
  match ← PassM.commit ⟨snapshot.revision, actions⟩ with
  | .committed | .aborted => return actions.length
  | .conflict => return 0
  | .unknown => throw commitUnknown

/-- `apply_batched` -/
def applyBatched (actions : List (StoreAction κ ν)) : PassM κ ν Nat :=
  match actions with
  | [] => return 0
  | action :: rest => do
    let applied ← commitBatch ((action :: rest).take maxBatchOperations)
    let others ← applyBatched ((action :: rest).drop maxBatchOperations)
    return applied + others
termination_by actions.length
decreasing_by
  simp only [List.length_drop, List.length_cons, maxBatchOperations]
  omega

end Batches

variable [DnsName]

/-- The keys of the trace namespace. -/
def inTraces (key : EntryKey) : Bool := key.namespaceTag.asStr == traceNamespaceText

/-- A record a pass may delete: its key, its value, and when it was stamped. -/
structure Removal where
  key : EntryKey
  value : StoreValue
  stamped : SystemTime
  deriving DecidableEq

namespace Removal

def delete (removal : Removal) : StoreAction EntryKey StoreValue := .delete removal.key removal.value

/-- Sorted by time, equal times in the order they come in. -/
def oldestFirst (removals : List Removal) : List Removal :=
  removals.insertionSort fun a b => a.stamped.nanos ≤ b.stamped.nanos

end Removal

/-- What the scan of the trace sweep keeps of an entry. -/
def terminalTrace (entry : EntryKey × StoreValue) : Option Removal :=
  match decodeTraceRecord entry.2.asBytes with
  | .ok record => if record.phase.isTerminal then some ⟨entry.1, entry.2, record.updatedAt⟩ else none
  | .error _ => none

/-- The records the trace sweep removes. -/
def traceRemovals (now : SystemTime) (terminalCap : Nat) (retention : Duration)
    (snapshot : Store EntryKey StoreValue) : List Removal :=
  let terminals := (snapshot.scan inTraces).filterMap terminalTrace
  let expired := terminals.filter fun removal => isExpired now retention removal.stamped
  let freshTerminals := terminals.filter fun removal => !isExpired now retention removal.stamped
  let overflow := (expired.length + freshTerminals.length) - terminalCap
  expired ++ (Removal.oldestFirst freshTerminals).take overflow

/-- `sweep` -/
def sweepTraces (now : SystemTime) (terminalCap : Nat) (retention : Duration) :
    PassM EntryKey StoreValue Nat := do
  let snapshot ← PassM.snapshot
  let removals := traceRemovals now terminalCap retention snapshot
  let _ ← applyBatched (removals.map Removal.delete)
  return removals.length

/-! ## Resources -/

/-- The keys of the resource namespace. -/
def inResources (key : EntryKey) : Bool := key.namespaceTag.asStr == resourceRecordNamespaceText

/-- `delete_exact` -/
def deleteExact (revision : Nat) (removal : Removal) : PassM EntryKey StoreValue Bool := do
  match ← PassM.commit ⟨revision, [removal.delete]⟩ with
  | .committed => return true
  | .conflict | .aborted | .unknown => return false

/-- The heap of `sweep_removed_ctx`, as its candidates from the oldest to the newest. -/
def pushCandidate (cap : Nat) (oldest : List Removal) (candidate : Removal) : List Removal :=
  let pushed := oldest.orderedInsert (fun a b => a.stamped.nanos ≤ b.stamped.nanos) candidate
  if cap < pushed.length then pushed.dropLast else pushed

/-- What the scan of the resource pass has seen. -/
structure RemovalScan where
  removed : Nat
  freshTotal : Nat
  oldest : List Removal

/-- The scan of `sweep_removed_ctx`: expired removals are deleted while it goes on. -/
def scanRemoved (now : SystemTime) (retention : Duration) (cap revision : Nat) :
    List (EntryKey × StoreValue) → RemovalScan → PassM EntryKey StoreValue RemovalScan
  | [], scan => return scan
  | (key, value) :: rest, scan => do
    let record ← ExceptT.mk (pure (ResourceRecord.decode value.asBytes))
    if record.removed = false then scanRemoved now retention cap revision rest scan
    else
      let removal : Removal := ⟨key, value, fromMillis record.timestampMillis⟩
      if isExpired now retention removal.stamped then do
        let deleted ← deleteExact revision removal
        scanRemoved now retention cap revision rest
          { scan with removed := if deleted then scan.removed + 1 else scan.removed }
      else
        scanRemoved now retention cap revision rest
          { scan with
            freshTotal := scan.freshTotal + 1
            oldest := pushCandidate cap scan.oldest removal }

/-- The deletes after the scan. -/
def deleteOverflow (revision : Nat) : List Removal → Nat → PassM EntryKey StoreValue Nat
  | [], removed => return removed
  | candidate :: rest, removed => do
    let deleted ← deleteExact revision candidate
    deleteOverflow revision rest (if deleted then removed + 1 else removed)

/-- `sweep_removed_ctx` -/
def sweepRemoved (now : SystemTime) (retention : Duration) (cap : Nat) :
    PassM EntryKey StoreValue Nat := do
  let snapshot ← PassM.snapshot
  let scan ← scanRemoved now retention cap snapshot.revision (snapshot.scan inResources) ⟨0, 0, []⟩
  let overflow := min (scan.freshTotal - cap) scan.oldest.length
  deleteOverflow snapshot.revision (scan.oldest.take overflow) scan.removed

/-! ## Stores -/

section Serve

variable {κ ν : Type} [DecidableEq κ] [DecidableEq ν]

/-- A conforming store that nobody else writes to. -/
def serveAlone : (call : PassCall κ ν) → Store κ ν → call.Answer × Store κ ν
  | .snapshot, store => (.ok store, store)
  | .commit batch, store =>
    if store.accepts batch then (.ok .committed, store.apply batch) else (.ok .conflict, store)

/-- The answers of a conforming store. A commit whose outcome is unknown may have been applied. -/
inductive PassAnswers : (call : PassCall κ ν) → Store κ ν → call.Answer → Store κ ν → Prop where
  | snapshot (store : Store κ ν) : PassAnswers .snapshot store (.ok store) store
  | committed {store : Store κ ν} {batch : StoreBatch κ ν} (h : store.accepts batch = true) :
      PassAnswers (.commit batch) store (.ok .committed) (store.apply batch)
  | conflict (store : Store κ ν) (batch : StoreBatch κ ν) :
      PassAnswers (.commit batch) store (.ok .conflict) store
  | aborted (store : Store κ ν) (batch : StoreBatch κ ν) :
      PassAnswers (.commit batch) store (.ok .aborted) store
  | unknown (store : Store κ ν) (batch : StoreBatch κ ν) :
      PassAnswers (.commit batch) store (.ok .unknown) store
  | unknownApplied {store : Store κ ν} {batch : StoreBatch κ ν} (h : store.accepts batch = true) :
      PassAnswers (.commit batch) store (.ok .unknown) (store.apply batch)
  | snapshotFailed (store : Store κ ν) (error : Error) :
      PassAnswers .snapshot store (.error error) store
  | commitFailed (store : Store κ ν) (batch : StoreBatch κ ν) (error : Error) :
      PassAnswers (.commit batch) store (.error error) store

end Serve

end Radiata
