import Mathlib.Data.List.MinMax
import Mathlib.Order.Basic
import Radiata.ForStd.SortedMap
import Radiata.Native.Outbound
import Radiata.Native.WallTime

/-!
# The table of route records

`RouteRecord` of `src/packet/mod.rs` and its writers in `src/session/stream.rs`: a sender
inserts a record for each packet it sends (`insert_route`), its progress updates the record
(`update_route`), and a node records the openings it rejects (`record_rejection`).

The table is one mutex, so `insert_route` and `update_route` are one step each;
`record_rejection` takes the lock twice, and other writers may run in between. The lock is never
poisoned.
-/

namespace Radiata

/-- `RouteRecord` -/
structure RouteRecord where
  traceId : TraceId
  selectedNode : Option NodeId
  state : RouteState
  bytesForwarded : Nat
  updatedAt : SystemTime
  deriving DecidableEq

/-- `Delivered` and `Failed` are terminal. -/
def RouteState.terminal : RouteState → Bool
  | delivered => true
  | failed _ => true
  | _ => false

namespace RouteRecord

def new (trace : TraceId) (selected : NodeId) (now : SystemTime) : RouteRecord :=
  ⟨trace, some selected, .routing, 0, now⟩

def failing (trace : TraceId) (now : SystemTime) : RouteRecord := ⟨trace, none, .routing, 0, now⟩

def update (record : RouteRecord) (state : RouteState) (now : SystemTime) : RouteRecord :=
  { record with state := state, updatedAt := now }

def forward (record : RouteRecord) (bytes : Nat) (now : SystemTime) : RouteRecord :=
  { record with bytesForwarded := min (record.bytesForwarded + bytes) maxU64, updatedAt := now }

end RouteRecord

/-- `RouteTable`, by trace id. -/
abbrev RouteTable := SortedMap TraceId RouteRecord

namespace RouteTable

/-- The terminal record that was updated first; among equals the one with the least trace id. -/
def oldest (table : RouteTable) : Option (TraceId × RouteRecord) :=
  let _ : Preorder Int := Int.instLinearOrder.toPreorder
  (table.toList.filter fun entry => entry.2.state.terminal).argmin fun entry =>
    entry.2.updatedAt.nanos

/-- `insert_route`; an error leaves the table as it is. -/
def insertRoute (table : RouteTable) (capacity : Nat) (record : RouteRecord) : Result RouteTable :=
  if !table.contains record.traceId && capacity ≤ table.size then
    match table.oldest with
    | some (trace, _) => .ok ((table.erase trace).insert record.traceId record)
    | none => .error (.resourceExhausted "route records")
  else .ok (table.insert record.traceId record)

/-- `update_route`: a failed route is final. -/
def updateRoute (table : RouteTable) (trace : TraceId) (update : RouteRecord → RouteRecord) :
    RouteTable :=
  match table.get trace with
  | none => table
  | some record =>
    match record.state with
    | .failed _ => table
    | _ => table.insert trace (update record)

end RouteTable

/-- `usize::MAX` -/
def usizeMax : Nat := 2 ^ 64 - 1

/-- A closure that a caller passes to `update_route`. -/
inductive RouteUpdate where
  | state (state : RouteState)
  | forward (bytes : Nat)

def RouteUpdate.apply (now : SystemTime) : RouteUpdate → RouteRecord → RouteRecord
  | .state next, record => record.update next now
  | .forward bytes, record => record.forward bytes now

/-- A `record_rejection` call that has found no record of its trace id. -/
structure Rejection where
  packet : Nat
  trace : TraceId
  kind : ErrorKind

/-- The record that a rejection inserts. -/
def Rejection.record (rejection : Rejection) (now : SystemTime) : RouteRecord :=
  (RouteRecord.failing rejection.trace now).update (.failed rejection.kind) now

/-- What happens to a table. The packet that an insertion is for has a number. -/
inductive RouteEvent where
  /-- `insert_route` with the record of a packet that has its destination. -/
  | insert (packet : Nat) (trace : TraceId) (selected : NodeId) (now : SystemTime)
  /-- `insert_route` with the record of a packet without a destination. -/
  | insertFailing (packet : Nat) (trace : TraceId) (now : SystemTime)
  | update (trace : TraceId) (update : RouteUpdate) (now : SystemTime)
  /-- `record_rejection` looks for the trace id. -/
  | reject (rejection : Rejection)
  /-- `record_rejection` calls `insert_route`. -/
  | recordRejection (i : Nat) (now : SystemTime)

/-- A table with the packet that each record was inserted for and the rejections in flight. -/
structure TableRun where
  table : RouteTable
  owner : TraceId → Option Nat
  rejecting : List Rejection

namespace TableRun

def start : TableRun := ⟨.empty, fun _ => none, []⟩

/-- An insertion for a packet. -/
def insert (s : TableRun) (capacity packet : Nat) (record : RouteRecord) : TableRun :=
  match s.table.insertRoute capacity record with
  | .ok table => { s with table := table, owner := Function.update s.owner record.traceId (some packet) }
  | .error _ => s

/-- One event at a table of the configured capacity. -/
def step (capacity : Nat) (s : TableRun) : RouteEvent → TableRun
  | .insert packet trace selected now => s.insert capacity packet (.new trace selected now)
  | .insertFailing packet trace now => s.insert capacity packet (.failing trace now)
  | .update trace update now => { s with table := s.table.updateRoute trace (update.apply now) }
  | .reject rejection =>
    if s.table.contains rejection.trace then s
    else { s with rejecting := s.rejecting ++ [rejection] }
  | .recordRejection i now =>
    match s.rejecting[i]? with
    | none => s
    | some rejection =>
      { s.insert usizeMax rejection.packet (rejection.record now) with
        rejecting := s.rejecting.eraseIdx i }

end TableRun

end Radiata
