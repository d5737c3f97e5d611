import Mathlib.Algebra.GroupWithZero.Nat
import Radiata.ForStd.SortedMap
import Radiata.ForStd.System
import Radiata.Native.SocketAddress

/-!
# Admission rate limiting

`src/identity/admission_rate.rs`: before any handshake, each connection attempt is counted
against a per-source and a global limit of pending attempts and against fixed 60-second
windows. An admitted attempt holds an `AdmissionSlot` until it ends.

`begin` and `AdmissionSlot::drop` run under one lock, so each is one step. An instant is a
number of nanoseconds from a fixed origin, and `duration_since` saturates at zero. The lock is
never poisoned.
-/

namespace Radiata

open Net (Ipv4Addr Ipv6Addr)

def pendingPerSource : Nat := 4
def pendingGlobal : Nat := 64
def ratePerSource : Nat := 16
def rateGlobal : Nat := 256
def sourceBucketLimit : Nat := 1024

/-- A number of seconds, in nanoseconds. -/
def seconds (n : Nat) : Nat := n * 1000000000

def windowSeconds : Nat := seconds 60
def sourceIdleLifetime : Nat := seconds 600

/-- `AdmissionSource` -/
inductive AdmissionSource where
  | v4 (ip : Ipv4Addr)
  | v6 (ip : Ipv6Addr)
  deriving DecidableEq

namespace AdmissionSource

/-- The variant and the octets, whose order is the derived order. -/
def sortKey : AdmissionSource → List Nat
  | v4 ⟨a, b, c, d⟩ => [0, a.toNat, b.toNat, c.toNat, d.toNat]
  | v6 ip => 1 :: ip.segments.map UInt16.toNat

theorem sortKey_injective : Function.Injective sortKey := by
  intro a b h
  cases a with
  | v4 ip =>
    cases b with
    | v4 ip' =>
      obtain ⟨w, x, y, z⟩ := ip
      obtain ⟨w', x', y', z'⟩ := ip'
      simp only [sortKey, List.cons.injEq, UInt8.toNat_inj, and_true, true_and] at h
      obtain ⟨rfl, rfl, rfl, rfl⟩ := h
      rfl
    | v6 ip' => simp [sortKey] at h
  | v6 ip =>
    cases b with
    | v4 ip' => simp [sortKey] at h
    | v6 ip' =>
      obtain ⟨segments, _⟩ := ip
      obtain ⟨segments', _⟩ := ip'
      simp only [sortKey, List.cons.injEq, true_and] at h
      have hsegments : segments = segments' :=
        List.map_injective_iff.mpr (fun _ _ => UInt16.toNat_inj.mp) h
      subst hsegments
      rfl

instance : LinearOrder AdmissionSource := LinearOrder.lift' sortKey sortKey_injective

end AdmissionSource

/-- `RateWindow` -/
structure RateWindow where
  start : Nat
  count : Nat
  limit : Nat
  deriving DecidableEq

namespace RateWindow

def new (now limit : Nat) : RateWindow := ⟨now, 0, limit⟩

/-- The window that an attempt at `now` falls into. -/
def turn (window : RateWindow) (now : Nat) : RateWindow :=
  if windowSeconds ≤ now - window.start then { window with start := now, count := 0 } else window

/-- Records one attempt: a window that is over starts again even when the attempt is refused. -/
def record (window : RateWindow) (now : Nat) : RateWindow × Result Unit :=
  let turned := window.turn now
  if turned.limit ≤ turned.count then (turned, .error (.overloaded "admission rate window"))
  else ({ turned with count := turned.count + 1 }, .ok ())

end RateWindow

/-- `SourceBucket` -/
structure SourceBucket where
  pending : Nat
  window : RateWindow
  lastSeen : Nat
  deriving DecidableEq

/-- `Inner`, the limiter shared by every accepted connection. -/
structure AdmissionLimiter where
  sources : SortedMap AdmissionSource SourceBucket
  globalPending : Nat
  globalWindow : RateWindow

namespace AdmissionLimiter

def new (now : Nat) : AdmissionLimiter := ⟨.empty, 0, .new now rateGlobal⟩

/-- Whether `evict_idle` removes the bucket. -/
def idle (now : Nat) (bucket : SourceBucket) : Bool :=
  bucket.pending = 0 && sourceIdleLifetime ≤ now - bucket.lastSeen

/-- `evict_idle` -/
def evictIdle (limiter : AdmissionLimiter) (now : Nat) : AdmissionLimiter :=
  let expired := (limiter.sources.toList.filter fun entry => idle now entry.2).map Prod.fst
  { limiter with sources := expired.foldl SortedMap.erase limiter.sources }

/-- The table has no place for a bucket of `source`. -/
def tableFull (limiter : AdmissionLimiter) (source : AdmissionSource) : Bool :=
  !limiter.sources.contains source && sourceBucketLimit ≤ limiter.sources.size

/-- A full table is cleared of idle buckets. -/
def makeRoom (limiter : AdmissionLimiter) (source : AdmissionSource) (now : Nat) :
    AdmissionLimiter :=
  if limiter.tableFull source then limiter.evictIdle now else limiter

/-- The bucket of `source`, which is new when there is none. -/
def bucketOf (limiter : AdmissionLimiter) (source : AdmissionSource) (now : Nat) : SourceBucket :=
  (limiter.sources.get source).getD ⟨0, .new now ratePerSource, now⟩

/-- The part of `begin` that works on the bucket of the source. -/
def beginSource (limiter : AdmissionLimiter) (source : AdmissionSource) (now : Nat) :
    AdmissionLimiter × Result Unit :=
  let bucket := limiter.bucketOf source now
  let (window, recorded) := bucket.window.record now
  let bucket := { bucket with lastSeen := now, window := window }
  match recorded with
  | .error e => ({ limiter with sources := limiter.sources.insert source bucket }, .error e)
  | .ok () =>
    if pendingPerSource ≤ bucket.pending then
      ({ limiter with sources := limiter.sources.insert source bucket },
        .error (.overloaded "admission source pending"))
    else
      ({ limiter with
          sources := limiter.sources.insert source { bucket with pending := bucket.pending + 1 }
          globalPending := limiter.globalPending + 1 }, .ok ())

/-- `AdmissionLimiter::begin`; `Ok` stands for the slot of the source. -/
def begin (limiter : AdmissionLimiter) (source : AdmissionSource) (now : Nat) :
    AdmissionLimiter × Result Unit :=
  let limiter := limiter.makeRoom source now
  if limiter.tableFull source then (limiter, .error (.overloaded "admission source buckets"))
  else
    let (window, recorded) := limiter.globalWindow.record now
    let limiter := { limiter with globalWindow := window }
    match recorded with
    | .error e => (limiter, .error e)
    | .ok () =>
      if pendingGlobal ≤ limiter.globalPending then
        (limiter, .error (.overloaded "admission global pending"))
      else limiter.beginSource source now

/-- `AdmissionSlot::drop`; the subtractions saturate. -/
def drop (limiter : AdmissionLimiter) (source : AdmissionSource) : AdmissionLimiter :=
  let limiter := { limiter with globalPending := limiter.globalPending - 1 }
  match limiter.sources.get source with
  | none => limiter
  | some bucket =>
    { limiter with
      sources := limiter.sources.insert source { bucket with pending := bucket.pending - 1 } }

end AdmissionLimiter

/-- An admitted attempt, with the windows of its source and of the node that counted it, each
    named by its start. -/
structure AdmittedAttempt where
  source : AdmissionSource
  time : Nat
  sourceStart : Nat
  globalStart : Nat
  deriving DecidableEq

/-- A limiter with the slots that are held, the last clock reading and the attempts admitted
    so far. -/
structure LimiterSystem where
  limiter : AdmissionLimiter
  slots : List AdmissionSource
  clock : Nat
  admitted : List AdmittedAttempt

namespace LimiterSystem

/-- The windows that have just counted an attempt of `source`. -/
def attemptOf (limiter : AdmissionLimiter) (source : AdmissionSource) (now : Nat) :
    AdmittedAttempt :=
  ⟨source, now, (limiter.bucketOf source now).window.start, limiter.globalWindow.start⟩

/-- A `begin` call of `source` at `now`. -/
def attempt (s : LimiterSystem) (source : AdmissionSource) (now : Nat) : LimiterSystem :=
  match s.limiter.begin source now with
  | (limiter, .error _) => ⟨limiter, s.slots, now, s.admitted⟩
  | (limiter, .ok ()) =>
    ⟨limiter, source :: s.slots, now, attemptOf limiter source now :: s.admitted⟩

/-- A slot of `source` is dropped. -/
def release (s : LimiterSystem) (source : AdmissionSource) : LimiterSystem :=
  { s with limiter := s.limiter.drop source, slots := s.slots.erase source }

inductive Step (s : LimiterSystem) : LimiterSystem → Prop where
  | attempt (source : AdmissionSource) (now : Nat) :
      s.clock ≤ now → Step s (s.attempt source now)
  | release (source : AdmissionSource) : source ∈ s.slots → Step s (s.release source)

/-- The runs of a limiter. -/
def runs : TransitionSystem LimiterSystem where
  init := fun s => ∃ now, s = ⟨.new now, [], now, []⟩
  next := Step

end LimiterSystem

end Radiata
