import Radiata.ForStd.Saturating
import Radiata.Native.Identity
import Mathlib.Data.Finset.Sort

/-!
# The recovery controller

`src/membership/recovery.rs`: the state machine that retries known online members
without an authenticated path. The caller feeds it observations and wall-clock seconds;
it decides when a cycle is due and which candidates the cycle dials. A `BTreeSet` is a
finite set that is read in the order of the ids.
-/

namespace Radiata

structure RecoveryPolicy where
  neighbors : Nat
  fanOut : Nat
  initialBackoff : UInt64
  maximumBackoff : UInt64

inductive RecoveryState where
  | idle
  | recovering
  | connected
  deriving DecidableEq

/-- One recovery cycle decision. -/
structure RecoveryStep where
  targets : List NodeId
  backoffSeconds : UInt64

structure RecoveryController where
  policy : RecoveryPolicy
  state : RecoveryState
  attempts : UInt64
  lastAttemptAt : UInt64
  pending : Finset NodeId

namespace RecoveryController

def new (policy : RecoveryPolicy) : RecoveryController where
  policy := policy
  state := .idle
  attempts := 0
  lastAttemptAt := 0
  pending := ∅

/-- Which members are known online and which are reachable. -/
def observe (self : RecoveryController) (online reachable : Finset NodeId) : RecoveryController :=
  let unreachable := online \ reachable
  if unreachable = ∅ then
    { self with
      state := if self.state ≠ .idle then .connected else self.state
      pending := ∅ }
  else
    let self := { self with pending := unreachable }
    if self.state = .idle ∨ self.state = .connected then
      { self with state := .recovering, attempts := 0 }
    else self

/-- The doubled backoff, up to the maximum. -/
def cappedBackoff (self : RecoveryController) : UInt64 :=
  let exponent := self.attempts.atMost 16
  let doubled := self.policy.initialBackoff.saturatingMul (1 <<< exponent)
  doubled.atMost self.policy.maximumBackoff

def backoffSeconds (self : RecoveryController) (now : UInt64) : UInt64 :=
  if (self.lastAttemptAt.saturatingAdd self.cappedBackoff).toNat ≤ now.toNat then
    -- the deadline is already due
    0
  else self.cappedBackoff

/-- Whether a cycle runs now. -/
def due (self : RecoveryController) (now : UInt64) : Bool :=
  if self.state ≠ .recovering then false
  else (self.lastAttemptAt.saturatingAdd (self.backoffSeconds now)).toNat ≤ now.toNat

/-- The next cycle: a bounded number of candidates, and the backoff before it. -/
def nextStep (self : RecoveryController) (now : UInt64) (candidates : Finset NodeId) :
    RecoveryStep × RecoveryController :=
  let backoff := self.backoffSeconds now
  let targets := (candidates.sort (· ≤ ·)).take (max self.policy.fanOut 1)
  (⟨targets, backoff⟩,
    { self with lastAttemptAt := now, attempts := self.attempts.saturatingAdd 1 })

/-- The command that forces one cycle. -/
def immediate (self : RecoveryController) (now : UInt64) : RecoveryController :=
  if self.pending = ∅ ∧ self.state ≠ .recovering then self
  else { self with state := .recovering, lastAttemptAt := now.saturatingSub 1 }

end RecoveryController

end Radiata
