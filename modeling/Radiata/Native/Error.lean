import Radiata.ForStd.Except

/-!
# Errors

`src/error.rs`: the stable error categories, the provider-side projection of
them, and the error value every fallible operation returns. An error carries its
category and the fixed context text of its construction site.
-/

namespace Radiata

/-- A stable, secret-safe error category. -/
inductive ErrorKind where
  | invalidInput
  | conflict
  | notFound
  | notReady
  | notTrusted
  | revoked
  | unsupported
  | unsupportedSchema
  | unsupportedCapability
  | authenticationFailed
  | routeUnavailable
  | streamInterrupted
  | overloaded
  | resourceExhausted
  | storageLocked
  | storageCorrupt
  | permissionDenied
  | io
  | commitUnknown
  | cancelled
  | shuttingDown
  | internal
  deriving DecidableEq, Repr

/-- The closed set of categories a provider implementation may produce. -/
inductive ProviderErrorKind where
  | unsupported
  | unsupportedSchema
  | unsupportedCapability
  | commitUnknown
  | overloaded
  | resourceExhausted
  | storageLocked
  | storageCorrupt
  | permissionDenied
  | io
  | cancelled
  | internal
  deriving DecidableEq, Repr

/-- The provider operation an error arose in. -/
inductive ProviderErrorContext where
  | storageOpen
  | storageSnapshot
  | storageScan
  | storageCommit
  | storageReconcile
  | storageFlush
  | keyCreate
  | keyReconcile
  | keyPublicKey
  | keySign
  | keyDelete
  | entropy
  | transportBind
  | transportConnect
  | transportAccept
  | transportSend
  | transportReceive
  | transportClose
  | discovery
  | packetConsumer
  | neighborPolicy
  | loadBalancingPolicy
  | routingPolicy
  deriving DecidableEq, Repr

/-- Projects a provider category onto the core category of the same name. -/
def ProviderErrorKind.intoErrorKind : ProviderErrorKind → ErrorKind
  | .unsupported => .unsupported
  | .unsupportedSchema => .unsupportedSchema
  | .unsupportedCapability => .unsupportedCapability
  | .commitUnknown => .commitUnknown
  | .overloaded => .overloaded
  | .resourceExhausted => .resourceExhausted
  | .storageLocked => .storageLocked
  | .storageCorrupt => .storageCorrupt
  | .permissionDenied => .permissionDenied
  | .io => .io
  | .cancelled => .cancelled
  | .internal => .internal

/-- The context text of a provider operation. -/
def providerErrorContext : ProviderErrorContext → String
  | .storageOpen => "storage open"
  | .storageSnapshot => "storage snapshot"
  | .storageScan => "storage scan"
  | .storageCommit => "storage commit"
  | .storageReconcile => "storage reconcile"
  | .storageFlush => "storage flush"
  | .keyCreate => "key create"
  | .keyReconcile => "key reconcile"
  | .keyPublicKey => "key public key"
  | .keySign => "key sign"
  | .keyDelete => "key delete"
  | .entropy => "entropy"
  | .transportBind => "transport bind"
  | .transportConnect => "transport connect"
  | .transportAccept => "transport accept"
  | .transportSend => "transport send"
  | .transportReceive => "transport receive"
  | .transportClose => "transport close"
  | .discovery => "discovery"
  | .packetConsumer => "packet consumer"
  | .neighborPolicy => "neighbor policy"
  | .loadBalancingPolicy => "load balancing policy"
  | .routingPolicy => "routing policy"

/-- An error: its category and the text of its construction site. -/
structure Error where
  kind : ErrorKind
  context : String
  deriving DecidableEq, Repr

namespace Error

def provider (kind : ProviderErrorKind) (context : ProviderErrorContext) : Error :=
  ⟨kind.intoErrorKind, providerErrorContext context⟩

def invalidInput (context : String) : Error := ⟨.invalidInput, context⟩

def conflict (context : String) : Error := ⟨.conflict, context⟩

def unsupportedSchema (context : String) : Error := ⟨.unsupportedSchema, context⟩

def internal (context : String) : Error := ⟨.internal, context⟩

def resourceExhausted (context : String) : Error := ⟨.resourceExhausted, context⟩

def notReady (context : String) : Error := ⟨.notReady, context⟩

def notFound (context : String) : Error := ⟨.notFound, context⟩

def notTrusted (context : String) : Error := ⟨.notTrusted, context⟩

def authenticationFailed (context : String) : Error := ⟨.authenticationFailed, context⟩

def unsupported (context : String) : Error := ⟨.unsupported, context⟩

def routeUnavailable (context : String) : Error := ⟨.routeUnavailable, context⟩

def streamInterrupted (context : String) : Error := ⟨.streamInterrupted, context⟩

def overloaded (context : String) : Error := ⟨.overloaded, context⟩

def shuttingDown (context : String) : Error := ⟨.shuttingDown, context⟩

@[simp] theorem provider_kind (kind : ProviderErrorKind) (context : ProviderErrorContext) :
    (provider kind context).kind = kind.intoErrorKind := rfl

end Error

/-- The outcome of a fallible operation. -/
abbrev Result (α : Type) := Except Error α

instance {α : Type} [DecidableEq α] : DecidableEq (Result α)
  | .ok a, .ok b => decidable_of_iff (a = b) (by simp)
  | .error a, .error b => decidable_of_iff (a = b) (by simp)
  | .ok _, .error _ => isFalse (by simp)
  | .error _, .ok _ => isFalse (by simp)

namespace Result

/-- A bind succeeds exactly when both halves do. -/
theorem bind_eq_ok {α β : Type} {x : Result α} {f : α → Result β} {b : β} :
    (x >>= f) = .ok b ↔ ∃ a, x = .ok a ∧ f a = .ok b := Except.bind_eq_ok

@[simp] theorem pure_eq_ok {α : Type} (a : α) : (pure a : Result α) = .ok a := rfl

@[simp] theorem throw_eq_error {α : Type} (e : Error) : (throw e : Result α) = .error e := rfl

@[simp] theorem ok_bind {α β : Type} (a : α) (f : α → Result β) : (Except.ok a >>= f) = f a := rfl

@[simp] theorem error_bind {α β : Type} (e : Error) (f : α → Result β) :
    ((Except.error e : Result α) >>= f) = .error e := rfl

theorem toOption_eq_some {α : Type} {r : Result α} {a : α} :
    r.toOption = some a ↔ r = .ok a := by
  cases r <;> simp [Except.toOption]

theorem exists_of_isSome_toOption {α : Type} {r : Result α} (h : r.toOption.isSome = true) :
    ∃ a, r = .ok a := by
  obtain ⟨a, ha⟩ := Option.isSome_iff_exists.mp h
  exact ⟨a, toOption_eq_some.mp ha⟩

theorem exists_of_any_toOption {α : Type} {r : Result α} {p : α → Bool}
    (h : r.toOption.any p = true) : ∃ a, r = .ok a ∧ p a = true := by
  cases r with
  | ok a => exact ⟨a, rfl, h⟩
  | error e => cases h

/-- A traversal succeeds exactly when every element does, in order. -/
theorem mapM_eq_ok {α β : Type} {f : α → Result β} {xs : List α} {ys : List β} :
    xs.mapM f = .ok ys ↔ List.Forall₂ (fun x y => f x = .ok y) xs ys := Except.mapM_eq_ok

end Result

end Radiata
