import Radiata.ForStd.Bytes

/-!
# Readers

A reader consumes a front part of its input; `Reads r bytes a` says that `r` reads the
item `bytes` as `a` whatever follows, and `Reads` composes along `bind`.

## Key results

- `Reader.Reads.bind`: what two readers read, their sequence reads
- `Reader.Reads.times`: a reader that reads every item reads a row of them
-/

/-- A reader takes a front part of its input. -/
abbrev Reader (α : Type) := StateT Bytes Option α

namespace Reader

variable {α β : Type}

/-- `r` reads the front part `bytes` as `a`, whatever follows it. -/
def Reads (r : Reader α) (bytes : Bytes) (a : α) : Prop :=
  ∀ rest, r (bytes ++ rest) = some (a, rest)

theorem Reads.pure (a : α) : Reads (Pure.pure a : Reader α) [] a := by
  intro rest
  rfl

variable {r : Reader α}

theorem Reads.bind {f : α → Reader β} {first second : Bytes} {a : α} {b : β}
    (hr : Reads r first a) (hf : Reads (f a) second b) :
    Reads (r >>= f) (first ++ second) b := by
  intro rest
  rw [List.append_assoc]
  show (r (first ++ (second ++ rest)) >>= fun x => f x.1 x.2) = some (b, rest)
  rw [hr]
  exact hf rest

/-- A continuation that reads nothing. -/
theorem Reads.bind_nil {f : α → Reader β} {bytes : Bytes} {a : α} {b : β} (hr : Reads r bytes a)
    (hf : Reads (f a) [] b) : Reads (r >>= f) bytes b := by
  have h := hr.bind hf
  rwa [List.append_nil] at h

theorem Reads.map {f : α → β} {bytes : Bytes} {a : α} (hr : Reads r bytes a) :
    Reads (f <$> r) bytes (f a) := by
  intro rest
  show (r (bytes ++ rest) >>= fun x => some (f x.1, x.2)) = some (f a, rest)
  rw [hr]
  rfl

/-- Read `n` items in a row. -/
def times (r : Reader α) : Nat → Reader (List α)
  | 0 => Pure.pure []
  | n + 1 => do
    let a ← r
    let rest ← times r n
    return a :: rest

theorem Reads.times {encode : α → Bytes} {items : List α} (h : ∀ a ∈ items, Reads r (encode a) a) :
    Reads (times r items.length) (items.flatMap encode) items := by
  induction items with
  | nil => exact Reads.pure []
  | cons a items ih =>
    have hrest : Reads (Reader.times r items.length) (items.flatMap encode) items :=
      ih (fun b hb => h b (List.mem_cons_of_mem a hb))
    rw [List.flatMap_cons]
    refine (h a (List.mem_cons_self ..)).bind ?_
    exact hrest.bind_nil (Reads.pure (a :: items))

/-- Take one byte. -/
def byte : Reader UInt8
  | [] => none
  | b :: rest => some (b, rest)

/-- Take `n` bytes. -/
def take (n : Nat) : Reader Bytes := fun input =>
  if n ≤ input.length then some (input.take n, input.drop n) else none

theorem reads_take (bytes : Bytes) : Reads (take bytes.length) bytes bytes := by
  intro rest
  simp [take]

/-- A reader that took a front part leaves the rest. -/
theorem take_eq_some {n : Nat} {input bytes rest : Bytes}
    (h : take n input = some (bytes, rest)) : input = bytes ++ rest ∧ bytes.length = n := by
  simp only [take] at h
  split at h
  · rename_i hle
    cases h
    exact ⟨(List.take_append_drop n input).symm, by simp [hle]⟩
  · cases h

end Reader
