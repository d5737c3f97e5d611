import Radiata.ForStd.Bytes
import Radiata.Native.Error

/-!
# Keyset-cursor paging

`src/paging.rs`: the loop that membership pages, resource pages, candidate reads and the
public paged views share, and its twin over tables in memory. A scan is the list of the
entries it still has to return, in key order; a cursor is the last key a page has
processed.
-/

namespace Radiata

/-- One page of items and its continuation cursor. -/
structure Paged (τ : Type) where
  items : List τ
  next : Option Bytes
  deriving DecidableEq

/-- `key <= cursor`, for a page that resumes. -/
def skipped (cursor : Option Bytes) (key : Bytes) : Bool :=
  match cursor with
  | some cursor => key ≤ cursor
  | none => false

/-- The loop of `scan_paged`, with the items collected so far. -/
def scanLoop {τ : Type} (cursor : Option Bytes) (limit : Nat)
    (select : Bytes → Bytes → Result (Option τ)) :
    List (Bytes × Bytes) → List τ → Result (Paged τ)
  | [], items => .ok ⟨items, none⟩
  | (key, value) :: scan, items =>
    if skipped cursor key then scanLoop cursor limit select scan items
    else do
      match ← select key value with
      | none => scanLoop cursor limit select scan items
      | some item =>
        let items := items ++ [item]
        if items.length ≥ limit then
          -- one entry is peeked at; the next page reads it again
          let hasMore := scan.head?.isSome
          return ⟨items, if hasMore then some key else none⟩
        else scanLoop cursor limit select scan items

/-- Up to `limit` items past the cursor; `select` answers `none` for an entry that is left
    out without counting. -/
def scanPaged {τ : Type} (scan : List (Bytes × Bytes)) (cursor : Option Bytes) (limit : Nat)
    (select : Bytes → Bytes → Result (Option τ)) : Result (Paged τ) :=
  scanLoop cursor limit select scan []

/-- The loop of `page_keys`. -/
def keysLoop {τ : Type} (cursor : Option Bytes) (limit : Nat) :
    List (Bytes × τ) → List τ → Paged τ
  | [], items => ⟨items, none⟩
  | (key, item) :: entries, items =>
    if skipped cursor key then keysLoop cursor limit entries items
    else
      let items := items ++ [item]
      if items.length ≥ limit then
        let hasMore := entries.head?.isSome
        ⟨items, if hasMore then some key else none⟩
      else keysLoop cursor limit entries items

/-- The synchronous twin of `scan_paged` over items that are decoded already. -/
def pageKeys {τ : Type} (entries : List (Bytes × τ)) (cursor : Option Bytes) (limit : Nat) : Paged τ :=
  keysLoop cursor limit entries []

end Radiata
