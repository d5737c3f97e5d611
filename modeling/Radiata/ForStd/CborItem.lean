import Mathlib.Algebra.Order.BigOperators.Group.List
import Mathlib.Algebra.Order.Ring.Nat
import Mathlib.Data.List.Perm.Subperm
import Radiata.ForStd.Cbor

/-!
# CBOR items as trees

A derived encoder writes a value as one item: an integer, a string, a simple value, or
an array of items. `Item.encode` is that encoding and `Item.size` its length; an
encoding determines its item and where it ends, so an encoder that goes through
items is injective as soon as its translation to items is.

## Key results

- `Item.length_encode`: the length of an encoding
- `Item.encode_append_inj`: an encoding determines its item and what follows it
- `reads_fields` / `reads_vec` / `reads_option`: the readers of derived decoders
-/

namespace Cbor

/-- The length of the shortest-form header with argument `n`. -/
def headLen (n : Nat) : Nat :=
  if n < 24 then 1
  else if n < 2 ^ 8 then 2
  else if n < 2 ^ 16 then 3
  else if n < 2 ^ 32 then 5
  else 9

theorem length_head (major n : Nat) : (head major n).length = headLen n := by
  simp only [head, headLen]
  split
  · rfl
  split
  · simp
  split
  · simp
  split
  · simp
  · simp

theorem headLen_pos (n : Nat) : 0 < headLen n := by
  unfold headLen
  split
  · omega
  split
  · omega
  split
  · omega
  split <;> omega

theorem headLen_le_two {n : Nat} (h : n < 256) : headLen n ≤ 2 := by
  unfold headLen
  grind

theorem headLen_le_three {n : Nat} (h : n < 65536) : headLen n ≤ 3 := by
  unfold headLen
  grind

theorem headLen_le_nine (n : Nat) : headLen n ≤ 9 := by
  unfold headLen
  grind

/-- A header is not longer for a smaller argument. -/
theorem headLen_mono {m n : Nat} (h : m ≤ n) : headLen m ≤ headLen n := by
  unfold headLen
  grind

/-- Two headers with equal continuations are equal. -/
theorem head_append_inj {major major' n n' : Nat} {rest rest' : Bytes} (hmajor : major < 8)
    (hmajor' : major' < 8) (hn : n < 2 ^ 64) (hn' : n' < 2 ^ 64)
    (h : head major n ++ rest = head major' n' ++ rest') :
    major = major' ∧ n = n' ∧ rest = rest' := by
  have hsame : major = major' := by
    obtain ⟨info, tail, hinfo, hhead⟩ := head_eq_cons major n
    obtain ⟨info', tail', hinfo', hhead'⟩ := head_eq_cons major' n'
    rw [hhead, hhead', List.cons_append, List.cons_append] at h
    have hnat := congrArg UInt8.toNat (List.cons.inj h).1
    rw [toNat_initial hmajor (by omega), toNat_initial hmajor' (by omega)] at hnat
    omega
  subst hsame
  have hread := reads_header hmajor hn rest
  rw [h, reads_header hmajor hn' rest'] at hread
  obtain ⟨hvalue, hrest⟩ := Prod.mk.inj (Option.some.inj hread)
  exact ⟨rfl, hvalue.symm, hrest.symm⟩

def encodeBool (value : Bool) : Bytes := [if value then 0xF5 else 0xF4]
def encodeNull : Bytes := [0xF6]

/-! ## Items -/

inductive Item where
  | uint (n : UInt64)
  | bytes (value : Bytes)
  | text (value : Bytes)
  | array (items : List Item)
  | bool (value : Bool)
  | null

namespace Item

mutual

def encode : Item → Bytes
  | uint n => encodeU64 n
  | bytes value => encodeBytes value
  | text value => encodeStr value
  | array items => encodeArray items.length ++ encodeAll items
  | bool value => encodeBool value
  | null => encodeNull

def encodeAll : List Item → Bytes
  | [] => []
  | item :: items => item.encode ++ encodeAll items

end

mutual

/-- The length of an encoding. -/
def size : Item → Nat
  | uint n => headLen n.toNat
  | bytes value => headLen value.length + value.length
  | text value => headLen value.length + value.length
  | array items => headLen items.length + sizeAll items
  | bool _ => 1
  | null => 1

def sizeAll : List Item → Nat
  | [] => 0
  | item :: items => item.size + sizeAll items

end

mutual

theorem length_encode (item : Item) : item.encode.length = item.size := by
  cases item with
  | uint n => simp only [encode, size, encodeU64, length_head]
  | bytes value => simp only [encode, size, encodeBytes, List.length_append, length_head]
  | text value => simp only [encode, size, encodeStr, List.length_append, length_head]
  | array items =>
    simp only [encode, size, encodeArray, List.length_append, length_head, length_encodeAll items]
  | bool value => rfl
  | null => rfl

theorem length_encodeAll (items : List Item) : (encodeAll items).length = sizeAll items := by
  cases items with
  | nil => rfl
  | cons item items =>
    simp only [encodeAll, sizeAll, List.length_append, length_encode item, length_encodeAll items]

end

theorem size_pos (item : Item) : 0 < item.size := by
  cases item with
  | uint n => exact headLen_pos _
  | bytes value => exact Nat.lt_of_lt_of_le (headLen_pos _) (Nat.le_add_right _ _)
  | text value => exact Nat.lt_of_lt_of_le (headLen_pos _) (Nat.le_add_right _ _)
  | array items => exact Nat.lt_of_lt_of_le (headLen_pos _) (Nat.le_add_right _ _)
  | bool value => exact Nat.one_pos
  | null => exact Nat.one_pos

theorem length_le_sizeAll (items : List Item) : items.length ≤ sizeAll items := by
  induction items with
  | nil => exact Nat.le_refl 0
  | cons item items ih =>
    have hitem := item.size_pos
    simp only [List.length_cons, sizeAll]
    omega

theorem encodeAll_append (items items' : List Item) :
    encodeAll (items ++ items') = encodeAll items ++ encodeAll items' := by
  induction items with
  | nil => rfl
  | cons item items ih => rw [List.cons_append, encodeAll, encodeAll, ih, List.append_assoc]

theorem sizeAll_append (items items' : List Item) :
    sizeAll (items ++ items') = sizeAll items + sizeAll items' := by
  simp only [← length_encodeAll, encodeAll_append, List.length_append]

theorem encodeAll_map {α : Type} (toItem : α → Item) (values : List α) :
    encodeAll (values.map toItem) = values.flatMap fun value => (toItem value).encode := by
  induction values with
  | nil => rfl
  | cons value values ih => rw [List.map_cons, encodeAll, ih, List.flatMap_cons]

theorem sizeAll_map {α : Type} (toItem : α → Item) (values : List α) :
    sizeAll (values.map toItem) = (values.map fun value => (toItem value).size).sum := by
  induction values with
  | nil => rfl
  | cons value values ih => rw [List.map_cons, sizeAll, ih, List.map_cons, List.sum_cons]

theorem size_le_of_mem {item : Item} {items : List Item} (h : item ∈ items) :
    item.size ≤ sizeAll items := by
  induction items with
  | nil => cases h
  | cons first items ih =>
    simp only [sizeAll]
    rcases List.mem_cons.mp h with rfl | h
    · omega
    · have := ih h
      omega

theorem sizeAll_le {items : List Item} {bound : Nat} (h : ∀ item ∈ items, item.size ≤ bound) :
    sizeAll items ≤ items.length * bound := by
  induction items with
  | nil => simp [sizeAll]
  | cons first items ih =>
    have hfirst := h first (List.mem_cons_self ..)
    have hrest := ih fun item hitem => h item (List.mem_cons_of_mem first hitem)
    rw [sizeAll, List.length_cons, Nat.succ_mul]
    omega

/-- The items of distinct values take at least their own room in a row that holds them. -/
theorem mul_le_sizeAll {α : Type} {toItem : α → Item} {values some : List α} {bound : Nat}
    (hnodup : some.Nodup) (hsub : some ⊆ values) (h : ∀ value ∈ some, bound ≤ (toItem value).size) :
    some.length * bound ≤ sizeAll (values.map toItem) := by
  have hperm := hnodup.subperm hsub
  obtain ⟨l, hl, hsublist⟩ := hperm
  have hle : sizeAll (l.map toItem) ≤ sizeAll (values.map toItem) := by
    rw [sizeAll_map, sizeAll_map]
    exact (hsublist.map _).sum_le_sum (fun _ _ => Nat.zero_le _)
  have hsum : some.length * bound ≤ sizeAll (l.map toItem) := by
    rw [sizeAll_map, (hl.map _).sum_eq]
    have hall := List.card_nsmul_le_sum (some.map fun value => (toItem value).size) bound (by
      intro size hsize
      obtain ⟨value, hvalue, rfl⟩ := List.mem_map.mp hsize
      exact h value hvalue)
    simpa using hall
  omega

theorem size_text_le {value : Bytes} {n : Nat} (h : value.length ≤ n) :
    (text value).size ≤ headLen n + n := by
  have := headLen_mono h
  simp only [size]
  omega

theorem size_array_map_le {α : Type} {toItem : α → Item} {values : List α} {n bound : Nat}
    (hlen : values.length ≤ n) (h : ∀ value ∈ values, (toItem value).size ≤ bound) :
    (array (values.map toItem)).size ≤ headLen n + n * bound := by
  have hall : sizeAll (values.map toItem) ≤ (values.map toItem).length * bound := by
    refine sizeAll_le ?_
    intro item hitem
    obtain ⟨value, hvalue, rfl⟩ := List.mem_map.mp hitem
    exact h value hvalue
  rw [List.length_map] at hall
  have hhead := headLen_mono hlen
  have hmul := Nat.mul_le_mul_right bound hlen
  simp only [size, List.length_map]
  omega

/-! ## Encodings are uniquely readable -/

/-- The major type in the initial byte. -/
def major : Item → Nat
  | uint _ => 0
  | bytes _ => 2
  | text _ => 3
  | array _ => 4
  | bool _ => 7
  | null => 7

private theorem head?_head_append {m n : Nat} (hm : m < 8) (rest : Bytes) :
    (head m n ++ rest).head?.map (fun b => b.toNat / 32) = some m := by
  obtain ⟨info, tail, hinfo, hhead⟩ := head_eq_cons m n
  rw [hhead, List.cons_append, List.head?_cons, Option.map_some, toNat_initial hm (by omega)]
  congr 1
  omega

theorem head?_encode_append (item : Item) (rest : Bytes) :
    (item.encode ++ rest).head?.map (fun b => b.toNat / 32) = some item.major := by
  cases item with
  | uint n => exact head?_head_append (by omega) rest
  | bytes value =>
    rw [encode, encodeBytes, List.append_assoc]
    exact head?_head_append (by omega) _
  | text value =>
    rw [encode, encodeStr, List.append_assoc]
    exact head?_head_append (by omega) _
  | array items =>
    rw [encode, encodeArray, List.append_assoc]
    exact head?_head_append (by omega) _
  | bool value => cases value <;> rfl
  | null => rfl

private theorem major_eq_of_append_eq {a b : Item} {rest rest' : Bytes}
    (h : a.encode ++ rest = b.encode ++ rest') : a.major = b.major := by
  have ha := head?_encode_append a rest
  rw [h, head?_encode_append] at ha
  exact (Option.some.inj ha).symm

/-- A string after its header. -/
private theorem string_append_inj {m : Nat} {x y rest rest' : Bytes} (hm : m < 8)
    (hx : x.length < 2 ^ 64) (hy : y.length < 2 ^ 64)
    (h : head m x.length ++ x ++ rest = head m y.length ++ y ++ rest') : x = y ∧ rest = rest' := by
  rw [List.append_assoc, List.append_assoc] at h
  obtain ⟨-, hlen, hrest⟩ := head_append_inj hm hm hx hy h
  exact List.append_inj hrest hlen

mutual

/-- An encoding determines its item and what follows it. -/
theorem encode_append_inj {a b : Item} {rest rest' : Bytes} (ha : a.size < 2 ^ 64)
    (hb : b.size < 2 ^ 64) (h : a.encode ++ rest = b.encode ++ rest') : a = b ∧ rest = rest' := by
  have hmajor := major_eq_of_append_eq h
  cases a with
  | uint n =>
    cases b with
    | uint n' =>
      obtain ⟨-, hn, hrest⟩ := head_append_inj (by omega) (by omega) n.toNat_lt n'.toNat_lt h
      exact ⟨congrArg uint (UInt64.toNat_inj.mp hn), hrest⟩
    | bytes _ => cases hmajor
    | text _ => cases hmajor
    | array _ => cases hmajor
    | bool _ => cases hmajor
    | null => cases hmajor
  | bytes value =>
    cases b with
    | bytes value' =>
      simp only [size] at ha hb
      obtain ⟨rfl, hrest⟩ := string_append_inj (by omega) (by omega) (by omega) h
      exact ⟨rfl, hrest⟩
    | uint _ => cases hmajor
    | text _ => cases hmajor
    | array _ => cases hmajor
    | bool _ => cases hmajor
    | null => cases hmajor
  | text value =>
    cases b with
    | text value' =>
      simp only [size] at ha hb
      obtain ⟨rfl, hrest⟩ := string_append_inj (by omega) (by omega) (by omega) h
      exact ⟨rfl, hrest⟩
    | uint _ => cases hmajor
    | bytes _ => cases hmajor
    | array _ => cases hmajor
    | bool _ => cases hmajor
    | null => cases hmajor
  | array items =>
    cases b with
    | array items' =>
      simp only [size] at ha hb
      have hcount := length_le_sizeAll items
      have hcount' := length_le_sizeAll items'
      simp only [encode, encodeArray, List.append_assoc] at h
      obtain ⟨-, hlen, hrest⟩ :=
        head_append_inj (by omega) (by omega) (by omega) (by omega) h
      obtain ⟨rfl, htail⟩ := encodeAll_append_inj hlen (by omega) (by omega) hrest
      exact ⟨rfl, htail⟩
    | uint _ => cases hmajor
    | bytes _ => cases hmajor
    | text _ => cases hmajor
    | bool _ => cases hmajor
    | null => cases hmajor
  | bool value =>
    cases b with
    | bool value' =>
      obtain ⟨hbyte, hrest⟩ := List.cons.inj h
      cases value <;> cases value' <;> first | exact ⟨rfl, hrest⟩ | exact absurd hbyte (by decide)
    | null =>
      obtain ⟨hbyte, -⟩ := List.cons.inj h
      cases value <;> exact absurd hbyte (by decide)
    | uint _ => cases hmajor
    | bytes _ => cases hmajor
    | text _ => cases hmajor
    | array _ => cases hmajor
  | null =>
    cases b with
    | null => exact ⟨rfl, (List.cons.inj h).2⟩
    | bool value =>
      obtain ⟨hbyte, -⟩ := List.cons.inj h
      cases value <;> exact absurd hbyte (by decide)
    | uint _ => cases hmajor
    | bytes _ => cases hmajor
    | text _ => cases hmajor
    | array _ => cases hmajor

theorem encodeAll_append_inj {as bs : List Item} {rest rest' : Bytes}
    (hlen : as.length = bs.length) (ha : sizeAll as < 2 ^ 64) (hb : sizeAll bs < 2 ^ 64)
    (h : encodeAll as ++ rest = encodeAll bs ++ rest') : as = bs ∧ rest = rest' := by
  cases as with
  | nil =>
    cases bs with
    | nil => exact ⟨rfl, h⟩
    | cons b bs => cases hlen
  | cons a as =>
    cases bs with
    | nil => cases hlen
    | cons b bs =>
      simp only [sizeAll] at ha hb
      simp only [encodeAll, List.append_assoc] at h
      obtain ⟨rfl, hrest⟩ := encode_append_inj (by omega) (by omega) h
      obtain ⟨rfl, htail⟩ := encodeAll_append_inj (Nat.succ.inj hlen) (by omega) (by omega) hrest
      exact ⟨rfl, htail⟩

end

theorem encode_inj {a b : Item} (ha : a.size < 2 ^ 64) (h : a.encode = b.encode) : a = b := by
  have hb : b.size < 2 ^ 64 := by rwa [← length_encode, ← h, length_encode]
  exact (encode_append_inj ha hb (congrArg (· ++ []) h)).1

/-- The item of an optional value: `null` without one. -/
def option {α : Type} (toItem : α → Item) : Option α → Item
  | none => null
  | some a => toItem a

end Item

/-! ## Readers of derived decoders -/

section Readers

variable {α : Type}

/-- The derived decoder of an array of `count` fields: missing fields fail and further
    items are skipped. -/
def decodeFields (count : Nat) (fields : Reader α) : Reader α := do
  let some length ← decodeArray | failure
  if length < count then failure
  let a ← fields
  skip (length - count)
  return a

/-- The decoder of a vector: an array of items of one kind. -/
def decodeVec (item : Reader α) : Reader (List α) := do
  let some length ← decodeArray | failure
  Reader.times item length

/-- The decoder of an optional value: `null` or the value. -/
def decodeOption (item : Reader α) : Reader (Option α) := fun input =>
  match input with
  | [] => none
  | b :: rest => if b = 0xF6 then some (none, rest) else (some <$> item) input

def decodeBool : Reader Bool := do
  let b ← Reader.byte
  if b = 0xF4 then pure false
  else if b = 0xF5 then pure true
  else failure

/-- An unsigned integer of a narrower type. -/
def decodeUIntBelow (bound : UInt64) : Reader UInt64 := do
  let value ← decodeU64
  if value < bound then pure value else failure

theorem reads_uintBelow {bound value : UInt64} (h : value < bound) :
    Reader.Reads (decodeUIntBelow bound) (encodeU64 value) value := by
  refine (reads_u64 value).bind_nil ?_
  rw [if_pos h]
  exact Reader.Reads.pure value

theorem reads_fields {count : Nat} {fields : Reader α} {bytes : Bytes} {a : α}
    (hcount : count < 2 ^ 64) (h : Reader.Reads fields bytes a) :
    Reader.Reads (decodeFields count fields) (encodeArray count ++ bytes) a := by
  refine (reads_array hcount).bind ?_
  show Reader.Reads (do
    if count < count then failure
    let a ← fields
    skip (count - count)
    return a) bytes a
  rw [if_neg (Nat.lt_irrefl count), Nat.sub_self]
  refine h.bind_nil ?_
  exact reads_skip_zero.bind_nil (Reader.Reads.pure a)

theorem reads_vec {item : Reader α} {encode : α → Bytes} {items : List α}
    (hcount : items.length < 2 ^ 64) (h : ∀ a ∈ items, Reader.Reads item (encode a) a) :
    Reader.Reads (decodeVec item) (encodeArray items.length ++ items.flatMap encode) items :=
  (reads_array hcount).bind (Reader.Reads.times h)

/-- A row of items that are read one by one. -/
theorem reads_items {item : Reader α} {toItem : α → Item} {values : List α}
    (hcount : values.length < 2 ^ 64) (h : ∀ a ∈ values, Reader.Reads item (toItem a).encode a) :
    Reader.Reads (decodeVec item) (Item.array (values.map toItem)).encode values := by
  have hitem : (Item.array (values.map toItem)).encode =
      encodeArray values.length ++ values.flatMap fun a => (toItem a).encode := by
    rw [Item.encode, Item.encodeAll_map, List.length_map]
  rw [hitem]
  exact reads_vec hcount h

theorem reads_bool (value : Bool) : Reader.Reads decodeBool (encodeBool value) value := by
  intro rest
  cases value <;> rfl

/-- An optional value that is present is told apart from `null` by its initial byte. -/
theorem reads_option {item : Reader α} {toItem : α → Item} (value : Option α)
    (hmajor : ∀ a, (toItem a).major ≠ 7)
    (h : ∀ a ∈ value, Reader.Reads item (toItem a).encode a) :
    Reader.Reads (decodeOption item) (Item.option toItem value).encode value := by
  intro rest
  cases value with
  | none => rfl
  | some a =>
    have hread := (h a rfl).map (f := some) rest
    have hfirst := (toItem a).head?_encode_append rest
    show decodeOption item ((toItem a).encode ++ rest) = some (some a, rest)
    cases hbytes : (toItem a).encode ++ rest with
    | nil => rw [hbytes] at hfirst; cases hfirst
    | cons b tail =>
      rw [hbytes] at hfirst hread
      have hb : b ≠ 0xF6 := by
        intro heq
        rw [heq] at hfirst
        exact hmajor a (Option.some.inj hfirst).symm
      show (if b = 0xF6 then some (none, tail) else (some <$> item) (b :: tail)) = _
      rw [if_neg hb]
      exact hread

end Readers

end Cbor
