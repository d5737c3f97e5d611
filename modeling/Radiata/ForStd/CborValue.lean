import Radiata.ForStd.CborItem

/-!
# Deterministic CBOR

The values of RFC 8949 without tags and floats, and their deterministic encoding: definite
lengths, shortest-form arguments, map keys in ascending order of their encodings. Every
encoding is a header (a major type and an argument) and what the header announces, so an
encoding determines its value and where it ends.

## Key results

- `head_of_shortest`: a header that is read with its shortest length is the encoded one
- `Value.encode_eq`: an encoding is a header and its payload
- `Value.encode_append_inj`: an encoding determines its value and what follows it
-/

namespace Cbor

/-! ## Reading shortest headers -/

theorem initial_div_mod (b : UInt8) : initial (b.toNat / 32) (b.toNat % 32) = b := by
  rw [initial, show b.toNat / 32 * 32 + b.toNat % 32 = b.toNat by omega, UInt8.ofNat_toNat]

/-- An argument is the additional information or the bytes after it. -/
theorem argument_eq_some {info value : Nat} {rest rest' : Bytes}
    (h : argument info rest = some (value, rest')) :
    (info < 24 ∧ value = info ∧ rest' = rest) ∨
      ∃ bytes, (info, bytes.length) ∈ [(24, 1), (25, 2), (26, 4), (27, 8)] ∧
        rest = bytes ++ rest' ∧ value = Bytes.ofBE bytes := by
  have htake : ∀ width, (Bytes.ofBE <$> Reader.take width : Reader Nat) rest = some (value, rest') →
      ∃ bytes, bytes.length = width ∧ rest = bytes ++ rest' ∧ value = Bytes.ofBE bytes := by
    intro width hread
    change (Reader.take width rest >>= fun x => some (Bytes.ofBE x.1, x.2)) = some (value, rest')
      at hread
    obtain ⟨⟨bytes, last⟩, hbytes, hpair⟩ := Option.bind_eq_some_iff.mp hread
    cases hpair
    obtain ⟨hsplit, hlength⟩ := Reader.take_eq_some hbytes
    exact ⟨bytes, hlength, hsplit, rfl⟩
  unfold argument at h
  split at h
  · rename_i hinfo
    cases h
    exact Or.inl ⟨hinfo, rfl, rfl⟩
  right
  split at h
  · rename_i hinfo
    obtain ⟨bytes, hlength, hsplit, hvalue⟩ := htake 1 h
    exact ⟨bytes, by simp [hinfo, hlength], hsplit, hvalue⟩
  split at h
  · rename_i hinfo
    obtain ⟨bytes, hlength, hsplit, hvalue⟩ := htake 2 h
    exact ⟨bytes, by simp [hinfo, hlength], hsplit, hvalue⟩
  split at h
  · rename_i hinfo
    obtain ⟨bytes, hlength, hsplit, hvalue⟩ := htake 4 h
    exact ⟨bytes, by simp [hinfo, hlength], hsplit, hvalue⟩
  split at h
  · rename_i hinfo
    obtain ⟨bytes, hlength, hsplit, hvalue⟩ := htake 8 h
    exact ⟨bytes, by simp [hinfo, hlength], hsplit, hvalue⟩
  · cases h

/-- A header that is read with its shortest length is the encoded one. -/
theorem head_of_shortest {b : UInt8} {value : Nat} {rest rest' : Bytes}
    (h : argument (b.toNat % 32) rest = some (value, rest'))
    (hlen : 1 + (rest.length - rest'.length) = headLen value) :
    b :: rest = head (b.toNat / 32) value ++ rest' ∧ value < 2 ^ 64 := by
  have hinitial := initial_div_mod b
  rcases argument_eq_some h with ⟨hinfo, rfl, rfl⟩ | ⟨bytes, hwidth, rfl, rfl⟩
  · refine ⟨?_, by omega⟩
    rw [head, if_pos hinfo, hinitial]
    rfl
  · have hbound := Bytes.ofBE_lt bytes
    have hback := Bytes.toBE_ofBE bytes
    simp only [List.length_append, Nat.add_sub_cancel] at hlen
    simp only [List.mem_cons, Prod.mk.injEq, List.not_mem_nil, or_false] at hwidth
    -- the shortest length leaves one range for the argument, and the header is written for it
    rcases hwidth with ⟨hinfo, hw⟩ | ⟨hinfo, hw⟩ | ⟨hinfo, hw⟩ | ⟨hinfo, hw⟩ <;>
      rw [hw] at hlen hback hbound <;> rw [hinfo] at hinitial <;>
      refine ⟨?_, by omega⟩ <;> unfold headLen at hlen <;> unfold head <;>
      split_ifs at hlen ⊢ <;> first | omega | (rw [hinitial, hback]; rfl)

theorem reads_map {length : Nat} (h : length < 2 ^ 64) :
    Reader.Reads decodeMap (head 5 length) (some length) := by
  intro rest
  have hheader : Reader.Reads (header 5) (head 5 length) length := reads_header (by omega) h
  have hread := hheader.map (f := some) rest
  obtain ⟨info, argumentBytes, hinfo, hhead⟩ := head_eq_cons 5 length
  have hdefinite : initial 5 info ≠ 0xBF := by
    intro heq
    have hnat : (initial 5 info).toNat = 5 * 32 + info := toNat_initial (by omega) (by omega)
    rw [heq] at hnat
    simp only [UInt8.reduceToNat] at hnat
    omega
  rw [hhead] at hread ⊢
  show (if initial 5 info = 0xBF then some (none, argumentBytes ++ rest)
    else (some <$> header 5) (initial 5 info :: (argumentBytes ++ rest))) = some (some length, rest)
  rw [if_neg hdefinite]
  exact hread

/-! ## Values -/

/-- A value; `nint n` is the integer `-1 - n`. -/
inductive Value where
  | uint (n : UInt64)
  | nint (n : UInt64)
  | bytes (value : Bytes)
  | text (value : Bytes)
  | array (items : List Value)
  | map (entries : List (Value × Value))
  | bool (value : Bool)
  | null

namespace Value

mutual

/-- The deterministic encoding. -/
def encode : Value → Bytes
  | uint n => head 0 n.toNat
  | nint n => head 1 n.toNat
  | bytes value => head 2 value.length ++ value
  | text value => head 3 value.length ++ value
  | array items => head 4 items.length ++ encodeAll items
  | map entries => head 5 entries.length ++ encodeEntries entries
  | bool value => head 7 (if value then 21 else 20)
  | null => head 7 22

def encodeAll : List Value → Bytes
  | [] => []
  | item :: items => item.encode ++ encodeAll items

def encodeEntries : List (Value × Value) → Bytes
  | [] => []
  | (key, value) :: entries => key.encode ++ (value.encode ++ encodeEntries entries)

end

mutual

/-- The lengths fit an argument, texts are UTF-8, and the encoded keys of every map ascend
    strictly. -/
def Deterministic : Value → Prop
  | bytes value => value.length < 2 ^ 64
  | text value => value.length < 2 ^ 64 ∧ value.isUtf8 = true
  | array items => items.length < 2 ^ 64 ∧ DeterministicAll items
  | map entries => entries.length < 2 ^ 64 ∧
      (entries.map fun entry => entry.1.encode).IsChain (· < ·) ∧ DeterministicEntries entries
  | _ => True

def DeterministicAll : List Value → Prop
  | [] => True
  | item :: items => item.Deterministic ∧ DeterministicAll items

def DeterministicEntries : List (Value × Value) → Prop
  | [] => True
  | (key, value) :: entries =>
    key.Deterministic ∧ value.Deterministic ∧ DeterministicEntries entries

end

mutual

/-- The number of nested containers. -/
def depth : Value → Nat
  | array items => depthAll items + 1
  | map entries => depthEntries entries + 1
  | _ => 0

def depthAll : List Value → Nat
  | [] => 0
  | item :: items => max item.depth (depthAll items)

def depthEntries : List (Value × Value) → Nat
  | [] => 0
  | (key, value) :: entries => max key.depth (max value.depth (depthEntries entries))

end

mutual

/-- The largest number of items in one container. -/
def width : Value → Nat
  | array items => max items.length (widthAll items)
  | map entries => max entries.length (widthEntries entries)
  | _ => 0

def widthAll : List Value → Nat
  | [] => 0
  | item :: items => max item.width (widthAll items)

def widthEntries : List (Value × Value) → Nat
  | [] => 0
  | (key, value) :: entries => max key.width (max value.width (widthEntries entries))

end

/-! ## Headers -/

def major : Value → Nat
  | uint _ => 0
  | nint _ => 1
  | bytes _ => 2
  | text _ => 3
  | array _ => 4
  | map _ => 5
  | bool _ => 7
  | null => 7

def argument : Value → Nat
  | uint n => n.toNat
  | nint n => n.toNat
  | bytes value => value.length
  | text value => value.length
  | array items => items.length
  | map entries => entries.length
  | bool value => if value then 21 else 20
  | null => 22

/-- What follows the header. -/
def payload : Value → Bytes
  | bytes value => value
  | text value => value
  | array items => encodeAll items
  | map entries => encodeEntries entries
  | _ => []

/-- An encoding is a header and its payload. -/
theorem encode_eq (value : Value) : value.encode = head value.major value.argument ++ value.payload := by
  cases value <;> simp [encode, major, argument, payload]

theorem major_lt (value : Value) : value.major < 8 := by
  cases value <;> simp [major]

theorem argument_lt {value : Value} (h : value.Deterministic) : value.argument < 2 ^ 64 := by
  cases value with
  | uint n => exact n.toNat_lt
  | nint n => exact n.toNat_lt
  | bytes value =>
    unfold Deterministic at h
    exact h
  | text value =>
    unfold Deterministic at h
    exact h.1
  | array items =>
    unfold Deterministic at h
    exact h.1
  | map entries =>
    unfold Deterministic at h
    exact h.1
  | bool value => cases value <;> decide
  | null => decide

theorem length_encode_pos (value : Value) : 0 < value.encode.length := by
  rw [encode_eq, List.length_append, length_head]
  have := headLen_pos value.argument
  omega

/-! ## Injectivity -/

/-- Two encodings with equal continuations have one header. -/
theorem header_inj {a b : Value} {rest rest' : Bytes} (ha : a.Deterministic) (hb : b.Deterministic)
    (h : a.encode ++ rest = b.encode ++ rest') :
    a.major = b.major ∧ a.argument = b.argument ∧ a.payload ++ rest = b.payload ++ rest' := by
  rw [encode_eq, encode_eq, List.append_assoc, List.append_assoc] at h
  exact head_append_inj a.major_lt b.major_lt (argument_lt ha) (argument_lt hb) h

mutual

/-- An encoding determines its value and what follows it. -/
theorem encode_append_inj {a b : Value} {rest rest' : Bytes} (ha : a.Deterministic)
    (hb : b.Deterministic) (h : a.encode ++ rest = b.encode ++ rest') : a = b ∧ rest = rest' := by
  obtain ⟨hmajor, hargument, hpayload⟩ := header_inj ha hb h
  cases a with
  | uint n => cases b with
    | uint n' => exact ⟨congrArg uint (UInt64.toNat_inj.mp hargument), hpayload⟩
    | _ => cases hmajor
  | nint n => cases b with
    | nint n' => exact ⟨congrArg nint (UInt64.toNat_inj.mp hargument), hpayload⟩
    | _ => cases hmajor
  | bytes value => cases b with
    | bytes value' =>
      obtain ⟨rfl, hrest⟩ := List.append_inj hpayload hargument
      exact ⟨rfl, hrest⟩
    | _ => cases hmajor
  | text value => cases b with
    | text value' =>
      obtain ⟨rfl, hrest⟩ := List.append_inj hpayload hargument
      exact ⟨rfl, hrest⟩
    | _ => cases hmajor
  | array items => cases b with
    | array items' =>
      unfold Deterministic at ha hb
      obtain ⟨hitems, hrest⟩ := encodeAll_append_inj ha.2 hb.2 hargument hpayload
      exact ⟨congrArg array hitems, hrest⟩
    | _ => cases hmajor
  | map entries => cases b with
    | map entries' =>
      unfold Deterministic at ha hb
      obtain ⟨hentries, hrest⟩ := encodeEntries_append_inj ha.2.2 hb.2.2 hargument hpayload
      exact ⟨congrArg map hentries, hrest⟩
    | _ => cases hmajor
  | bool value => cases b with
    | bool value' =>
      cases value <;> cases value' <;> first | exact ⟨rfl, hpayload⟩ | cases hargument
    | null => cases value <;> cases hargument
    | _ => cases hmajor
  | null => cases b with
    | null => exact ⟨rfl, hpayload⟩
    | bool value' => cases value' <;> cases hargument
    | _ => cases hmajor

theorem encodeAll_append_inj {items items' : List Value} {rest rest' : Bytes}
    (ha : DeterministicAll items) (hb : DeterministicAll items')
    (hlength : items.length = items'.length)
    (h : encodeAll items ++ rest = encodeAll items' ++ rest') : items = items' ∧ rest = rest' := by
  cases items with
  | nil => cases items' with
    | nil => exact ⟨rfl, h⟩
    | cons item' items' => cases hlength
  | cons item items => cases items' with
    | nil => cases hlength
    | cons item' items' =>
      unfold DeterministicAll at ha hb
      simp only [encodeAll, List.append_assoc] at h
      obtain ⟨rfl, hitems⟩ := encode_append_inj ha.1 hb.1 h
      obtain ⟨rfl, hrest⟩ := encodeAll_append_inj ha.2 hb.2 (Nat.succ.inj hlength) hitems
      exact ⟨rfl, hrest⟩

theorem encodeEntries_append_inj {entries entries' : List (Value × Value)} {rest rest' : Bytes}
    (ha : DeterministicEntries entries) (hb : DeterministicEntries entries')
    (hlength : entries.length = entries'.length)
    (h : encodeEntries entries ++ rest = encodeEntries entries' ++ rest') :
    entries = entries' ∧ rest = rest' := by
  match entries, entries' with
  | [], [] => exact ⟨rfl, h⟩
  | [], _ :: _ => cases hlength
  | _ :: _, [] => cases hlength
  | (key, value) :: entries, (key', value') :: entries' =>
    unfold DeterministicEntries at ha hb
    simp only [encodeEntries, List.append_assoc] at h
    obtain ⟨rfl, hvalue⟩ := encode_append_inj ha.1 hb.1 h
    obtain ⟨rfl, hentries⟩ := encode_append_inj ha.2.1 hb.2.1 hvalue
    obtain ⟨rfl, hrest⟩ := encodeEntries_append_inj ha.2.2 hb.2.2 (Nat.succ.inj hlength) hentries
    exact ⟨rfl, hrest⟩

end

theorem encode_inj {a b : Value} (ha : a.Deterministic) (hb : b.Deterministic)
    (h : a.encode = b.encode) : a = b := by
  have happend : a.encode ++ [] = b.encode ++ [] := by rw [h]
  exact (encode_append_inj ha hb happend).1

end Value

end Cbor
