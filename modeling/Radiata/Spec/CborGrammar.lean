import Radiata.ForStd.CborValue
import Radiata.Spec.CborCorrect

/-!
# The grammar of the canonical validator

`validate_item` is a loop over a stack of open containers. It accepts exactly the
deterministic encodings of values within the limits: the header of an item determines the
value or the container it opens, and a container is closed where its last item ends.

## Key results

- `validateHeader_eq_ok`: what one header says
- `validateItem_sound`: a successful loop has passed over the encoding of a value
- `validateItem_complete`: the loop passes over the encoding of a value within the limits
- `validateItem_eq_loop`: the loop ends on every input
- `validateCanonical_iff`: the accepted byte strings
- `width_le_of_validateCanonical`: the array bound for encoded items
-/

namespace Radiata

open Cbor (Value)

/-! ## Headers -/

theorem decoding_eq_ok {α : Type} {context : String} {read : Option α} {a : α}
    (h : decoding context read = .ok a) : read = some a := by
  cases read with
  | none => cases h
  | some b =>
    cases h
    rfl

variable {input : Bytes}

/-- The argument of an accepted header is the one of its shortest form. -/
theorem canonicalArgument_eq_ok {value headerLen : Nat}
    (h : canonicalArgument input = .ok (value, headerLen)) :
    ∃ b tail rest, input = b :: tail ∧ input = Cbor.head (b.toNat / 32) value ++ rest ∧
      value < 2 ^ 64 ∧ headerLen = Cbor.headLen value := by
  cases input with
  | nil => cases h
  | cons b tail =>
    simp only [canonicalArgument] at h
    split at h
    · cases h
    · cases hargument : Cbor.argument (b.toNat % 32) tail with
      | none =>
        rw [hargument] at h
        cases h
      | some read =>
        obtain ⟨read, rest⟩ := read
        rw [hargument] at h
        -- the canonical length is `headLen` written out
        change (if 1 + (tail.length - rest.length) ≠ Cbor.headLen read
          then (.error (.invalidInput "CBOR non-shortest argument") : Result (Nat × Nat))
          else .ok (read, 1 + (tail.length - rest.length))) = .ok (value, headerLen) at h
        by_cases hlen : 1 + (tail.length - rest.length) = Cbor.headLen read
        · rw [if_neg (not_not.mpr hlen)] at h
          cases h
          obtain ⟨hhead, hbound⟩ := Cbor.head_of_shortest hargument hlen
          exact ⟨b, tail, rest, rfl, hhead, hbound, hlen⟩
        · rw [if_pos hlen] at h
          cases h

/-- The initial byte of a type. -/
theorem datatype_eq_some {b : UInt8} {tail : Bytes} {type : CborType}
    (h : datatype (b :: tail) = some type) :
    (type = .integer ∧ (b.toNat / 32 = 0 ∨ b.toNat / 32 = 1)) ∨
    (type = .bytes ∧ b.toNat / 32 = 2) ∨ (type = .string ∧ b.toNat / 32 = 3) ∨
    (type = .array ∧ b.toNat / 32 = 4) ∨ (type = .map ∧ b.toNat / 32 = 5) ∨
    (type = .bool ∧ (b = 0xF4 ∨ b = 0xF5)) ∨ (type = .null ∧ b = 0xF6) ∨ type = .unsupported := by
  simp only [datatype, UInt8.le_iff_toNat_le, UInt8.reduceToNat] at h
  split at h
  · cases h
    exact Or.inl ⟨rfl, by omega⟩
  split at h
  · cases h
    exact Or.inl ⟨rfl, by omega⟩
  split at h
  · split at h
    · cases h
    · cases h
      exact Or.inl ⟨rfl, by omega⟩
  split at h
  · cases h
    exact Or.inr (Or.inl ⟨rfl, by omega⟩)
  split at h
  · cases h
    exact Or.inr (Or.inr (Or.inl ⟨rfl, by omega⟩))
  split at h
  · cases h
    exact Or.inr (Or.inr (Or.inr (Or.inl ⟨rfl, by omega⟩)))
  split at h
  · cases h
    exact Or.inr (Or.inr (Or.inr (Or.inr (Or.inl ⟨rfl, by omega⟩))))
  split at h
  · rename_i hbool
    cases h
    exact Or.inr (Or.inr (Or.inr (Or.inr (Or.inr (Or.inl ⟨rfl, hbool⟩)))))
  split at h
  · rename_i hnull
    cases h
    exact Or.inr (Or.inr (Or.inr (Or.inr (Or.inr (Or.inr (Or.inl ⟨rfl, hnull⟩))))))
  · cases h
    exact Or.inr (Or.inr (Or.inr (Or.inr (Or.inr (Or.inr (Or.inr rfl))))))

/-- A value without items of its own. -/
structure Scalar (value : Value) : Prop where
  deterministic : value.Deterministic
  depth : value.depth = 0
  width : value.width = 0

/-- What an accepted header says: a scalar in full, or a container of `n` items. -/
inductive Header (limits : CborLimits) (depth : Nat) (input rest : Bytes) :
    Option ContainerFrame → Prop where
  | scalar (value : Value) : Scalar value → input = value.encode ++ rest →
      Header limits depth input rest none
  | array (n : Nat) : depth < limits.maxDepth → n ≤ limits.maxCollectionItems → n < 2 ^ 64 →
      input = Cbor.head 4 n ++ rest → Header limits depth input rest (some (.array n))
  | map (n : Nat) : depth < limits.maxDepth → n ≤ limits.maxCollectionItems → n < 2 ^ 64 →
      input = Cbor.head 5 n ++ rest →
      Header limits depth input rest (some (.map n true none none))

variable {rest : Bytes}

variable {n : Nat}

theorem scalar_integer {b : UInt8} (hn : n < 2 ^ 64)
    (hmajor : b.toNat / 32 = 0 ∨ b.toNat / 32 = 1)
    (hinput : input = Cbor.head (b.toNat / 32) n ++ rest) :
    ∃ value, Scalar value ∧ input = value.encode ++ rest := by
  have hround : (UInt64.ofNat n).toNat = n := UInt64.toNat_ofNat_of_lt' hn
  rcases hmajor with hmajor | hmajor
  · refine ⟨.uint (UInt64.ofNat n), ⟨by simp [Value.Deterministic], by simp [Value.depth],
      by simp [Value.width]⟩, ?_⟩
    rw [Value.encode, hround, hinput, hmajor]
  · refine ⟨.nint (UInt64.ofNat n), ⟨by simp [Value.Deterministic], by simp [Value.depth],
      by simp [Value.width]⟩, ?_⟩
    rw [Value.encode, hround, hinput, hmajor]

/-- The payload that a sized header announces. -/
theorem payload_of_decodeBytes {rest₀ value : Bytes} (hn : n < 2 ^ 64)
    (h : Cbor.decodeBytes (Cbor.head 2 n ++ rest₀) = some (value, rest)) :
    rest₀ = value ++ rest ∧ value.length = n := by
  have hheader := (Cbor.reads_header (by omega) hn rest₀ :
    Cbor.header 2 (Cbor.head 2 n ++ rest₀) = some (n, rest₀))
  have hread : (Cbor.header 2 (Cbor.head 2 n ++ rest₀) >>= fun x => Reader.take x.1 x.2) =
      some (value, rest) := h
  rw [hheader] at hread
  exact Reader.take_eq_some hread

theorem payload_of_decodeStr {rest₀ value : Bytes} (hn : n < 2 ^ 64)
    (h : Cbor.decodeStr (Cbor.head 3 n ++ rest₀) = some (value, rest)) :
    rest₀ = value ++ rest ∧ value.length = n ∧ value.isUtf8 = true := by
  have hheader := (Cbor.reads_header (by omega) hn rest₀ :
    Cbor.header 3 (Cbor.head 3 n ++ rest₀) = some (n, rest₀))
  have hread : (Cbor.header 3 (Cbor.head 3 n ++ rest₀) >>= fun x =>
      Reader.take x.1 x.2 >>= fun y => (if Bytes.isUtf8 y.1 then pure y.1 else failure : Reader Bytes) y.2) =
      some (value, rest) := h
  rw [hheader] at hread
  obtain ⟨_, hpair, hread⟩ := Option.bind_eq_some_iff.mp hread
  cases hpair
  obtain ⟨⟨text, last⟩, htake, hutf8⟩ := Option.bind_eq_some_iff.mp hread
  obtain ⟨hsplit, hlength⟩ := Reader.take_eq_some htake
  simp only at hutf8
  split at hutf8
  · rename_i hvalid
    cases hutf8
    exact ⟨hsplit, hlength, hvalid⟩
  · cases hutf8

variable {limits : CborLimits}

/-- The container that an array or map header opens. -/
theorem validateContainer_eq_ok {depth major : Nat} {decodeLength : Reader (Option Nat)}
    {name : String} {b : UInt8} {tail : Bytes} (hinput : input = b :: tail)
    (hmajor : b.toNat / 32 = major)
    (hreads : ∀ m, m < 2 ^ 64 → Reader.Reads decodeLength (Cbor.head major m) (some m))
    (h : validateContainer limits depth input decodeLength name = .ok (n, rest)) :
    depth < limits.maxDepth ∧ n ≤ limits.maxCollectionItems ∧ n < 2 ^ 64 ∧
      input = Cbor.head major n ++ rest := by
  obtain ⟨hdepth, h⟩ := Except.seq_eq_ok.mp h
  obtain ⟨⟨length, headerLen⟩, hargument, h⟩ := Except.bind_eq_ok.mp h
  obtain ⟨⟨decoded, rest₀⟩, hdecode, h⟩ := Except.bind_eq_ok.mp h
  obtain ⟨decodedLength, hdefinite, h⟩ := Except.bind_eq_ok.mp h
  obtain ⟨first, tail', rest', hcons, hhead, hbound, -⟩ := canonicalArgument_eq_ok hargument
  rw [hinput] at hcons
  cases hcons
  rw [hmajor] at hhead
  rw [hhead, hreads length hbound rest'] at hdecode
  cases hdecode
  cases hdefinite
  unfold validateContainerDepth at hdepth
  split at hdepth
  · cases hdepth
  · rename_i hroom
    simp only at h
    split at h
    · cases h
    · rename_i hlength
      cases h
      exact ⟨by omega, by omega, hbound, hhead⟩

variable {container : Option ContainerFrame}

/-- What one accepted header says. -/
theorem validateHeader_eq_ok {depth : Nat}
    (h : validateHeader limits depth input = .ok (rest, container)) :
    Header limits depth input rest container := by
  obtain ⟨type, htype, h⟩ := Except.bind_eq_ok.mp h
  cases input with
  | nil => cases htype
  | cons b tail =>
    rcases datatype_eq_some (decoding_eq_ok htype) with ⟨rfl, hmajor⟩ | ⟨rfl, hmajor⟩ | ⟨rfl, hmajor⟩ |
      ⟨rfl, hmajor⟩ | ⟨rfl, hmajor⟩ | ⟨rfl, hbool⟩ | ⟨rfl, rfl⟩ | rfl
    · obtain ⟨⟨n, headerLen⟩, hargument, h⟩ := Except.bind_eq_ok.mp h
      obtain ⟨first, tail', rest', hcons, hhead, hbound, hlen⟩ := canonicalArgument_eq_ok hargument
      cases hcons
      simp only at h
      split at h
      · cases h
      · cases h
        rw [hlen, hhead, ← Cbor.length_head (b.toNat / 32) n, List.drop_left]
        obtain ⟨value, hscalar, hvalue⟩ := scalar_integer hbound hmajor rfl
        exact .scalar value hscalar hvalue
    · obtain ⟨⟨n, headerLen⟩, hargument, h⟩ := Except.bind_eq_ok.mp h
      obtain ⟨⟨value, rest₀⟩, hdecode, h⟩ := Except.bind_eq_ok.mp h
      obtain ⟨-, h⟩ := Except.seq_eq_ok.mp h
      cases h
      obtain ⟨first, tail', rest', hcons, hhead, hbound, -⟩ := canonicalArgument_eq_ok hargument
      cases hcons
      rw [hmajor] at hhead
      rw [hhead] at hdecode ⊢
      obtain ⟨hsplit, hlength⟩ := payload_of_decodeBytes hbound (decoding_eq_ok hdecode)
      refine .scalar (.bytes value) ⟨?_, by simp [Value.depth], by simp [Value.width]⟩ ?_
      · rw [Value.Deterministic, hlength]
        exact hbound
      · rw [Value.encode, hlength, hsplit, List.append_assoc]
    · obtain ⟨⟨n, headerLen⟩, hargument, h⟩ := Except.bind_eq_ok.mp h
      obtain ⟨⟨value, rest₀⟩, hdecode, h⟩ := Except.bind_eq_ok.mp h
      obtain ⟨-, h⟩ := Except.seq_eq_ok.mp h
      cases h
      obtain ⟨first, tail', rest', hcons, hhead, hbound, -⟩ := canonicalArgument_eq_ok hargument
      cases hcons
      rw [hmajor] at hhead
      rw [hhead] at hdecode ⊢
      obtain ⟨hsplit, hlength, hutf8⟩ := payload_of_decodeStr hbound (decoding_eq_ok hdecode)
      refine .scalar (.text value) ⟨?_, by simp [Value.depth], by simp [Value.width]⟩ ?_
      · rw [Value.Deterministic, hlength]
        exact ⟨hbound, hutf8⟩
      · rw [Value.encode, hlength, hsplit, List.append_assoc]
    · obtain ⟨⟨n, rest₀⟩, hcontainer, h⟩ := Except.bind_eq_ok.mp h
      cases h
      obtain ⟨hdepth, hitems, hbound, hhead⟩ := validateContainer_eq_ok rfl hmajor
        (fun m hm => Cbor.reads_array hm) hcontainer
      exact .array n hdepth hitems hbound hhead
    · obtain ⟨⟨n, rest₀⟩, hcontainer, h⟩ := Except.bind_eq_ok.mp h
      cases h
      obtain ⟨hdepth, hitems, hbound, hhead⟩ := validateContainer_eq_ok rfl hmajor
        (fun m hm => Cbor.reads_map hm) hcontainer
      exact .map n hdepth hitems hbound hhead
    · cases h
      rcases hbool with rfl | rfl
      · exact .scalar (.bool false) ⟨by simp [Value.Deterministic], by simp [Value.depth],
          by simp [Value.width]⟩ rfl
      · exact .scalar (.bool true) ⟨by simp [Value.Deterministic], by simp [Value.depth],
          by simp [Value.width]⟩ rfl
    · cases h
      exact .scalar .null ⟨by simp [Value.Deterministic], by simp [Value.depth],
        by simp [Value.width]⟩ rfl
    · cases h

/-! ## Closing items -/

theorem finishItem_value_one (limits : CborLimits) (fuel : Nat) (rest : Bytes)
    (keyStart previousKey : Option Bytes) (stack : List ContainerFrame) :
    finishItem limits fuel rest (.map 1 false keyStart previousKey :: stack) =
      finishItem limits fuel rest stack := rfl

theorem finishItem_value_succ (limits : CborLimits) (fuel n : Nat) (rest : Bytes)
    (keyStart previousKey : Option Bytes) (stack : List ContainerFrame) :
    finishItem limits fuel rest (.map (n + 2) false keyStart previousKey :: stack) =
      validateItem limits fuel rest (.map (n + 1) true keyStart previousKey :: stack) := rfl

variable {previousKey : Option Bytes} {stack : List ContainerFrame}

variable {fuel : Nat}

/-- A key is closed after a smaller one; the loop goes on with its value. -/
theorem finishItem_key {remaining : Nat} {key : Bytes} :
    finishItem limits fuel rest (.map remaining true (some (key ++ rest)) previousKey :: stack) =
      if previousKey.any (fun previous => key ≤ previous) then
        .error (.invalidInput "CBOR map key order")
      else validateItem limits fuel rest (.map remaining false none (some key) :: stack) := by
  have hkey : (key ++ rest).take ((key ++ rest).length - rest.length) = key := by
    rw [List.length_append, Nat.add_sub_cancel, List.take_left]
  unfold finishItem completeItem
  simp only [hkey]
  split
  · rfl
  · rfl

theorem finishItem_nil {out : Bytes} (h : finishItem limits fuel rest [] = .ok out) :
    rest = out := by
  cases h
  rfl

/-- The next key is above the previous one. -/
theorem isChain_key_iff {key : Bytes} {keys : List Bytes} :
    (previousKey.toList ++ key :: keys).IsChain (· < ·) ↔
      ¬ previousKey.any (fun previous => key ≤ previous) = true ∧
        ((some key).toList ++ keys).IsChain (· < ·) := by
  cases previousKey with
  | none => simp
  | some previous => simp

/-! ## What the loop has passed over -/

/-- A value at a nesting depth keeps within the limits. -/
structure WithinLimits (limits : CborLimits) (depth : Nat) (value : Value) : Prop where
  deterministic : value.Deterministic
  depth : depth + value.depth ≤ limits.maxDepth
  width : value.width ≤ limits.maxCollectionItems

structure WithinLimitsAll (limits : CborLimits) (depth : Nat) (items : List Value) : Prop where
  deterministic : Value.DeterministicAll items
  depth : depth + Value.depthAll items ≤ limits.maxDepth
  width : Value.widthAll items ≤ limits.maxCollectionItems

structure WithinLimitsEntries (limits : CborLimits) (depth : Nat) (entries : List (Value × Value)) :
    Prop where
  deterministic : Value.DeterministicEntries entries
  depth : depth + Value.depthEntries entries ≤ limits.maxDepth
  width : Value.widthEntries entries ≤ limits.maxCollectionItems

/-- A loop that succeeds passes over an item and then finishes it. -/
def PassesItem (limits : CborLimits) (fuel : Nat) : Prop :=
  ∀ (input : Bytes) (stack : List ContainerFrame) (out : Bytes), stack.length ≤ limits.maxDepth →
    validateItem limits fuel input stack = .ok out →
    ∃ value rest fuel', WithinLimits limits stack.length value ∧ input = value.encode ++ rest ∧
      fuel' < fuel ∧ finishItem limits fuel' rest (markKeyStart input stack) = .ok out

/-- A loop that succeeds in an open array passes over its items and closes it. -/
theorem passes_items {out : Bytes} (ih : ∀ fuel' ≤ fuel, PassesItem limits fuel')
    (hroom : stack.length + 1 ≤ limits.maxDepth)
    (h : validateItem limits fuel input (.array (n + 1) :: stack) = .ok out) :
    ∃ items rest fuel', items.length = n + 1 ∧ WithinLimitsAll limits (stack.length + 1) items ∧
      input = Value.encodeAll items ++ rest ∧ fuel' < fuel ∧
      finishItem limits fuel' rest stack = .ok out := by
  induction n generalizing fuel input with
  | zero =>
    obtain ⟨value, rest, fuel', hvalue, hinput, hfuel, hfinish⟩ :=
      ih fuel (Nat.le_refl _) input (.array 1 :: stack) out hroom h
    refine ⟨[value], rest, fuel', rfl, ?_, by simp [Value.encodeAll, hinput], hfuel, hfinish⟩
    have hdepth := hvalue.depth
    have hwidth := hvalue.width
    simp only [List.length_cons] at hdepth
    exact ⟨⟨hvalue.deterministic, trivial⟩, by simp only [Value.depthAll]; omega,
      by simp only [Value.widthAll]; omega⟩
  | succ n ihn =>
    obtain ⟨value, rest, fuel₁, hvalue, hinput, hfuel, hfinish⟩ :=
      ih fuel (Nat.le_refl _) input (.array (n + 2) :: stack) out hroom h
    change finishItem limits fuel₁ rest (.array (n + 2) :: stack) = .ok out at hfinish
    rw [finishItem_array_succ] at hfinish
    obtain ⟨items, rest', fuel', hcount, hitems, hrest, hfuel', hdone⟩ :=
      ihn (fun fuel' hle => ih fuel' (by omega)) hfinish
    refine ⟨value :: items, rest', fuel', by rw [List.length_cons, hcount], ?_,
      by rw [hinput, hrest, Value.encodeAll, List.append_assoc], by omega, hdone⟩
    have hdepth := hvalue.depth
    have hwidth := hvalue.width
    have hdepth' := hitems.depth
    have hwidth' := hitems.width
    simp only [List.length_cons] at hdepth
    exact ⟨⟨hvalue.deterministic, hitems.deterministic⟩, by simp only [Value.depthAll]; omega,
      by simp only [Value.widthAll]; omega⟩

/-- A loop that succeeds in an open map passes over a key above the previous one and its
    value. -/
theorem passes_entry {out : Bytes} (ih : ∀ fuel' ≤ fuel, PassesItem limits fuel')
    (hroom : stack.length + 1 ≤ limits.maxDepth)
    (h : validateItem limits fuel input (.map (n + 1) true none previousKey :: stack) = .ok out) :
    ∃ key value rest fuel', WithinLimits limits (stack.length + 1) key ∧
      WithinLimits limits (stack.length + 1) value ∧
      ¬ previousKey.any (fun previous => key.encode ≤ previous) = true ∧
      input = key.encode ++ (value.encode ++ rest) ∧ fuel' < fuel ∧
      finishItem limits fuel' rest (.map (n + 1) false none (some key.encode) :: stack) = .ok out := by
  obtain ⟨key, rest, fuel₁, hkey, hinput, hfuel, hfinish⟩ :=
    ih fuel (Nat.le_refl _) input (.map (n + 1) true none previousKey :: stack) out hroom h
  change finishItem limits fuel₁ rest (.map (n + 1) true (some input) previousKey :: stack) = .ok out
    at hfinish
  rw [hinput, finishItem_key] at hfinish
  split at hfinish
  · cases hfinish
  · rename_i horder
    obtain ⟨value, rest', fuel', hvalue, hrest, hfuel', hdone⟩ := ih fuel₁ (by omega) rest
      (.map (n + 1) false none (some key.encode) :: stack) out hroom hfinish
    exact ⟨key, value, rest', fuel', hkey, hvalue, horder, by rw [hinput, hrest], by omega, hdone⟩

/-- A loop that succeeds in an open map passes over its entries and closes it. -/
theorem passes_entries {out : Bytes} (ih : ∀ fuel' ≤ fuel, PassesItem limits fuel')
    (hroom : stack.length + 1 ≤ limits.maxDepth)
    (h : validateItem limits fuel input (.map (n + 1) true none previousKey :: stack) = .ok out) :
    ∃ entries rest fuel', entries.length = n + 1 ∧ WithinLimitsEntries limits (stack.length + 1) entries ∧
      (previousKey.toList ++ entries.map fun entry => entry.1.encode).IsChain (· < ·) ∧
      input = Value.encodeEntries entries ++ rest ∧ fuel' < fuel ∧
      finishItem limits fuel' rest stack = .ok out := by
  induction n generalizing fuel input previousKey with
  | zero =>
    obtain ⟨key, value, rest, fuel', hkey, hvalue, horder, hinput, hfuel, hdone⟩ :=
      passes_entry ih hroom h
    rw [finishItem_value_one] at hdone
    have hdepth := hkey.depth
    have hwidth := hkey.width
    have hdepth' := hvalue.depth
    have hwidth' := hvalue.width
    refine ⟨[(key, value)], rest, fuel', rfl, ?_, isChain_key_iff.mpr ⟨horder, by simp⟩,
      by simp [Value.encodeEntries, hinput], hfuel, hdone⟩
    exact ⟨⟨hkey.deterministic, hvalue.deterministic, trivial⟩,
      by simp only [Value.depthEntries]; omega, by simp only [Value.widthEntries]; omega⟩
  | succ n ihn =>
    obtain ⟨key, value, rest, fuel₁, hkey, hvalue, horder, hinput, hfuel, hdone⟩ :=
      passes_entry ih hroom h
    rw [finishItem_value_succ] at hdone
    obtain ⟨entries, rest', fuel', hcount, hentries, hchain, hrest, hfuel', hclosed⟩ :=
      ihn (fun fuel' hle => ih fuel' (by omega)) hdone
    have hdepth := hkey.depth
    have hwidth := hkey.width
    have hdepth' := hvalue.depth
    have hwidth' := hvalue.width
    have hdepth'' := hentries.depth
    have hwidth'' := hentries.width
    refine ⟨(key, value) :: entries, rest', fuel', by rw [List.length_cons, hcount], ?_,
      isChain_key_iff.mpr ⟨horder, hchain⟩, ?_, by omega, hclosed⟩
    · exact ⟨⟨hkey.deterministic, hvalue.deterministic, hentries.deterministic⟩,
        by simp only [Value.depthEntries]; omega, by simp only [Value.widthEntries]; omega⟩
    · rw [hinput, hrest, Value.encodeEntries]
      simp only [List.append_assoc]

theorem length_markKeyStart (input : Bytes) (stack : List ContainerFrame) :
    (markKeyStart input stack).length = stack.length := by
  unfold markKeyStart
  split <;> rfl

/-- A loop that succeeds has passed over the encoding of a value. -/
theorem validateItem_sound (limits : CborLimits) (fuel : Nat) : PassesItem limits fuel := by
  induction fuel using Nat.strong_induction_on with
  | _ fuel ih =>
    intro input stack out hstack h
    cases fuel with
    | zero => cases h
    | succ fuel =>
      have hsmaller : ∀ fuel' ≤ fuel, PassesItem limits fuel' := fun fuel' hle => ih fuel' (by omega)
      rw [validateItem] at h
      obtain ⟨⟨rest, container⟩, hheader, h⟩ := Except.bind_eq_ok.mp h
      rw [length_markKeyStart] at hheader
      have hlength := length_markKeyStart input stack
      cases validateHeader_eq_ok hheader with
      | scalar value hscalar hinput =>
        refine ⟨value, rest, fuel, ⟨hscalar.deterministic, ?_, ?_⟩, hinput, by omega, h⟩
        · rw [hscalar.depth]
          exact hstack
        · rw [hscalar.width]
          exact Nat.zero_le _
      | array n hdepth hitems hbound hinput =>
        cases n with
        | zero =>
          refine ⟨.array [], rest, fuel, ⟨⟨by simp, trivial⟩, ?_, by simp [Value.width, Value.widthAll]⟩,
            by simpa [Value.encode, Value.encodeAll] using hinput, by omega, h⟩
          simp only [Value.depth, Value.depthAll]
          omega
        | succ n =>
          obtain ⟨items, rest', fuel', hcount, hall, hrest, hfuel, hdone⟩ :=
            passes_items hsmaller (by omega) h
          have hdepth' := hall.depth
          have hwidth' := hall.width
          refine ⟨.array items, rest', fuel', ⟨⟨by omega, hall.deterministic⟩, ?_, ?_⟩, ?_,
            by omega, hdone⟩
          · simp only [Value.depth]
            omega
          · simp only [Value.width]
            omega
          · rw [hinput, hrest, Value.encode, hcount, List.append_assoc]
      | map n hdepth hitems hbound hinput =>
        cases n with
        | zero =>
          refine ⟨.map [], rest, fuel,
            ⟨⟨by simp, by simp, trivial⟩, ?_, by simp [Value.width, Value.widthEntries]⟩,
            by simpa [Value.encode, Value.encodeEntries] using hinput, by omega, h⟩
          simp only [Value.depth, Value.depthEntries]
          omega
        | succ n =>
          obtain ⟨entries, rest', fuel', hcount, hall, hchain, hrest, hfuel, hdone⟩ :=
            passes_entries hsmaller (by omega) h
          have hdepth' := hall.depth
          have hwidth' := hall.width
          refine ⟨.map entries, rest', fuel', ⟨⟨by omega, hchain, hall.deterministic⟩, ?_, ?_⟩, ?_,
            by omega, hdone⟩
          · simp only [Value.depth]
            omega
          · simp only [Value.width]
            omega
          · rw [hinput, hrest, Value.encode, hcount, List.append_assoc]

/-! ## Headers of encodings -/

theorem datatype_head_nint (n : Nat) (rest : Bytes) :
    datatype (Cbor.head 1 n ++ rest) = some .integer := by
  simp only [Cbor.head]
  split
  · have hnat : (Cbor.initial 1 n).toNat = 1 * 32 + n := Cbor.toNat_initial (by omega) (by omega)
    simp only [List.singleton_append, datatype, UInt8.le_iff_toNat_le, hnat, UInt8.reduceToNat]
    rw [if_neg (by omega), if_pos (by omega)]
  · -- an argument follows the initial byte
    split
    · rfl
    split
    · rfl
    split
    · rfl
    · rfl

theorem datatype_head_map (n : Nat) (rest : Bytes) :
    datatype (Cbor.head 5 n ++ rest) = some .map := by
  obtain ⟨info, tail, hinfo, hhead⟩ := Cbor.head_eq_cons 5 n
  have hnat : (Cbor.initial 5 info).toNat = 5 * 32 + info := Cbor.toNat_initial (by omega) (by omega)
  rw [hhead, List.cons_append]
  simp only [datatype, UInt8.le_iff_toNat_le, hnat, UInt8.reduceToNat]
  rw [if_neg (by omega), if_neg (by omega), if_neg (by omega), if_neg (by omega),
    if_neg (by omega), if_neg (by omega), if_pos (by omega)]

theorem validateHeader_nint (limits : CborLimits) (depth : Nat) (n : UInt64) (rest : Bytes) :
    validateHeader limits depth ((Value.nint n).encode ++ rest) = .ok (rest, none) := by
  have hargument := canonicalArgument_head 1 (by omega) n.toNat_lt rest
  have hlen := Cbor.length_head 1 n.toNat
  have htype := datatype_head_nint n.toNat rest
  rw [Value.encode]
  simp only [validateHeader, htype, decoding, Result.ok_bind, hargument]
  rw [if_neg (by simp only [List.length_append]; omega), ← hlen, List.drop_left]
  rfl

theorem validateHeader_map (limits : CborLimits) {depth length : Nat}
    (hdepth : depth < limits.maxDepth) (hitems : length ≤ limits.maxCollectionItems)
    (hlen : length < 2 ^ 64) (rest : Bytes) :
    validateHeader limits depth (Cbor.head 5 length ++ rest) =
      .ok (rest, some (.map length true none none)) := by
  have htype := datatype_head_map length rest
  have hargument := canonicalArgument_head 5 (by omega) hlen rest
  have hread := Cbor.reads_map hlen rest
  simp only [validateHeader, htype, decoding, Result.ok_bind, validateContainer,
    validateContainerDepth, hargument, hread]
  rw [if_neg (by omega)]
  simp only [Result.ok_bind]
  rw [if_neg (by omega)]
  rfl

/-- An iteration over a scalar ends with closing it. -/
theorem validateItem_of_scalar (h : validateHeader limits stack.length input = .ok (rest, none))
    (fuel : Nat) :
    validateItem limits (1 + fuel) input stack =
      finishItem limits fuel rest (markKeyStart input stack) := by
  rw [Nat.add_comm, validateItem, length_markKeyStart, h]
  rfl

/-! ## The loop over an encoding -/

mutual

variable {limits : CborLimits}

/-- The loop passes over the encoding of a value within the limits. -/
theorem validateItem_complete {value : Value} (rest : Bytes) (stack : List ContainerFrame)
    (hvalue : WithinLimits limits stack.length value) :
    ∃ k ≤ value.encode.length, ∀ fuel,
      validateItem limits (k + fuel) (value.encode ++ rest) stack =
        finishItem limits fuel rest (markKeyStart (value.encode ++ rest) stack) := by
  have hpos := value.length_encode_pos
  have hdeterministic := hvalue.deterministic
  cases value with
  | uint n => exact ⟨1, hpos, validateItem_of_scalar (validateHeader_uint limits _ n rest)⟩
  | nint n => exact ⟨1, hpos, validateItem_of_scalar (validateHeader_nint limits _ n rest)⟩
  | bytes value =>
    unfold Value.Deterministic at hdeterministic
    exact ⟨1, hpos, validateItem_of_scalar (validateHeader_bytes limits _ hdeterministic rest)⟩
  | text value =>
    unfold Value.Deterministic at hdeterministic
    exact ⟨1, hpos, validateItem_of_scalar
      (validateHeader_text limits _ hdeterministic.1 hdeterministic.2 rest)⟩
  | bool value => cases value <;> exact ⟨1, hpos, validateItem_of_scalar rfl⟩
  | null => exact ⟨1, hpos, validateItem_of_scalar rfl⟩
  | array items =>
    unfold Value.Deterministic at hdeterministic
    have hdepth := hvalue.depth
    have hwidth := hvalue.width
    simp only [Value.depth] at hdepth
    simp only [Value.width] at hwidth
    have hheader := @validateHeader_array limits stack.length items.length
      (by omega) (by omega) hdeterministic.1 (Value.encodeAll items ++ rest)
    have hhead := Cbor.length_head 4 items.length
    have hheadPos := Cbor.headLen_pos items.length
    by_cases hne : items = []
    · subst hne
      refine ⟨1, hpos, fun fuel => ?_⟩
      rw [Value.encode, List.append_assoc, Nat.add_comm, validateItem, length_markKeyStart]
      rw [Cbor.encodeArray] at hheader
      rw [hheader]
      rfl
    · have hroom : WithinLimitsAll limits ((markKeyStart ((Value.array items).encode ++ rest)
          stack).length + 1) items :=
        ⟨hdeterministic.2, by rw [length_markKeyStart]; omega, by omega⟩
      obtain ⟨k, hk, hitems⟩ := validateItem_items rest _ hne hroom
      refine ⟨k + 1, by rw [Value.encode, List.length_append, hhead]; omega, fun fuel => ?_⟩
      rw [Cbor.encodeArray] at hheader
      rw [Nat.add_right_comm, validateItem, length_markKeyStart]
      conv_lhs =>
        arg 1
        rw [Value.encode, List.append_assoc, hheader]
      obtain ⟨n, hn⟩ := Nat.exists_eq_succ_of_ne_zero (mt List.length_eq_zero_iff.mp hne)
      have hrun := hitems fuel
      rw [hn] at hrun ⊢
      exact hrun
  | map entries =>
    unfold Value.Deterministic at hdeterministic
    have hdepth := hvalue.depth
    have hwidth := hvalue.width
    simp only [Value.depth] at hdepth
    simp only [Value.width] at hwidth
    have hheader := @validateHeader_map limits stack.length entries.length
      (by omega) (by omega) hdeterministic.1 (Value.encodeEntries entries ++ rest)
    have hhead := Cbor.length_head 5 entries.length
    have hheadPos := Cbor.headLen_pos entries.length
    by_cases hne : entries = []
    · subst hne
      refine ⟨1, hpos, fun fuel => ?_⟩
      rw [Value.encode, List.append_assoc, Nat.add_comm, validateItem, length_markKeyStart, hheader]
      rfl
    · have hroom : WithinLimitsEntries limits ((markKeyStart ((Value.map entries).encode ++ rest)
          stack).length + 1) entries :=
        ⟨hdeterministic.2.2, by rw [length_markKeyStart]; omega, by omega⟩
      obtain ⟨k, hk, hentries⟩ := validateItem_entries rest _ hne hroom none hdeterministic.2.1
      refine ⟨k + 1, by rw [Value.encode, List.length_append, hhead]; omega, fun fuel => ?_⟩
      rw [Nat.add_right_comm, validateItem, length_markKeyStart]
      conv_lhs =>
        arg 1
        rw [Value.encode, List.append_assoc, hheader]
      obtain ⟨n, hn⟩ := Nat.exists_eq_succ_of_ne_zero (mt List.length_eq_zero_iff.mp hne)
      have hrun := hentries fuel
      rw [hn] at hrun ⊢
      exact hrun

/-- The loop passes over the items of an open array and closes it. -/
theorem validateItem_items {items : List Value} (rest : Bytes) (stack : List ContainerFrame)
    (hne : items ≠ []) (hall : WithinLimitsAll limits (stack.length + 1) items) :
    ∃ k ≤ (Value.encodeAll items).length, ∀ fuel,
      validateItem limits (k + fuel) (Value.encodeAll items ++ rest) (.array items.length :: stack) =
        finishItem limits fuel rest stack := by
  cases items with
  | nil => exact absurd rfl hne
  | cons item items =>
    have hdeterministic := hall.deterministic
    have hdepth := hall.depth
    have hwidth := hall.width
    simp only [Value.DeterministicAll] at hdeterministic
    simp only [Value.depthAll] at hdepth
    simp only [Value.widthAll] at hwidth
    have hitem : WithinLimits limits (ContainerFrame.array (items.length + 1) :: stack).length item :=
      ⟨hdeterministic.1, by rw [List.length_cons]; omega, by omega⟩
    obtain ⟨k, hk, hfirst⟩ := validateItem_complete (Value.encodeAll items ++ rest) _ hitem
    cases items with
    | nil =>
      refine ⟨k, by simpa [Value.encodeAll] using hk, fun fuel => ?_⟩
      have hrun := hfirst fuel
      rw [Value.encodeAll, List.nil_append] at hrun
      rw [Value.encodeAll, Value.encodeAll, List.append_nil]
      exact hrun.trans (finishItem_array_one limits fuel rest stack)
    | cons second items =>
      have hrest : WithinLimitsAll limits (stack.length + 1) (second :: items) :=
        ⟨hdeterministic.2, by omega, by omega⟩
      obtain ⟨k', hk', hothers⟩ := validateItem_items rest stack (by simp) hrest
      refine ⟨k + k', by rw [Value.encodeAll, List.length_append]; omega, fun fuel => ?_⟩
      rw [Value.encodeAll, List.append_assoc, Nat.add_assoc]
      exact (hfirst (k' + fuel)).trans (hothers fuel)

/-- The loop passes over the entries of an open map and closes it. -/
theorem validateItem_entries {entries : List (Value × Value)} (rest : Bytes)
    (stack : List ContainerFrame) (hne : entries ≠ [])
    (hall : WithinLimitsEntries limits (stack.length + 1) entries) (previousKey : Option Bytes)
    (hchain : (previousKey.toList ++ entries.map fun entry => entry.1.encode).IsChain (· < ·)) :
    ∃ k ≤ (Value.encodeEntries entries).length, ∀ fuel,
      validateItem limits (k + fuel) (Value.encodeEntries entries ++ rest)
          (.map entries.length true none previousKey :: stack) =
        finishItem limits fuel rest stack := by
  match entries with
  | [] => exact absurd rfl hne
  | (key, value) :: entries =>
    have hdeterministic := hall.deterministic
    have hdepth := hall.depth
    have hwidth := hall.width
    simp only [Value.DeterministicEntries] at hdeterministic
    simp only [Value.depthEntries] at hdepth
    simp only [Value.widthEntries] at hwidth
    rw [List.map_cons] at hchain
    obtain ⟨horder, hchain⟩ := isChain_key_iff.mp hchain
    have hkey : WithinLimits limits
        (ContainerFrame.map (entries.length + 1) true none previousKey :: stack).length key :=
      ⟨hdeterministic.1, by rw [List.length_cons]; omega, by omega⟩
    have hvalue : WithinLimits limits (ContainerFrame.map (entries.length + 1) false none
        (some key.encode) :: stack).length value :=
      ⟨hdeterministic.2.1, by rw [List.length_cons]; omega, by omega⟩
    obtain ⟨k, hk, hfirst⟩ :=
      validateItem_complete (value.encode ++ (Value.encodeEntries entries ++ rest)) _ hkey
    obtain ⟨k', hk', hsecond⟩ := validateItem_complete (Value.encodeEntries entries ++ rest) _ hvalue
    -- the key is closed after the previous one, then its value
    have hentry : ∀ fuel, validateItem limits (k + (k' + fuel))
        (Value.encodeEntries ((key, value) :: entries) ++ rest)
          (.map (entries.length + 1) true none previousKey :: stack) =
        finishItem limits fuel (Value.encodeEntries entries ++ rest)
          (.map (entries.length + 1) false none (some key.encode) :: stack) := by
      intro fuel
      have hrun := hfirst (k' + fuel)
      change _ = finishItem limits (k' + fuel) _ (.map (entries.length + 1) true
        (some (key.encode ++ (value.encode ++ (Value.encodeEntries entries ++ rest)))) previousKey ::
          stack) at hrun
      rw [finishItem_key, if_neg horder] at hrun
      rw [Value.encodeEntries, List.append_assoc, List.append_assoc, hrun, hsecond]
      rfl
    cases entries with
    | nil =>
      refine ⟨k + k', ?_, fun fuel => ?_⟩
      · simp only [Value.encodeEntries, List.length_append]
        omega
      · rw [Nat.add_assoc]
        exact (hentry fuel).trans (finishItem_value_one limits fuel rest _ _ stack)
    | cons entry entries =>
      have hrest : WithinLimitsEntries limits (stack.length + 1) (entry :: entries) :=
        ⟨hdeterministic.2.2, by omega, by omega⟩
      obtain ⟨k'', hk'', hothers⟩ :=
        validateItem_entries rest stack (by simp) hrest (some key.encode) hchain
      refine ⟨k + k' + k'', ?_, fun fuel => ?_⟩
      · rw [Value.encodeEntries, List.length_append, List.length_append]
        omega
      · rw [Nat.add_assoc, Nat.add_assoc]
        exact (hentry (k'' + fuel)).trans (hothers fuel)

end

/-! ## The loop without a bound -/

/-- The body of the loop: the rest of the input, and the open containers unless the
    outermost item is complete. -/
def validateStep (limits : CborLimits) (input : Bytes) (stack : List ContainerFrame) :
    Result (Bytes × Option (List ContainerFrame)) := do
  let stack := markKeyStart input stack
  let (rest, container) ← validateHeader limits stack.length input
  match container with
  | some (.array (n + 1)) => return (rest, some (.array (n + 1) :: stack))
  | some (.map (n + 1) expectingKey keyStart previousKey) =>
    return (rest, some (.map (n + 1) expectingKey keyStart previousKey :: stack))
  | _ => return (rest, ← completeItem rest stack)

theorem Header.length_lt {depth : Nat} (h : Header limits depth input rest container) :
    rest.length < input.length := by
  cases h with
  | scalar value hscalar hinput =>
    have hpos := value.length_encode_pos
    rw [hinput, List.length_append]
    omega
  | array n hdepth hitems hbound hinput | map n hdepth hitems hbound hinput =>
    have hpos := Cbor.headLen_pos n
    rw [hinput, List.length_append, Cbor.length_head]
    omega

/-- Every iteration reads. -/
theorem validateStep_shrinks {next : Option (List ContainerFrame)}
    (h : validateStep limits input stack = .ok (rest, next)) : rest.length < input.length := by
  unfold validateStep at h
  obtain ⟨⟨rest', container⟩, hheader, h⟩ := Except.bind_eq_ok.mp h
  have hread := (validateHeader_eq_ok hheader).length_lt
  have hrest : rest' = rest := by
    dsimp only at h
    split at h
    · cases h
      rfl
    · cases h
      rfl
    · obtain ⟨stack', -, h⟩ := Except.bind_eq_ok.mp h
      cases h
      rfl
  rwa [hrest] at hread

/-- The loop of `validate_item` as it stands, without a bound on its iterations. -/
def validateLoop (limits : CborLimits) (input : Bytes) (stack : List ContainerFrame) :
    Result Bytes :=
  match _h : validateStep limits input stack with
  | .error error => .error error
  | .ok (rest, none) => .ok rest
  | .ok (rest, some stack) => validateLoop limits rest stack
termination_by input.length
decreasing_by exact validateStep_shrinks _h

theorem validateItem_succ (limits : CborLimits) (fuel : Nat) (input : Bytes)
    (stack : List ContainerFrame) :
    validateItem limits (fuel + 1) input stack =
      match validateStep limits input stack with
      | .error error => .error error
      | .ok (rest, none) => .ok rest
      | .ok (rest, some stack) => validateItem limits fuel rest stack := by
  rw [validateItem, validateStep]
  cases hheader : validateHeader limits (markKeyStart input stack).length input with
  | error error => rfl
  | ok header =>
    obtain ⟨rest, container⟩ := header
    dsimp only [Result.ok_bind]
    generalize completeItem rest (markKeyStart input stack) = completed
    cases container with
    | none => cases completed with
      | error error => rfl
      | ok next => cases next <;> rfl
    | some frame =>
      cases frame with
      | array remaining | map remaining expectingKey keyStart previousKey => cases remaining with
        | zero => cases completed with
          | error error => rfl
          | ok next => cases next <;> rfl
        | succ n => rfl

/-- The length of the input bounds the iterations. -/
theorem validateItem_eq_loop (limits : CborLimits) (stack : List ContainerFrame)
    (h : input.length < fuel) :
    validateItem limits fuel input stack = validateLoop limits input stack := by
  induction fuel generalizing input stack with
  | zero => omega
  | succ fuel ih =>
    rw [validateItem_succ, validateLoop]
    cases hstep : validateStep limits input stack with
    | error error => rfl
    | ok result =>
      obtain ⟨rest, next⟩ := result
      have hread := validateStep_shrinks hstep
      cases next with
      | none => rfl
      | some stack' => exact ih stack' (by omega)

/-! ## The accepted byte strings -/

/-- The loop takes the whole input exactly if it is an encoding within the limits. -/
theorem validateItem_whole_iff (limits : CborLimits) (bytes : Bytes) :
    validateItem limits (bytes.length + 1) bytes [] = .ok [] ↔
      ∃ value, WithinLimits limits 0 value ∧ bytes = value.encode := by
  constructor
  · intro h
    obtain ⟨value, rest, fuel, haccepted, hbytes, -, hdone⟩ :=
      validateItem_sound limits _ bytes [] [] (Nat.zero_le _) h
    have hrest : rest = [] := finishItem_nil hdone
    rw [hrest, List.append_nil] at hbytes
    exact ⟨value, haccepted, hbytes⟩
  · rintro ⟨value, haccepted, rfl⟩
    obtain ⟨k, hk, hrun⟩ := validateItem_complete [] [] haccepted
    have hfuel : value.encode.length + 1 = k + (value.encode.length + 1 - k) := by omega
    have hrun := hrun (value.encode.length + 1 - k)
    rw [← hfuel, List.append_nil] at hrun
    rw [hrun]
    rfl

theorem validateCanonical_eq_ok_iff (bytes : Bytes) (limits : CborLimits) :
    validateCanonical bytes limits = .ok () ↔
      ¬ (limits.maxDepth = 0 ∨ limits.maxCollectionItems = 0 ∨ limits.maxBodyLen = 0 ∨ bytes = []
        ∨ bytes.length > limits.maxBodyLen) ∧
      validateItem limits (bytes.length + 1) bytes [] = .ok [] := by
  unfold validateCanonical
  split
  · rename_i hlimits
    simp [hlimits]
  · rename_i hlimits
    rw [and_iff_right hlimits]
    constructor
    · intro h
      obtain ⟨rest, hitem, h⟩ := Except.bind_eq_ok.mp h
      by_cases hrest : rest = []
      · rw [hitem, hrest]
      · rw [if_pos hrest] at h
        cases h
    · intro h
      simp [h]

/-- The validator accepts exactly the deterministic encodings within the limits, each of one
    value, and its loop ends on every input. -/
theorem validateCanonical_iff (bytes : Bytes) (limits : CborLimits) :
    (validateCanonical bytes limits = .ok () ↔
      limits.maxDepth ≠ 0 ∧ limits.maxCollectionItems ≠ 0 ∧ limits.maxBodyLen ≠ 0 ∧
      1 ≤ bytes.length ∧ bytes.length ≤ limits.maxBodyLen ∧
      ∃! value : Value, value.Deterministic ∧ value.depth ≤ limits.maxDepth ∧
        value.width ≤ limits.maxCollectionItems ∧ bytes = value.encode) ∧
    ∀ extra, validateItem limits (bytes.length + 1 + extra) bytes [] =
      validateLoop limits bytes [] := by
  refine ⟨?_, fun extra => validateItem_eq_loop limits [] (by omega)⟩
  have hvalues : (∃ value, WithinLimits limits 0 value ∧ bytes = value.encode) ↔
      ∃! value : Value, value.Deterministic ∧ value.depth ≤ limits.maxDepth ∧
        value.width ≤ limits.maxCollectionItems ∧ bytes = value.encode := by
    constructor
    · intro ⟨value, haccepted, hbytes⟩
      have hdepth := haccepted.depth
      refine ⟨value, ⟨haccepted.deterministic, by omega, haccepted.width, hbytes⟩, ?_⟩
      rintro other ⟨hdeterministic, -, -, hother⟩
      exact Value.encode_inj hdeterministic haccepted.deterministic (hother.symm.trans hbytes)
    · rintro ⟨value, ⟨hdeterministic, hdepth, hwidth, hbytes⟩, -⟩
      exact ⟨value, ⟨hdeterministic, by omega, hwidth⟩, hbytes⟩
  have hlength : bytes ≠ [] ↔ 1 ≤ bytes.length := by
    rw [← List.length_pos_iff]
    rfl
  rw [validateCanonical_eq_ok_iff, validateItem_whole_iff, hvalues, ← hlength]
  simp only [not_or, gt_iff_lt, not_lt, ne_eq, and_assoc]

/-! ## Items -/

section Items

open Cbor (Item)

mutual

/-- An item as a value. -/
def itemValue : Item → Value
  | .uint n => .uint n
  | .bytes value => .bytes value
  | .text value => .text value
  | .array items => .array (itemValues items)
  | .bool value => .bool value
  | .null => .null

def itemValues : List Item → List Value
  | [] => []
  | item :: items => itemValue item :: itemValues items

end

@[simp] theorem length_itemValues (items : List Item) :
    (itemValues items).length = items.length := by
  induction items with
  | nil => rfl
  | cons item items ih => simp [itemValues, ih]

mutual

theorem encode_itemValue (item : Item) : (itemValue item).encode = item.encode := by
  cases item with
  | uint n => rfl
  | bytes value => rfl
  | text value => rfl
  | array items =>
    simp only [itemValue, Value.encode, Item.encode, length_itemValues, encodeAll_itemValues items,
      Cbor.encodeArray]
  | bool value => cases value <;> rfl
  | null => rfl

theorem encodeAll_itemValues (items : List Item) :
    Value.encodeAll (itemValues items) = Item.encodeAll items := by
  cases items with
  | nil => rfl
  | cons item items =>
    simp only [itemValues, Value.encodeAll, Item.encodeAll, encode_itemValue item,
      encodeAll_itemValues items]

end

mutual

/-- An item whose texts are UTF-8 is encoded deterministically. -/
theorem deterministic_itemValue {limits : CborLimits} {depth : Nat} {item : Item}
    (hfits : Fits limits depth item) (hsize : item.size < 2 ^ 64) :
    (itemValue item).Deterministic := by
  cases item with
  | uint n => trivial
  | bytes value =>
    simp only [Item.size] at hsize
    simp only [itemValue, Value.Deterministic]
    omega
  | text value =>
    simp only [Item.size] at hsize
    simp only [Fits] at hfits
    simp only [itemValue, Value.Deterministic]
    exact ⟨by omega, hfits⟩
  | array items =>
    simp only [Item.size] at hsize
    simp only [Fits] at hfits
    have hcount := Item.length_le_sizeAll items
    simp only [itemValue, Value.Deterministic, length_itemValues]
    exact ⟨by omega, deterministicAll_itemValues hfits.2.2 (by omega)⟩
  | bool value => trivial
  | null => trivial

theorem deterministicAll_itemValues {limits : CborLimits} {depth : Nat} {items : List Item}
    (hfits : FitsAll limits depth items) (hsize : Item.sizeAll items < 2 ^ 64) :
    Value.DeterministicAll (itemValues items) := by
  cases items with
  | nil => trivial
  | cons item items =>
    simp only [Item.sizeAll] at hsize
    simp only [FitsAll] at hfits
    simp only [itemValues, Value.DeterministicAll]
    exact ⟨deterministic_itemValue hfits.1 (by omega),
      deterministicAll_itemValues hfits.2 (by omega)⟩

end

/-- The validator counts the items of every array. -/
theorem width_le_of_validateCanonical {limits limits' : CborLimits} {depth : Nat} {item : Item}
    (hfits : Fits limits' depth item) (hsize : item.size < 2 ^ 64)
    (h : validateCanonical item.encode limits = .ok ()) :
    (itemValue item).width ≤ limits.maxCollectionItems := by
  obtain ⟨-, hwhole⟩ := (validateCanonical_eq_ok_iff _ _).mp h
  obtain ⟨value, hwithin, hencode⟩ := (validateItem_whole_iff _ _).mp hwhole
  have hsame : itemValue item = value := by
    apply Value.encode_inj (deterministic_itemValue hfits hsize) hwithin.deterministic
    rw [encode_itemValue, hencode]
  rw [hsame]
  exact hwithin.width

/-- An array is as wide as what it holds. -/
theorem width_le_of_mem {item : Item} {items : List Item} (h : item ∈ items) :
    (itemValue item).width ≤ (itemValue (.array items)).width := by
  have hall : (itemValue item).width ≤ Value.widthAll (itemValues items) := by
    induction items with
    | nil => cases h
    | cons first items ih =>
      simp only [itemValues, Value.widthAll]
      cases h with
      | head => exact Nat.le_max_left _ _
      | tail _ h => exact (ih h).trans (Nat.le_max_right _ _)
  simp only [itemValue, Value.width]
  exact hall.trans (Nat.le_max_right _ _)

theorem length_le_width (items : List Item) :
    items.length ≤ (itemValue (.array items)).width := by
  simp only [itemValue, Value.width, length_itemValues]
  exact Nat.le_max_left _ _

end Items

/-! ## Decoded values -/

/-- A value is decoded from a canonical body that its reader takes whole. -/
theorem decodeCanonical_eq_ok_iff {α : Type} {codec : CborCodec α} {body : Bytes} {value : α} :
    decodeCanonical codec body limits = .ok value ↔
      validateCanonical body limits = .ok () ∧ codec.decode body = some (value, []) := by
  unfold decodeCanonical
  cases hvalid : validateCanonical body limits with
  | error e => simp [Result.error_bind]
  | ok _ =>
    rw [Result.ok_bind]
    cases hread : codec.decode body with
    | none => simp [decoding, Result.error_bind]
    | some found =>
      obtain ⟨read, rest⟩ := found
      cases rest with
      | nil => simp [decoding]
      | cons b rest => simp [decoding]

theorem length_le_of_validateCanonical {body : Bytes} (h : validateCanonical body limits = .ok ()) :
    body.length ≤ limits.maxBodyLen := by
  have hlimits := ((validateCanonical_eq_ok_iff body limits).mp h).1
  omega

end Radiata
