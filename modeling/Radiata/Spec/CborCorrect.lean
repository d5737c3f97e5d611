import Radiata.ForStd.CborItem
import Radiata.Native.Cbor

/-!
# The canonical validator accepts every encoding

`validate_canonical` walks the items of its input with a stack of open containers. On
the encoding of an item it reads that item and nothing else, and it accepts as long as
the containers stay within the depth and item limits. So `encode_canonical` of such
an item fails only when the encoding is longer than the body limit.

## Key results

- `validateItem_encode`: the loop passes over one encoding
- `validateCanonical_encode`: a fitting item is accepted
- `encodeCanonical_item`: `encode_canonical` succeeds exactly within the body limit
- `Sendable`: a wire value that is encoded under the control limits and read back
-/

namespace Radiata

open Cbor (Item)
open Reader (Reads)

/-! ## Headers -/

/-- The item type of the major types that a derived encoder writes with a header. -/
def typeOfMajor : Nat → CborType
  | 0 => .integer
  | 2 => .bytes
  | 3 => .string
  | 4 => .array
  | _ => .unsupported

theorem datatype_initial {major info : Nat} (hmajor : major ∈ [0, 2, 3, 4])
    (hinfo : info < 28) (rest : Bytes) :
    datatype (Cbor.initial major info :: rest) = some (typeOfMajor major) := by
  have hnat : (Cbor.initial major info).toNat = major * 32 + info :=
    Cbor.toNat_initial (by simp at hmajor; omega) (by omega)
  simp only [datatype, UInt8.le_iff_toNat_le, ← UInt8.toNat_inj, hnat, UInt8.reduceToNat]
  simp only [List.mem_cons, List.not_mem_nil, or_false] at hmajor
  obtain rfl | rfl | rfl | rfl := hmajor
  · rw [if_pos (by omega)]
    rfl
  · rw [if_neg (by omega), if_neg (by omega), if_neg (by omega), if_pos (by omega)]
    rfl
  · rw [if_neg (by omega), if_neg (by omega), if_neg (by omega), if_neg (by omega),
      if_pos (by omega)]
    rfl
  · rw [if_neg (by omega), if_neg (by omega), if_neg (by omega), if_neg (by omega),
      if_neg (by omega), if_pos (by omega)]
    rfl

theorem datatype_head {major n : Nat} (hmajor : major ∈ [0, 2, 3, 4]) (rest : Bytes) :
    datatype (Cbor.head major n ++ rest) = some (typeOfMajor major) := by
  obtain ⟨info, tail, hinfo, hhead⟩ := Cbor.head_eq_cons major n
  rw [hhead, List.cons_append]
  exact datatype_initial hmajor hinfo _

/-- The argument of a shortest-form header is read with the length of that header. -/
theorem canonicalArgument_head (major : Nat) {n : Nat} (hmajor : major < 8) (hn : n < 2 ^ 64)
    (rest : Bytes) :
    canonicalArgument (Cbor.head major n ++ rest) = .ok (n, Cbor.headLen n) := by
  obtain ⟨info, tail, hinfo, hhead⟩ := Cbor.head_eq_cons major n
  have hlen := Cbor.length_head major n
  have hread := Cbor.reads_header hmajor hn rest
  rw [hhead, List.cons_append] at hread
  have hnat : (Cbor.initial major info).toNat = major * 32 + info :=
    Cbor.toNat_initial hmajor (by omega)
  have hargument : Cbor.argument info (tail ++ rest) = some (n, rest) := by
    have hstep : Cbor.header major (Cbor.initial major info :: (tail ++ rest)) =
        Cbor.argument info (tail ++ rest) := by
      show (if (Cbor.initial major info).toNat / 32 = major
        then Cbor.argument ((Cbor.initial major info).toNat % 32) else failure) (tail ++ rest) = _
      rw [hnat, if_pos (by omega), show (major * 32 + info) % 32 = info by omega]
    rw [← hstep]
    exact hread
  rw [hhead, List.length_cons] at hlen
  rw [hhead, List.cons_append]
  simp only [canonicalArgument, hnat, show (major * 32 + info) % 32 = info by omega]
  rw [if_neg (by omega), hargument]
  simp only [List.length_append]
  -- the canonical length is `headLen` written out
  show (if 1 + (tail.length + rest.length - rest.length) ≠ Cbor.headLen n
    then (.error (.invalidInput "CBOR non-shortest argument") : Result (Nat × Nat))
    else .ok (n, 1 + (tail.length + rest.length - rest.length))) = _
  rw [if_neg (by omega), show 1 + (tail.length + rest.length - rest.length) = Cbor.headLen n by omega]

/-! ## Items -/

mutual

/-- An item at nesting depth `depth` stays within the depth and item limits, and its
    texts are UTF-8. -/
def Fits (limits : CborLimits) : Nat → Item → Prop
  | depth, .array items =>
    depth < limits.maxDepth ∧ items.length ≤ limits.maxCollectionItems ∧
      FitsAll limits (depth + 1) items
  | _, .text value => value.isUtf8 = true
  | _, _ => True

def FitsAll (limits : CborLimits) : Nat → List Item → Prop
  | _, [] => True
  | depth, item :: items => Fits limits depth item ∧ FitsAll limits depth items

end

variable {limits : CborLimits}

theorem fitsAll_iff {depth : Nat} {items : List Item} :
    FitsAll limits depth items ↔ ∀ item ∈ items, Fits limits depth item := by
  induction items with
  | nil => simp [FitsAll]
  | cons item items ih => simp [FitsAll, ih]

/-- The end of an iteration: containers are closed and the loop goes on with the rest. -/
def finishItem (limits : CborLimits) (fuel : Nat) (rest : Bytes) (stack : List ContainerFrame) :
    Result Bytes := do
  match ← completeItem rest stack with
  | none => return rest
  | some stack => validateItem limits fuel rest stack

/-- Below a stack without an open map key the start of an iteration changes nothing. -/
def NoMap : List ContainerFrame → Prop
  | [] => True
  | .array _ :: _ => True
  | .map _ _ _ _ :: _ => False

variable {stack : List ContainerFrame}

theorem markKeyStart_eq (h : NoMap stack) (input : Bytes) :
    markKeyStart input stack = stack := by
  cases stack with
  | nil => rfl
  | cons frame stack =>
    cases frame with
    | array remaining => rfl
    | map remaining expectingKey keyStart previousKey => exact absurd h id

private theorem validateItem_scalar {fuel : Nat} {input rest : Bytes} (hstack : NoMap stack)
    (h : validateHeader limits stack.length input = .ok (rest, none)) :
    validateItem limits (fuel + 1) input stack = finishItem limits fuel rest stack := by
  rw [validateItem, markKeyStart_eq hstack, h]
  rfl

private theorem validateSizedItem_ok (headBytes value rest : Bytes) :
    validateSizedItem (headBytes ++ value ++ rest) rest headBytes.length value.length = .ok () := by
  unfold validateSizedItem
  rw [if_neg]
  simp only [List.length_append]
  omega

theorem validateHeader_uint (limits : CborLimits) (depth : Nat) (n : UInt64) (rest : Bytes) :
    validateHeader limits depth ((Item.uint n).encode ++ rest) = .ok (rest, none) := by
  have hargument := canonicalArgument_head 0 (by omega) n.toNat_lt rest
  have hlen := Cbor.length_head 0 n.toNat
  have htype : datatype (Cbor.head 0 n.toNat ++ rest) = some .integer := datatype_head (by simp) rest
  show validateHeader limits depth (Cbor.head 0 n.toNat ++ rest) = .ok (rest, none)
  simp only [validateHeader, htype, decoding, Result.ok_bind, hargument]
  rw [if_neg (by simp only [List.length_append]; omega), ← hlen, List.drop_left]
  rfl

theorem validateHeader_bytes (limits : CborLimits) (depth : Nat) {value : Bytes}
    (hlen : value.length < 2 ^ 64) (rest : Bytes) :
    validateHeader limits depth ((Item.bytes value).encode ++ rest) = .ok (rest, none) := by
  have htype : datatype (Cbor.head 2 value.length ++ (value ++ rest)) = some .bytes :=
    datatype_head (by simp) _
  have hargument := canonicalArgument_head 2 (by omega) hlen (value ++ rest)
  have hread := Cbor.reads_bytes hlen rest
  have hsized := validateSizedItem_ok (Cbor.head 2 value.length) value rest
  rw [Cbor.length_head] at hsized
  show validateHeader limits depth (Cbor.head 2 value.length ++ value ++ rest) = .ok (rest, none)
  rw [Cbor.encodeBytes] at hread
  rw [List.append_assoc] at hread hsized ⊢
  simp only [validateHeader, htype, decoding, Result.ok_bind, hargument, hread, hsized]
  rfl

theorem validateHeader_text (limits : CborLimits) (depth : Nat) {value : Bytes}
    (hlen : value.length < 2 ^ 64) (hutf8 : value.isUtf8 = true) (rest : Bytes) :
    validateHeader limits depth ((Item.text value).encode ++ rest) = .ok (rest, none) := by
  have htype : datatype (Cbor.head 3 value.length ++ (value ++ rest)) = some .string :=
    datatype_head (by simp) _
  have hargument := canonicalArgument_head 3 (by omega) hlen (value ++ rest)
  have hread := Cbor.reads_str hlen hutf8 rest
  have hsized := validateSizedItem_ok (Cbor.head 3 value.length) value rest
  rw [Cbor.length_head] at hsized
  show validateHeader limits depth (Cbor.head 3 value.length ++ value ++ rest) = .ok (rest, none)
  rw [Cbor.encodeStr] at hread
  rw [List.append_assoc] at hread hsized ⊢
  simp only [validateHeader, htype, decoding, Result.ok_bind, hargument, hread, hsized]
  rfl

theorem validateHeader_array (limits : CborLimits) {depth length : Nat}
    (hdepth : depth < limits.maxDepth) (hitems : length ≤ limits.maxCollectionItems)
    (hlen : length < 2 ^ 64) (rest : Bytes) :
    validateHeader limits depth (Cbor.encodeArray length ++ rest) =
      .ok (rest, some (.array length)) := by
  have htype : datatype (Cbor.encodeArray length ++ rest) = some .array :=
    datatype_head (by simp) rest
  have hargument : canonicalArgument (Cbor.encodeArray length ++ rest) = _ :=
    canonicalArgument_head 4 (by omega) hlen rest
  have hread := Cbor.reads_array hlen rest
  simp only [validateHeader, htype, decoding, Result.ok_bind, validateContainer,
    validateContainerDepth, hargument, hread]
  rw [if_neg (by omega)]
  simp only [Result.ok_bind]
  rw [if_neg (by omega)]
  rfl

mutual

/-- The iterations of the loop over one encoding. -/
def nodes : Item → Nat
  | .array items => nodesAll items + 1
  | .uint _ => 1
  | .bytes _ => 1
  | .text _ => 1
  | .bool _ => 1
  | .null => 1

def nodesAll : List Item → Nat
  | [] => 0
  | item :: items => nodes item + nodesAll items

end

mutual

theorem nodes_le_size (item : Item) : nodes item ≤ item.size := by
  cases item with
  | array items =>
    have hall := nodesAll_le_sizeAll items
    have hhead := Cbor.headLen_pos items.length
    simp only [nodes, Item.size]
    omega
  | uint n => exact Item.size_pos _
  | bytes value => exact Item.size_pos _
  | text value => exact Item.size_pos _
  | bool value => exact Nat.le_refl 1
  | null => exact Nat.le_refl 1

theorem nodesAll_le_sizeAll (items : List Item) : nodesAll items ≤ Item.sizeAll items := by
  cases items with
  | nil => exact Nat.le_refl 0
  | cons item items =>
    have hitem := nodes_le_size item
    have hitems := nodesAll_le_sizeAll items
    simp only [nodesAll, Item.sizeAll]
    omega

end

theorem finishItem_array_one (limits : CborLimits) (fuel : Nat) (rest : Bytes)
    (stack : List ContainerFrame) :
    finishItem limits fuel rest (.array 1 :: stack) = finishItem limits fuel rest stack := rfl

theorem finishItem_array_succ (limits : CborLimits) (fuel n : Nat) (rest : Bytes)
    (stack : List ContainerFrame) :
    finishItem limits fuel rest (.array (n + 2) :: stack) =
      validateItem limits fuel rest (.array (n + 1) :: stack) := rfl

mutual

/-- The loop passes over the encoding of a fitting item. -/
theorem validateItem_encode {limits : CborLimits} {item : Item} (stack : List ContainerFrame)
    (fuel : Nat) (rest : Bytes) (hstack : NoMap stack) (hfits : Fits limits stack.length item)
    (hsize : item.size < 2 ^ 64) :
    validateItem limits (nodes item + fuel) (item.encode ++ rest) stack =
      finishItem limits fuel rest stack := by
  cases item with
  | uint n =>
    rw [nodes, Nat.add_comm]
    exact validateItem_scalar hstack (validateHeader_uint limits _ n rest)
  | bytes value =>
    simp only [Item.size] at hsize
    rw [nodes, Nat.add_comm]
    exact validateItem_scalar hstack (validateHeader_bytes limits _ (by omega) rest)
  | text value =>
    simp only [Item.size] at hsize
    rw [nodes, Nat.add_comm]
    exact validateItem_scalar hstack (validateHeader_text limits _ (by omega) hfits rest)
  | bool value =>
    rw [nodes, Nat.add_comm]
    cases value <;> exact validateItem_scalar hstack rfl
  | null =>
    rw [nodes, Nat.add_comm]
    exact validateItem_scalar hstack rfl
  | array items =>
    obtain ⟨hdepth, hitems, hall⟩ := hfits
    have hcount := Item.length_le_sizeAll items
    simp only [Item.size] at hsize
    have hheader := validateHeader_array limits hdepth hitems (by omega)
      (Item.encodeAll items ++ rest)
    rw [nodes, Item.encode, List.append_assoc, Nat.add_right_comm, validateItem,
      markKeyStart_eq hstack, hheader]
    cases items with
    | nil => exact congrArg (finishItem limits · rest stack) (Nat.zero_add fuel)
    | cons first items => exact validateItem_encodeAll fuel rest hall (by simp) (by omega)

/-- The loop passes over the items of an open array and closes it. -/
theorem validateItem_encodeAll {limits : CborLimits} {items : List Item}
    {stack : List ContainerFrame} (fuel : Nat) (rest : Bytes)
    (hfits : FitsAll limits (stack.length + 1) items) (hne : items ≠ [])
    (hsize : Item.sizeAll items < 2 ^ 64) :
    validateItem limits (nodesAll items + fuel) (Item.encodeAll items ++ rest)
        (.array items.length :: stack) = finishItem limits fuel rest stack := by
  cases items with
  | nil => exact absurd rfl hne
  | cons first items =>
    simp only [Item.sizeAll] at hsize
    have hfirst := validateItem_encode (.array (first :: items).length :: stack)
      (nodesAll items + fuel) (Item.encodeAll items ++ rest) trivial hfits.1 (by omega)
    rw [nodesAll, Item.encodeAll, List.append_assoc, Nat.add_assoc, hfirst]
    cases items with
    | nil =>
      rw [nodesAll, Nat.zero_add]
      exact finishItem_array_one limits fuel rest stack
    | cons second items =>
      rw [List.length_cons, List.length_cons, finishItem_array_succ]
      exact validateItem_encodeAll fuel rest hfits.2 (by simp) (by omega)

end

/-- A fitting item within the body limit is accepted. -/
theorem validateCanonical_encode {item : Item} (hdepth : limits.maxDepth ≠ 0)
    (hcollection : limits.maxCollectionItems ≠ 0) (hfits : Fits limits 0 item)
    (hbody : item.size ≤ limits.maxBodyLen) (hmax : limits.maxBodyLen < 2 ^ 64) :
    validateCanonical item.encode limits = .ok () := by
  have hlen := item.length_encode
  have hpos := item.size_pos
  have hnodes := nodes_le_size item
  have hne : item.encode ≠ [] := by
    intro hnil
    rw [hnil] at hlen
    exact absurd hlen.symm (Nat.ne_of_gt hpos)
  have hloop : validateItem limits (item.encode.length + 1) item.encode [] = .ok [] := by
    have hrun := validateItem_encode [] (item.size + 1 - nodes item) [] trivial hfits
      (by omega)
    rw [List.append_nil, show nodes item + (item.size + 1 - nodes item) = item.encode.length + 1 by
      omega] at hrun
    rw [hrun]
    rfl
  have hlimits : ¬ (limits.maxDepth = 0 ∨ limits.maxCollectionItems = 0 ∨ limits.maxBodyLen = 0 ∨
      item.encode = [] ∨ item.encode.length > limits.maxBodyLen) := by
    rw [hlen, or_iff_right hne]
    omega
  simp only [validateCanonical]
  rw [if_neg hlimits, hloop]
  rfl

variable {α : Type}

/-- `encode_canonical` of a fitting item succeeds exactly within the body limit. -/
theorem encodeCanonical_item (codec : CborCodec α) (value : α) {item : Item}
    (hcodec : codec.encode value = item.encode) (hdepth : limits.maxDepth ≠ 0)
    (hcollection : limits.maxCollectionItems ≠ 0) (hfits : Fits limits 0 item)
    (hmax : limits.maxBodyLen < 2 ^ 64) :
    encodeCanonical codec value limits =
      if item.size ≤ limits.maxBodyLen then .ok item.encode
      else .error (.invalidInput "CBOR encode") := by
  simp only [encodeCanonical, hcodec, Item.length_encode]
  by_cases hbody : item.size ≤ limits.maxBodyLen
  · rw [if_neg (by omega), if_pos hbody,
      validateCanonical_encode hdepth hcollection hfits hbody hmax]
    rfl
  · rw [if_pos (by omega), if_neg hbody]
    rfl

/-- A message that is sent and read back. -/
structure Sendable {α : Type} (codec : CborCodec α) (wire : α) (item : Item) : Prop where
  encodes : codec.encode wire = item.encode
  reads : Reads codec.decode item.encode wire
  fits : Fits controlCborLimits 0 item
  small : item.size ≤ 65536

namespace Sendable

variable {α : Type} {codec : CborCodec α} {wire : α} {item : Item}

theorem encodeCanonical_eq (h : Sendable codec wire item) :
    encodeCanonical codec wire controlCborLimits = .ok item.encode := by
  rw [encodeCanonical_item _ _ h.encodes (by decide) (by decide) h.fits (by decide), if_pos]
  exact h.small

theorem decodeStrict_eq (h : Sendable codec wire item) (context : String) :
    decodeCanonicalStrict codec item.encode controlCborLimits context = .ok wire :=
  decodeStrict_of_encodeCanonical context (h.encodes ▸ h.reads) h.encodeCanonical_eq

end Sendable

/-! ## Errors of the validator -/

section Errors

variable {e : Error}

theorem invalidInput_ne_error {α : Type} (he : e.kind ≠ .invalidInput) (context : String) :
    (.error (.invalidInput context) : Result α) ≠ .error e := by
  intro h
  apply he
  rw [← Except.error.inj h]
  rfl

theorem decoding_ne_error {α : Type} (he : e.kind ≠ .invalidInput) (context : String)
    (x : Option α) : decoding context x ≠ .error e := by
  cases x with
  | none => exact invalidInput_ne_error he context
  | some a => exact nofun

theorem canonicalArgument_ne_error (he : e.kind ≠ .invalidInput) (input : Bytes) :
    canonicalArgument input ≠ .error e := by
  unfold canonicalArgument
  split
  · exact invalidInput_ne_error he _
  · dsimp only
    split
    · exact invalidInput_ne_error he _
    · split
      · exact invalidInput_ne_error he _
      · rename_i value rest' _
        generalize (if value < 24 then 1 else if value < 2 ^ 8 then 2 else if value < 2 ^ 16 then 3
          else if value < 2 ^ 32 then 5 else 9) = canonicalLen
        split
        · exact invalidInput_ne_error he _
        · exact nofun

theorem validateSizedItem_ne_error (he : e.kind ≠ .invalidInput) (start stop : Bytes)
    (headerLen valueLen : Nat) : validateSizedItem start stop headerLen valueLen ≠ .error e := by
  unfold validateSizedItem
  split
  · exact invalidInput_ne_error he _
  · exact nofun

theorem validateContainer_ne_error (he : e.kind ≠ .invalidInput) (limits : CborLimits) (depth : Nat)
    (input : Bytes) (decodeLength : Reader (Option Nat)) (name : String) :
    validateContainer limits depth input decodeLength name ≠ .error e := by
  refine Except.bind_ne_error ?_ fun _ _ => ?_
  · unfold validateContainerDepth
    split
    · exact invalidInput_ne_error he _
    · exact nofun
  refine Except.bind_ne_error (canonicalArgument_ne_error he input) fun _ _ => ?_
  refine Except.bind_ne_error (decoding_ne_error he _ _) fun _ _ => ?_
  refine Except.bind_ne_error (decoding_ne_error he _ _) fun _ _ => ?_
  split
  · exact invalidInput_ne_error he _
  · exact nofun

theorem validateHeader_ne_error (he : e.kind ≠ .invalidInput) (limits : CborLimits) (depth : Nat)
    (input : Bytes) : validateHeader limits depth input ≠ .error e := by
  refine Except.bind_ne_error (decoding_ne_error he _ _) fun type _ => ?_
  cases type with
  | integer =>
    refine Except.bind_ne_error (canonicalArgument_ne_error he input) fun _ _ => ?_
    dsimp only
    split
    · exact invalidInput_ne_error he _
    · exact nofun
  | bytes | string =>
    refine Except.bind_ne_error (canonicalArgument_ne_error he input) fun _ _ => ?_
    refine Except.bind_ne_error (decoding_ne_error he _ _) fun _ _ => ?_
    exact Except.bind_ne_error (validateSizedItem_ne_error he _ _ _ _) fun _ _ => nofun
  | array => exact Except.bind_ne_error (validateContainer_ne_error he _ _ _ _ _) fun _ _ => nofun
  | map => exact Except.bind_ne_error (validateContainer_ne_error he _ _ _ _ _) fun _ _ => nofun
  | bool => exact nofun
  | null => exact nofun
  | unsupported => exact invalidInput_ne_error he _

theorem completeItem_ne_error (he : e.kind ≠ .invalidInput) (input : Bytes)
    (stack : List ContainerFrame) : completeItem input stack ≠ .error e := by
  fun_induction completeItem input stack with
  | case1 => exact nofun
  | case2 => exact invalidInput_ne_error he _
  | case3 stack remaining _ _ ih => exact ih
  | case4 => exact nofun
  | case5 => exact invalidInput_ne_error he _
  | case6 => exact invalidInput_ne_error he _
  | case7 => exact nofun
  | case8 => exact invalidInput_ne_error he _
  | case9 stack keyStart previousKey remaining _ _ ih => exact ih
  | case10 => exact nofun

theorem validateItem_ne_error (he : e.kind ≠ .invalidInput) (limits : CborLimits) (fuel : Nat)
    (input : Bytes) (stack : List ContainerFrame) :
    validateItem limits fuel input stack ≠ .error e := by
  induction fuel generalizing input stack with
  | zero => exact invalidInput_ne_error he _
  | succ fuel ih =>
    refine Except.bind_ne_error (validateHeader_ne_error he _ _ _) fun next _ => ?_
    dsimp only
    split
    · exact ih _ _
    · refine Except.bind_ne_error (completeItem_ne_error he _ _) fun completed _ => ?_
      cases completed with
      | none => exact nofun
      | some stack => exact ih _ _

/-- Every error of the validator is an `InvalidInput`. -/
theorem validateCanonical_ne_error (he : e.kind ≠ .invalidInput) (bytes : Bytes)
    (limits : CborLimits) : validateCanonical bytes limits ≠ .error e := by
  unfold validateCanonical
  dsimp only
  split
  · exact invalidInput_ne_error he _
  · refine Except.bind_ne_error (validateItem_ne_error he _ _ _ _) fun rest _ => ?_
    split
    · exact invalidInput_ne_error he _
    · exact nofun

theorem encodeCanonical_ne_error {α : Type} (he : e.kind ≠ .invalidInput) (codec : CborCodec α)
    (value : α) (limits : CborLimits) : encodeCanonical codec value limits ≠ .error e := by
  unfold encodeCanonical
  dsimp only
  split
  · exact invalidInput_ne_error he _
  · exact Except.bind_ne_error (validateCanonical_ne_error he _ _) fun _ _ => nofun

end Errors

end Radiata
