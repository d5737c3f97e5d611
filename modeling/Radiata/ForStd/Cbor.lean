import Radiata.ForStd.Reader

/-!
# CBOR items

The definite-length items of RFC 8949 that a byte-level codec writes and reads:
unsigned integers, byte strings, text strings and array headers, with the
shortest-form argument on the writing side.

The reading side accepts every argument width, as decoders do.
-/

namespace Cbor

/-- The initial byte of major type `major` with additional information `info`. -/
def initial (major info : Nat) : UInt8 := UInt8.ofNat (major * 32 + info)

/-- The shortest-form header of major type `major` with argument `n`. -/
def head (major n : Nat) : Bytes :=
  if n < 24 then [initial major n]
  else if n < 2 ^ 8 then initial major 24 :: Bytes.toBE 1 n
  else if n < 2 ^ 16 then initial major 25 :: Bytes.toBE 2 n
  else if n < 2 ^ 32 then initial major 26 :: Bytes.toBE 4 n
  else initial major 27 :: Bytes.toBE 8 n

/-- The argument after an initial byte with additional information `info`. -/
def argument (info : Nat) : Reader Nat :=
  if info < 24 then pure info
  else if info = 24 then Bytes.ofBE <$> Reader.take 1
  else if info = 25 then Bytes.ofBE <$> Reader.take 2
  else if info = 26 then Bytes.ofBE <$> Reader.take 4
  else if info = 27 then Bytes.ofBE <$> Reader.take 8
  else failure

/-- The argument of an item of major type `major`. -/
def header (major : Nat) : Reader Nat := do
  let b ← Reader.byte
  if b.toNat / 32 = major then argument (b.toNat % 32) else failure

def encodeU64 (n : UInt64) : Bytes := head 0 n.toNat
def encodeBytes (bytes : Bytes) : Bytes := head 2 bytes.length ++ bytes
def encodeStr (text : Bytes) : Bytes := head 3 text.length ++ text
def encodeArray (length : Nat) : Bytes := head 4 length

def decodeU64 : Reader UInt64 := UInt64.ofNat <$> header 0

def decodeBytes : Reader Bytes := do
  let length ← header 2
  Reader.take length

def decodeStr : Reader Bytes := do
  let length ← header 3
  let text ← Reader.take length
  if Bytes.isUtf8 text then pure text else failure

/-- An array header: `none` for an indefinite length. -/
def decodeArray : Reader (Option Nat) := fun input =>
  match input with
  | [] => none
  | b :: rest => if b = 0x9F then some (none, rest) else (some <$> header 4) input

/-- A map header: `none` for an indefinite length. -/
def decodeMap : Reader (Option Nat) := fun input =>
  match input with
  | [] => none
  | b :: rest => if b = 0xBF then some (none, rest) else (some <$> header 5) input

/-- Skip `pending` definite-length items. -/
def skipItems : Nat → Nat → Reader Unit
  | _, 0 => pure ()
  | 0, _ + 1 => failure
  | fuel + 1, pending + 1 => do
    let b ← Reader.byte
    let n ← argument (b.toNat % 32)
    match b.toNat / 32 with
    | 2 => do let _ ← Reader.take n; skipItems fuel pending
    | 3 => do let _ ← Reader.take n; skipItems fuel pending
    | 4 => skipItems fuel (pending + n)
    | 5 => skipItems fuel (pending + 2 * n)
    | 6 => skipItems fuel (pending + 1)
    | _ => skipItems fuel pending

/-- Skip `count` items; every item takes at least one byte. -/
def skip (count : Nat) : Reader Unit := fun input => skipItems input.length count input

/-! ## Round trips -/

theorem toNat_initial {major info : Nat} (hmajor : major < 8) (hinfo : info < 32) :
    (initial major info).toNat = major * 32 + info := by
  rw [initial, UInt8.toNat_ofNat']
  exact Nat.mod_eq_of_lt (by omega)

private theorem header_cons {major info : Nat} (hmajor : major < 8) (hinfo : info < 32)
    (rest : Bytes) : header major (initial major info :: rest) = argument info rest := by
  have hnat := toNat_initial hmajor hinfo
  show (if (initial major info).toNat / 32 = major then argument ((initial major info).toNat % 32)
    else failure) rest = argument info rest
  rw [hnat, if_pos (by omega), show (major * 32 + info) % 32 = info by omega]

private theorem reads_ofBE (width n : Nat) (h : n < 256 ^ width) :
    Reader.Reads (Bytes.ofBE <$> Reader.take width) (Bytes.toBE width n) n := by
  have hread := (Reader.reads_take (Bytes.toBE width n)).map (f := Bytes.ofBE)
  rw [Bytes.length_toBE, Bytes.ofBE_toBE width n h] at hread
  exact hread

/-- A shortest-form header reads back. -/
theorem reads_header {major n : Nat} (hmajor : major < 8) (hn : n < 2 ^ 64) :
    Reader.Reads (header major) (head major n) n := by
  intro rest
  simp only [head]
  split
  · rw [List.singleton_append, header_cons hmajor (by omega), argument, if_pos (by omega)]
    rfl
  split
  · rw [List.cons_append, header_cons hmajor (by omega)]
    exact reads_ofBE 1 n (by omega) rest
  split
  · rw [List.cons_append, header_cons hmajor (by omega)]
    exact reads_ofBE 2 n (by omega) rest
  split
  · rw [List.cons_append, header_cons hmajor (by omega)]
    exact reads_ofBE 4 n (by omega) rest
  · rw [List.cons_append, header_cons hmajor (by omega)]
    exact reads_ofBE 8 n (by omega) rest

theorem reads_u64 (n : UInt64) : Reader.Reads decodeU64 (encodeU64 n) n := by
  have hheader : Reader.Reads (header 0) (head 0 n.toNat) n.toNat :=
    reads_header (by omega) n.toNat_lt
  have hread := hheader.map (f := UInt64.ofNat)
  rw [UInt64.ofNat_toNat] at hread
  exact hread

theorem reads_bytes {bytes : Bytes} (h : bytes.length < 2 ^ 64) :
    Reader.Reads decodeBytes (encodeBytes bytes) bytes :=
  (reads_header (by omega) h).bind (Reader.reads_take bytes)

theorem reads_str {text : Bytes} (h : text.length < 2 ^ 64) (hutf8 : text.isUtf8 = true) :
    Reader.Reads decodeStr (encodeStr text) text := by
  refine (reads_header (by omega) h).bind ?_
  refine (Reader.reads_take text).bind_nil ?_
  rw [if_pos hutf8]
  exact Reader.Reads.pure text

theorem reads_skip_zero : Reader.Reads (skip 0) [] () := by
  intro rest
  simp only [List.nil_append, skip]
  cases rest.length <;> rfl

/-- A header starts with its initial byte. -/
theorem head_eq_cons (major n : Nat) :
    ∃ info argumentBytes, info < 28 ∧ head major n = initial major info :: argumentBytes := by
  simp only [head]
  split
  · exact ⟨n, [], by omega, rfl⟩
  split
  · exact ⟨24, _, by omega, rfl⟩
  split
  · exact ⟨25, _, by omega, rfl⟩
  split
  · exact ⟨26, _, by omega, rfl⟩
  · exact ⟨27, _, by omega, rfl⟩

theorem reads_array {length : Nat} (h : length < 2 ^ 64) :
    Reader.Reads decodeArray (encodeArray length) (some length) := by
  intro rest
  have hheader : Reader.Reads (header 4) (head 4 length) length := reads_header (by omega) h
  have hread := hheader.map (f := some) rest
  obtain ⟨info, argumentBytes, hinfo, hhead⟩ := head_eq_cons 4 length
  have hdefinite : initial 4 info ≠ 0x9F := by
    intro heq
    have hnat : (initial 4 info).toNat = 4 * 32 + info := toNat_initial (by omega) (by omega)
    rw [heq] at hnat
    simp only [UInt8.reduceToNat] at hnat
    omega
  rw [hhead] at hread
  rw [encodeArray, hhead]
  show (if initial 4 info = 0x9F then some (none, argumentBytes ++ rest)
    else (some <$> header 4) (initial 4 info :: (argumentBytes ++ rest))) = some (some length, rest)
  rw [if_neg hdefinite]
  exact hread

end Cbor
