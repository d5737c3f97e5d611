import Radiata.ForStd.Sha256

/-!
# HMAC and HKDF

HMAC-SHA256 (RFC 2104) and the extract-and-expand key derivation over it (RFC 5869),
as executable definitions.
-/

namespace Sha256

/-- The block length of SHA-256. -/
def blockLen : Nat := 64

/-- HMAC-SHA256: a long key is hashed, a short one is padded to a block. -/
def hmac (key message : Bytes) : Bytes :=
  let key := if key.length > blockLen then hash key else key
  let block := key ++ List.replicate (blockLen - key.length) 0
  hash (block.map (· ^^^ 0x5C) ++ hash (block.map (· ^^^ 0x36) ++ message))

@[simp] theorem length_hmac (key message : Bytes) : (hmac key message).length = 32 := length_hash _

/-- HKDF-Extract. -/
def hkdfExtract (salt keyMaterial : Bytes) : Bytes := hmac salt keyMaterial

/-- The blocks `T(counter) ...` of HKDF-Expand. -/
def expandBlocks (prk info : Bytes) : Nat → UInt8 → Bytes → Bytes
  | 0, _, _ => []
  | n + 1, counter, previous =>
    let block := hmac prk (previous ++ info ++ [counter])
    block ++ expandBlocks prk info n (counter + 1) block

/-- HKDF-Expand: at most 255 blocks. -/
def hkdfExpand (prk info : Bytes) (length : Nat) : Option Bytes :=
  if length > 255 * 32 then none
  else some ((expandBlocks prk info ((length + 31) / 32) 1 []).take length)

/-- One block of key material is one MAC. -/
theorem hkdfExpand_block (prk info : Bytes) :
    hkdfExpand prk info 32 = some (hmac prk (info ++ [1])) := by
  have hlen : (hmac prk (info ++ [1])).length = 32 := length_hmac _ _
  simp only [hkdfExpand, expandBlocks, List.nil_append, List.append_nil]
  rw [if_neg (by omega), ← hlen, List.take_length]

end Sha256
