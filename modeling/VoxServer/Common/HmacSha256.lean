import VoxServer.Common.PicoSha2
import VoxServer.Text.Hex

/-! # The keyed hash of the server

`HmacSha256Hex` is what session tokens are hashed with. It is HMAC with SHA-256 as the
standards define them, written as 64 hexadecimal digits.
-/

namespace VoxServer.HmacSha256

open Hash

def kBlock : ℕ := 64

def kHmacIpadXor : UInt8 := 0x36

def kHmacOpadXor : UInt8 := 0x5c

def sha256Raw (data : List UInt8) : List UInt8 := PicoSha2.hash256 data

/-- `std::memcpy` to the start of an array. -/
def memcpy (dst src : List UInt8) : List UInt8 := src ++ dst.drop src.length

/-- `picosha2::bytes_to_hex_string`. -/
def bytesToHexString (bytes : List UInt8) : String := String.ofList (bytes.flatMap Text.twoDigits)

def hmacSha256Hex (key message : List UInt8) : String :=
  let keyBlock := List.replicate kBlock 0
  let keyBlock :=
    if key.length > kBlock then memcpy keyBlock (sha256Raw key) else memcpy keyBlock key
  let ipad := keyBlock.map (· ^^^ kHmacIpadXor)
  let opad := keyBlock.map (· ^^^ kHmacOpadXor)
  let inner := ipad ++ message
  let innerHash := sha256Raw inner
  let outer := opad ++ innerHash
  bytesToHexString (sha256Raw outer)

theorem length_sha256 (message : List UInt8) : (Sha256.sha256 message).length = 32 := by
  simp [Sha256.sha256, Sha256.State.toList, length_bigEndian]

theorem memcpy_zeros (src : List UInt8) :
    memcpy (List.replicate kBlock 0) src = src ++ List.replicate (kBlock - src.length) 0 := by
  rw [memcpy, List.drop_replicate]

section Standard

variable {key message : List UInt8}

theorem sha256Raw_padded {block rest : List UInt8} (hblock : block.length = kBlock)
    (hrest : rest.length + kBlock < 2 ^ 63) :
    sha256Raw (block ++ rest) = Sha256.sha256 (block ++ rest) := by
  apply PicoSha2.hash256_eq
  rw [List.length_append, hblock, Nat.add_comm]
  exact hrest

theorem hmacSha256Hex_eq (hkey : key.length < 2 ^ 63)
    (hmessage : message.length + kBlock < 2 ^ 63) :
    hmacSha256Hex key message = bytesToHexString (hmac Sha256.sha256 kBlock key message) := by
  have hraw : sha256Raw key = Sha256.sha256 key := PicoSha2.hash256_eq hkey
  -- the key of one block, in both cases of its length
  have hshort : (if key.length > kBlock then memcpy (List.replicate kBlock 0) (sha256Raw key)
        else memcpy (List.replicate kBlock 0) key) =
      (if kBlock < key.length then Sha256.sha256 key else key) ++
        List.replicate
          (kBlock - (if kBlock < key.length then Sha256.sha256 key else key).length) 0 := by
    by_cases h : kBlock < key.length
    · rw [if_pos h, if_pos h, hraw, memcpy_zeros]
    · rw [if_neg h, if_neg h, memcpy_zeros]
  have hle : (if kBlock < key.length then Sha256.sha256 key else key).length ≤ kBlock := by
    split
    · rw [length_sha256]
      decide
    · omega
  simp only [hmacSha256Hex, hshort, hmac]
  generalize (if kBlock < key.length then Sha256.sha256 key else key) = short at hle
  have hblock : (short ++ List.replicate (kBlock - short.length) 0).length = kBlock := by
    rw [List.length_append, List.length_replicate]
    omega
  rw [sha256Raw_padded (by rw [List.length_map, hblock]) hmessage,
    sha256Raw_padded (by rw [List.length_map, hblock]) (by rw [length_sha256]; decide)]
  rfl

end Standard

end VoxServer.HmacSha256
