import VoxServer.Auth.AuthService
import VoxServer.Text.Hex

/-! # The password hasher

The hasher works on bytes: it draws a salt, has Argon2id compute the hash, and stores both
as hexadecimal text. To verify a password it reads the bytes of the salt back from the text.
The services see the texts only.
-/

namespace VoxServer.Argon2

open Text

/-- The exceptions of `std::stoul`. -/
inductive StdException
  | invalidArgument
  | outOfRange
  deriving DecidableEq, Repr

/-- The library: the result code of `argon2id_hash_raw` with what it leaves in the output buffer,
and the texts of the codes. -/
structure Library where
  hashRaw (timeCost memoryCost parallelism : UInt32) (pwd salt : List UInt8) (hashlen : ℕ) :
    ℤ × Vector UInt8 hashlen
  errorMessage : ℤ → String

/-- `ARGON2_OK`. -/
def argon2Ok : ℤ := 0

def kSaltLength : ℕ := 16

def kHashLength : ℕ := 32

def bytesToHex (bytes : List UInt8) : String :=
  bytes.foldl (fun hex b => hex ++ String.ofList (twoDigits b)) ""

/-- `std::stoul` with radix 16; a minus sign wraps around. -/
def stoul (str : List Char) : Except StdException UInt64 :=
  match leadingHex str with
  | none => .error .invalidArgument
  | some n => if n.natAbs < 2 ^ 64 then .ok (UInt64.ofInt n) else .error .outOfRange

/-- The loop of `hexToBytes`; the last part may have one character only. -/
def hexPairs : List Char → Except StdException (List UInt8)
  | [] => return []
  | [a] => return [(← stoul [a]).toUInt8]
  | a :: b :: hex => do
    let byte ← stoul [a, b]
    return byte.toUInt8 :: (← hexPairs hex)

def hexToBytes (hex : String) : Except StdException (List UInt8) := hexPairs hex.toList

structure PasswordHasher where
  timeCost : UInt32 := 3
  memoryCost : UInt32 := 65536
  parallelism : UInt32 := 1
  deriving DecidableEq, Repr

namespace PasswordHasher

variable (lib : Library) (h : PasswordHasher)

/-- What Argon2id makes of a password and a salt with the parameters of the hasher. -/
def argon2id (password salt : List UInt8) : ℤ × Vector UInt8 kHashLength :=
  lib.hashRaw h.timeCost h.memoryCost h.parallelism password salt kHashLength

/-- Hashes the bytes of a password under a random salt; there is none when the random source
fails. -/
def hash (salt : Option (Vector UInt8 kSaltLength)) (passwordDerivedValue : List UInt8) :
    Result HashResult :=
  match salt with
  | none => .error ⟨.internal, "Failed to generate random salt"⟩
  | some saltBytes =>
    let (result, hashBytes) := h.argon2id lib passwordDerivedValue saltBytes.toList
    if result ≠ argon2Ok then
      .error ⟨.internal, "Argon2 hash failed: " ++ lib.errorMessage result⟩
    else .ok ⟨bytesToHex saltBytes.toList, bytesToHex hashBytes.toList⟩

def verify (passwordDerivedValue : List UInt8) (salt verifier : String) :
    Except StdException Bool := do
  let saltBytes ← hexToBytes salt
  let (result, hashBytes) := h.argon2id lib passwordDerivedValue saltBytes
  if result ≠ argon2Ok then return false
  return bytesToHex hashBytes.toList = verifier

end PasswordHasher

section Hex

theorem toList_bytesToHex (bytes : List UInt8) :
    (bytesToHex bytes).toList = bytes.flatMap twoDigits := by
  -- The loop appends to what it has so far.
  have hloop : ∀ hex : String,
      (bytes.foldl (fun hex b => hex ++ String.ofList (twoDigits b)) hex).toList =
        hex.toList ++ bytes.flatMap twoDigits := by
    induction bytes with
    | nil => simp
    | cons b bytes ih =>
      intro hex
      rw [List.foldl_cons, ih, String.toList_append, String.toList_ofList, List.flatMap_cons,
        List.append_assoc]
  rw [bytesToHex, hloop ""]
  rfl

theorem stoul_twoDigits (b : UInt8) : stoul (twoDigits b) = .ok b.toUInt64 := by
  have hlt := b.toNat_lt
  have hfits : (b.toNat : ℤ).natAbs < 2 ^ 64 := by omega
  have hvalue : UInt64.ofInt b.toNat = b.toUInt64 := by
    have hmod : ((b.toNat : ℤ) % 2 ^ 64).toNat = b.toNat := by omega
    rw [UInt64.ofInt, hmod, UInt64.ofNat_uInt8ToNat]
  rw [stoul, leadingHex_twoDigits]
  dsimp only
  rw [if_pos hfits, hvalue]

theorem hexPairs_twoDigits_append (b : UInt8) (hex : List Char) :
    hexPairs (twoDigits b ++ hex) = (hexPairs hex).map (b :: ·) := by
  have hbyte := stoul_twoDigits b
  rw [twoDigits_eq] at hbyte ⊢
  rw [List.cons_append, List.cons_append, List.nil_append, hexPairs, hbyte]
  cases hexPairs hex with
  | error e => rfl
  | ok bytes =>
    change Except.ok (b.toUInt64.toUInt8 :: bytes) = _
    rw [UInt8.toUInt8_toUInt64]
    rfl

theorem hexToBytes_bytesToHex (bytes : List UInt8) :
    hexToBytes (bytesToHex bytes) = .ok bytes := by
  rw [hexToBytes, toList_bytesToHex]
  induction bytes with
  | nil => rfl
  | cons b bytes ih =>
    rw [List.flatMap_cons, hexPairs_twoDigits_append, ih]
    rfl

theorem bytesToHex_injective : Function.Injective bytesToHex := by
  intro bytes bytes' he
  have hread := hexToBytes_bytesToHex bytes
  rw [he, hexToBytes_bytesToHex] at hread
  exact (Except.ok.inj hread).symm

end Hex

namespace PasswordHasher

section Stored

variable {lib : Library} {h : PasswordHasher} {password : List UInt8}
  {salt : Vector UInt8 kSaltLength} {r : HashResult}

theorem hash_eq_ok_iff : h.hash lib (some salt) password = .ok r ↔
    (h.argon2id lib password salt.toList).1 = argon2Ok ∧
      r = ⟨bytesToHex salt.toList, bytesToHex (h.argon2id lib password salt.toList).2.toList⟩ := by
  simp only [hash]
  split
  · rename_i hfailed
    exact iff_of_false (by simp) fun hr => hfailed hr.1
  · rename_i hdone
    rw [not_not] at hdone
    simp [hdone, eq_comm]

theorem verify_text (bytes : List UInt8) (verifier : String) :
    h.verify lib password (bytesToHex bytes) verifier =
      .ok (decide ((h.argon2id lib password bytes).1 = argon2Ok ∧
        bytesToHex (h.argon2id lib password bytes).2.toList = verifier)) := by
  rw [verify, hexToBytes_bytesToHex]
  change (if _ then _ else _) = _
  split
  · rename_i hfailed
    exact congrArg Except.ok (decide_eq_false fun hv => hfailed hv.1).symm
  · rename_i hdone
    exact congrArg Except.ok (decide_eq_decide.mpr (and_iff_right (not_not.mp hdone)).symm)

/-- Under what `Hash` has returned, a password is accepted exactly if Argon2id does not tell it from
the one that was hashed. -/
theorem verify_hashed_iff (hr : h.hash lib (some salt) password = .ok r) (q : List UInt8) :
    h.verify lib q r.salt r.verifier = .ok true ↔
      h.argon2id lib q salt.toList = h.argon2id lib password salt.toList := by
  obtain ⟨hdone, rfl⟩ := hash_eq_ok_iff.mp hr
  rw [verify_text, Except.ok.injEq, decide_eq_true_eq]
  constructor
  · rintro ⟨hq, htext⟩
    have hbytes := Vector.toList_inj.mp (bytesToHex_injective htext)
    exact Prod.ext (hq.trans hdone.symm) hbytes
  · intro he
    rw [he]
    exact ⟨hdone, rfl⟩

end Stored

/-- If a hash under a random salt has succeeded, its password is verified, and any other is verified
only if Argon2id gives the same for both under the bytes of that salt. The bytes are read back from
the text as they were, and different bytes have different texts. -/
theorem stored_verifiers_verify (lib : Library) (h : PasswordHasher) (password : List UInt8)
    (salt : Vector UInt8 kSaltLength) {r : HashResult}
    (hr : h.hash lib (some salt) password = .ok r) :
    h.verify lib password r.salt r.verifier = .ok true ∧
    (∀ q, h.verify lib q r.salt r.verifier = .ok true ↔
      h.argon2id lib q salt.toList = h.argon2id lib password salt.toList) ∧
    (∀ bytes, hexToBytes (bytesToHex bytes) = .ok bytes) ∧ Function.Injective bytesToHex :=
  ⟨(verify_hashed_iff hr password).mpr rfl, verify_hashed_iff hr, hexToBytes_bytesToHex,
    bytesToHex_injective⟩

/-- A library that adds the bytes of the password to those of the salt, to evaluate runs. -/
def addBytes : Library where
  hashRaw _ _ _ pwd salt n := (argon2Ok, Vector.ofFn fun i : Fin n => pwd.getD i 0 + salt.getD i 0)
  errorMessage _ := ""

/-- A salt of bytes with a leading zero digit, and two passwords. -/
theorem one_byte_verified :
    ∃ r, ({} : PasswordHasher).hash addBytes (some (Vector.replicate 16 0x0a)) [0x70] = .ok r ∧
      ({} : PasswordHasher).verify addBytes [0x70] r.salt r.verifier = .ok true ∧
      ({} : PasswordHasher).verify addBytes [0x71] r.salt r.verifier ≠ .ok true := by
  have hr : ({} : PasswordHasher).hash addBytes (some (Vector.replicate 16 0x0a)) [0x70] =
      .ok ⟨_, _⟩ := rfl
  obtain ⟨hself, hother, -⟩ := stored_verifiers_verify addBytes {} [0x70] _ hr
  refine ⟨_, hr, hself, fun h => ?_⟩
  have hsame := (hother [0x71]).mp h
  have hdiffer : ({} : PasswordHasher).argon2id addBytes [0x71] (List.replicate 16 0x0a) ≠
      ({} : PasswordHasher).argon2id addBytes [0x70] (List.replicate 16 0x0a) := by decide
  exact hdiffer hsame

section Services

variable (lib : Library) (h : PasswordHasher) (base : ServerConfig)

def saltText (salt : Vector UInt8 kSaltLength) : String := bytesToHex salt.toList

/-- The bytes of a text, which has one character for each of them. -/
def textBytes (text : String) : List UInt8 := text.toList.map fun c => UInt8.ofNat c.toNat

/-- Services that hash with the hasher. Where the text of a salt is not one of bytes, they are given
an error in place of the exception. -/
def services : ServerConfig :=
  { base with
    argon2id := fun password salt =>
      match hexToBytes salt with
      | .error _ => .error ""
      | .ok saltBytes =>
        let (result, hashBytes) := h.argon2id lib (textBytes password) saltBytes
        if result ≠ argon2Ok then .error (lib.errorMessage result)
        else .ok (bytesToHex hashBytes.toList) }

theorem services_argon2id (password : String) {salt : String} {bytes : List UInt8}
    (hsalt : hexToBytes salt = .ok bytes) : (h.services lib base).argon2id password salt =
      if (h.argon2id lib (textBytes password) bytes).1 ≠ argon2Ok then
        .error (lib.errorMessage (h.argon2id lib (textBytes password) bytes).1)
      else .ok (bytesToHex (h.argon2id lib (textBytes password) bytes).2.toList) := by
  simp only [services, hsalt]

theorem hash_services (salt : Option (Vector UInt8 kSaltLength)) (password : String) :
    VoxServer.PasswordHasher.hash (h.services lib base) (salt.map saltText) password =
      h.hash lib salt (textBytes password) := by
  cases salt with
  | none => rfl
  | some bytes =>
    have hargon := h.services_argon2id lib base password (hexToBytes_bytesToHex bytes.toList)
    simp only [Option.map_some, VoxServer.PasswordHasher.hash, saltText, hargon, hash]
    by_cases hdone : (h.argon2id lib (textBytes password) bytes.toList).1 = argon2Ok
    · simp only [hdone, ne_eq, not_true_eq_false, if_false]
    · simp only [hdone, ne_eq, not_false_eq_true, if_true]

theorem verify_services (bytes : List UInt8) (password verifier : String) :
    h.verify lib (textBytes password) (bytesToHex bytes) verifier =
      .ok (VoxServer.PasswordHasher.verify (h.services lib base) password (bytesToHex bytes)
        verifier) := by
  have hargon := h.services_argon2id lib base password (hexToBytes_bytesToHex bytes)
  rw [verify_text, VoxServer.PasswordHasher.verify, hargon]
  refine congrArg Except.ok (decide_eq_decide.mpr ?_)
  split
  · rename_i hfailed
    exact iff_of_false (fun hv => hfailed hv.1) (by simp)
  · rename_i hdone
    rw [and_iff_right (not_not.mp hdone), Except.ok.injEq]

end Services

end PasswordHasher

end VoxServer.Argon2
