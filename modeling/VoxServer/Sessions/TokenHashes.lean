import VoxServer.Auth.PasswordHasher
import VoxServer.Common.HmacSha256
import VoxServer.Sessions.Lineage

/-! # Tokens and their hashes

Tokens are 256 drawn bits in hexadecimal, and the server keeps only their keyed hashes. A
request counts as signed in only with a token that has the hash of one that was given out.
-/

namespace VoxServer

open Hash Text Argon2.PasswordHasher

namespace TokenManager

/-- The four arguments are the values that the generator draws. -/
def generateToken (a b c d : UInt64) : String :=
  String.ofList (paddedHex 16 a.toNat ++ paddedHex 16 b.toNat ++ paddedHex 16 c.toNat ++
    paddedHex 16 d.toNat)

def UsesHmac (cfg : ServerConfig) : Prop :=
  cfg.hmacSha256Hex = fun key message =>
    HmacSha256.hmacSha256Hex (textBytes key) (textBytes message)

def tokenMac (cfg : ServerConfig) (token : String) : List UInt8 :=
  hmac Sha256.sha256 HmacSha256.kBlock (textBytes cfg.sessionTokenPepper) (textBytes token)

theorem length_word (w : UInt64) : (paddedHex 16 w.toNat).length = 16 :=
  (length_paddedHex (by decide) w.toNat_lt).1

end TokenManager

theorem length_textBytes (text : String) : (textBytes text).length = text.toList.length := by
  rw [textBytes, List.length_map]

theorem length_textBytes_generateToken (a b c d : UInt64) :
    (textBytes (TokenManager.generateToken a b c d)).length = 64 := by
  rw [length_textBytes, TokenManager.generateToken, String.toList_ofList]
  simp only [List.length_append, TokenManager.length_word]

namespace Sessions

open Interleaving Http TokenManager

theorem Issued.drawn {cfg : ServerConfig} {init : Server} {ops : ℕ → Option NetOp} {tr : List Ev}
    {r : SessionRecord} (h : Issued cfg init ops tr r) (hempty : init.db.sessions = []) :
    ∃ i req draws u d now, ops i = some (.http req draws) ∧
      r = newSession cfg u d now draws.fresh := by
  cases h with
  | start h =>
    rw [hempty] at h
    cases h
  | signIn d now hop h => exact ⟨_, _, _, _, d, now, hop, rfl⟩
  | refresh now hop ho hfound hold => exact ⟨_, _, _, _, _, now, hop, rfl⟩

section Hashes

theorem hashToken_eq {cfg : ServerConfig} {token : String} (hcfg : UsesHmac cfg)
    (hpepper : (textBytes cfg.sessionTokenPepper).length < 2 ^ 63)
    (htoken : (textBytes token).length + HmacSha256.kBlock < 2 ^ 63) :
    hashToken cfg token = HmacSha256.bytesToHexString (tokenMac cfg token) := by
  rw [hashToken, hcfg, tokenMac]
  exact HmacSha256.hmacSha256Hex_eq hpepper htoken

theorem bytesToHexString_inj {bytes bytes' : List UInt8}
    (h : HmacSha256.bytesToHexString bytes = HmacSha256.bytesToHexString bytes') :
    bytes = bytes' := by
  have hhex : ∀ bytes, HmacSha256.bytesToHexString bytes = Argon2.bytesToHex bytes := by
    intro bytes
    rw [← String.toList_inj, Argon2.toList_bytesToHex, HmacSha256.bytesToHexString,
      String.toList_ofList]
  rw [hhex, hhex] at h
  exact Argon2.bytesToHex_injective h

end Hashes

section Example

def hashing : ServerConfig :=
  { joining with
    sessionTokenPepper := "pepper"
    hmacSha256Hex := fun key message =>
      HmacSha256.hmacSha256Hex (textBytes key) (textBytes message) }

def joinAndTry : List NetAct :=
  .spawn (.http { method := .post, target := "/v1/register", body := joinBody, version := 11 }
    { salt := some "", uuid := "u"
      fresh := ⟨generateToken 1 2 3 4, generateToken 5 6 7 8, "s"⟩ }) ::
  .spawn (.http { method := .get, target := "/v1/conversations", body := "", version := 11
                  authorization := some "Bearer t" }
    { fresh := ⟨generateToken 9 9 9 9, generateToken 9 9 9 9, "s'"⟩ }) ::
  List.replicate 5 (.run 0) ++ List.replicate 3 (.run 1)

theorem mem_joinAndTry {req : IncomingRequest} {draws : Draws}
    (h : .spawn (.http req draws) ∈ joinAndTry) :
    (∃ a b c d, draws.fresh.accessToken = generateToken a b c d) ∧
      (parseBearer req = none ∨ parseBearer req = some "t") := by
  simp only [joinAndTry, List.replicate, List.cons_append, List.nil_append, List.mem_cons,
    reduceCtorEq, Action.spawn.injEq, NetOp.http.injEq, List.not_mem_nil, or_false] at h
  rcases h with ⟨rfl, rfl⟩ | ⟨rfl, rfl⟩
  · exact ⟨⟨1, 2, 3, 4, rfl⟩, .inl (by decide)⟩
  · exact ⟨⟨9, 9, 9, 9, rfl⟩, .inr (by decide)⟩

end Example

end Sessions

end VoxServer
