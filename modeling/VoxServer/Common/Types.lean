import VoxServer.Text.Decimal

/-! # Common types

Identifiers, timestamps, enumerations and error results. A byte string is a
`String` with one character for each byte, so its order is the byte order.
-/

namespace VoxServer

abbrev UserId := String
abbrev DeviceId := String
abbrev ConversationId := String
abbrev EnvelopeId := String
abbrev AttachmentId := String

/-- Seconds since the epoch. -/
abbrev Timestamp := ℤ

/-- `static_cast<std::int64_t>`, and what a sum of such numbers wraps around to. -/
def toInt64 (n : ℤ) : ℤ := n.bmod (2 ^ 64)

/-- `static_cast<int>`. -/
def toInt32 (n : ℤ) : ℤ := n.bmod (2 ^ 32)

def InInt64 (n : ℤ) : Prop := -2 ^ 63 ≤ n ∧ n < 2 ^ 63

instance (n : ℤ) : Decidable (InInt64 n) := inferInstanceAs (Decidable (_ ∧ _))

theorem toInt64_eq_self {n : ℤ} : toInt64 n = n ↔ InInt64 n := by
  unfold toInt64 InInt64
  constructor
  · intro h
    have hle := Int.le_bmod (x := n) (m := 2 ^ 64) (by decide)
    have hlt := Int.bmod_lt (x := n) (m := 2 ^ 64) (by decide)
    omega
  · rintro ⟨hle, hlt⟩
    exact Int.bmod_eq_of_le (by omega) (by omega)

theorem toInt64_natCast_le (n : ℕ) : toInt64 n ≤ n := by
  rw [toInt64, Int.bmod_def]
  split <;> omega

inductive ConversationType | dm | group | channel
  deriving DecidableEq, Inhabited, Repr

inductive MemberRole | owner | admin | member
  deriving DecidableEq, Inhabited, Repr

inductive ErrorCode
  | ok | notFound | alreadyExists | unauthorized | forbidden | invalidArgument | internal
  | quotaExceeded | rateLimited | shutdown | queueFull | expired | duplicate | payloadTooLarge
  deriving DecidableEq, Inhabited, Repr

structure Error where
  code : ErrorCode
  message : String
  deriving DecidableEq, Inhabited, Repr

abbrev Result (α : Type) := Except Error α

abbrev VoidResult := Result Unit

instance Except.decidableEq {ε α : Type} [DecidableEq ε] [DecidableEq α] :
    DecidableEq (Except ε α)
  | .ok a, .ok b => decidable_of_iff (a = b) (by simp)
  | .error a, .error b => decidable_of_iff (a = b) (by simp)
  | .ok _, .error _ => isFalse (by simp)
  | .error _, .ok _ => isFalse (by simp)

/-- A JSON value. A number that is no integer is kept as its text. -/
inductive Json
  | null
  | bool (b : Bool)
  | int (n : ℤ)
  | double (text : String)
  | str (s : String)
  | arr (values : List Json)
  | obj (fields : List (String × Json))

/-- The separator byte of `deviceScopeKey`. -/
def kSep : Char := '\x1f'

def deviceScopeKey (userId : UserId) (deviceId : DeviceId) : String :=
  userId ++ String.singleton kSep ++ deviceId

theorem deviceScopeKey_inj {u u' : UserId} {d d' : DeviceId} (hu : kSep ∉ u.toList)
    (hu' : kSep ∉ u'.toList) : deviceScopeKey u d = deviceScopeKey u' d' ↔ u = u' ∧ d = d' := by
  have hkey : ∀ {v : UserId} (e : DeviceId), kSep ∉ v.toList →
      Text.splitAtFirst kSep (deviceScopeKey v e).toList = some (v.toList, e.toList) := by
    intro v e hv
    simpa [deviceScopeKey] using Text.splitAtFirst_append hv e.toList
  constructor
  · intro h
    have he := (hkey d hu).symm.trans (h ▸ hkey d' hu')
    obtain ⟨h₁, h₂⟩ := Prod.mk.inj (Option.some.inj he)
    exact ⟨String.toList_inj.mp h₁, String.toList_inj.mp h₂⟩
  · rintro ⟨rfl, rfl⟩; rfl

end VoxServer
