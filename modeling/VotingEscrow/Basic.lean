import Mathlib.Logic.Function.Basic
import Mathlib.Tactic.NormNum

/-!
# Machine words, records and keys of the vote-escrow contract

The contract is built in release mode, so its `u64`, `u128` and `i128` arithmetic wraps
around. Values are kept as `Nat` and `Int`; an operation of the source that can leave its
type is followed by the matching wrap (`wrapI128`, `wrapU128`, `wrapU64`). Casts that cannot
lose anything by the source's types (a `u64` into `i128`, `amount / MAXTIME` into `i128`) are
written as plain coercions.

## Main definitions

* `Point`, `LockedBalance`, `Checkpoint` — the stored records of `vedata.rs`.
* `Key`, `isNull`, `nullKey`, `keyToStr` — the account keys and the null-delegate sentinel of
  `utils.rs`.
* `VeError` — the reasons a call reverts.
-/

namespace VotingEscrow

/-! ## Fixed-width arithmetic -/

/-- An `i128` result: two's-complement wrap-around into `[-2 ^ 127, 2 ^ 127)`. -/
def wrapI128 (x : Int) : Int := (x + (2 ^ 127 : Nat)) % (2 ^ 128 : Nat) - (2 ^ 127 : Nat)

/-- A `u128` result, wrapped into `[0, 2 ^ 128)`. -/
def wrapU128 (x : Int) : Nat := (x % (2 ^ 128 : Nat)).toNat

/-- A `u64` result, wrapped into `[0, 2 ^ 64)`. -/
def wrapU64 (x : Int) : Nat := (x % (2 ^ 64 : Nat)).toNat

theorem wrapI128_of_mem {x : Int} (h₁ : -2 ^ 127 ≤ x) (h₂ : x < 2 ^ 127) :
    wrapI128 x = x := by
  unfold wrapI128
  rw [Int.emod_eq_of_lt (by omega) (by omega)]
  omega

theorem wrapI128_natCast_of_lt {n : Nat} (h : n < 2 ^ 127) : wrapI128 n = n :=
  wrapI128_of_mem (by omega) (by omega)

@[simp] theorem wrapI128_zero : wrapI128 0 = 0 := wrapI128_natCast_of_lt (n := 0) (by norm_num)

theorem wrapU128_of_lt {n : Nat} (h : n < 2 ^ 128) : wrapU128 n = n := by
  unfold wrapU128
  rw [Int.emod_eq_of_lt (by omega) (by omega)]
  rfl

theorem wrapU64_of_lt {n : Nat} (h : n < 2 ^ 64) : wrapU64 n = n := by
  unfold wrapU64
  rw [Int.emod_eq_of_lt (by omega) (by omega)]
  rfl

theorem wrapU64_natCast (n : Nat) : wrapU64 n = n % 2 ^ 64 := by
  unfold wrapU64
  rw [← Int.natCast_mod]
  rfl

theorem wrapU64_succ_of_lt {n : Nat} (h : n + 1 < 2 ^ 64) : wrapU64 ((n : Int) + 1) = n + 1 :=
  wrapU64_of_lt h

theorem wrapU128_lt (x : Int) : wrapU128 x < 2 ^ 128 := by
  have h₁ := Int.emod_nonneg x (by norm_num : ((2 ^ 128 : Nat) : Int) ≠ 0)
  have h₂ := Int.emod_lt_of_pos x (by norm_num : (0 : Int) < (2 ^ 128 : Nat))
  unfold wrapU128
  omega

theorem wrapU64_lt (x : Int) : wrapU64 x < 2 ^ 64 := by
  have h₁ := Int.emod_nonneg x (by norm_num : ((2 ^ 64 : Nat) : Int) ≠ 0)
  have h₂ := Int.emod_lt_of_pos x (by norm_num : (0 : Int) < (2 ^ 64 : Nat))
  unfold wrapU64
  omega

/-- `if x < 0 { x = 0 }`: the saturating step applied to a bias or a slope. -/
def clampNonNegative (x : Int) : Int := if x < 0 then 0 else x

theorem clampNonNegative_of_nonneg {x : Int} (h : 0 ≤ x) : clampNonNegative x = x := by
  simp [clampNonNegative, not_lt.mpr h]

theorem clampNonNegative_eq_max (x : Int) : clampNonNegative x = max 0 x := by
  unfold clampNonNegative; split <;> omega

/-! ## Constants -/

/-- `WEEK`, in seconds. -/
def week : Nat := 86400 * 7

/-- `MAXTIME` (and `I_MAXTIME`): the longest lock, 26 weeks. -/
def maxtime : Nat := 26 * 86400 * 7

/-- `MULTIPLIER`, the fixed-point scale of the block-per-second estimate. -/
def multiplier : Nat := 1000000000000000000

/-- `MAX_DELEGATES`: the most token ids one delegate checkpoint may hold. -/
def maxDelegates : Nat := 1024

theorem week_eq : week = 604800 := rfl

theorem maxtime_eq : maxtime = 26 * week := rfl

/-! ## Records -/

/-- `LockedBalance`: the amount locked in a position and its unlock time (`end`). -/
structure LockedBalance where
  amount : Nat
  lockEnd : Nat
  deriving DecidableEq, Repr

/-- `LockedBalance::default()`. -/
def LockedBalance.default : LockedBalance := ⟨0, 0⟩

@[simp] theorem LockedBalance.default_amount : LockedBalance.default.amount = 0 := rfl

@[simp] theorem LockedBalance.default_lockEnd : LockedBalance.default.lockEnd = 0 := rfl

/-- `Point`: the line `bias - slope * (t - ts)` recorded at time `ts` and block `blk`. -/
@[ext] structure Point where
  bias : Int
  slope : Int
  ts : Nat
  blk : Nat
  deriving DecidableEq, Repr

/-- `Point::default()`. -/
def Point.default : Point := ⟨0, 0, 0, 0⟩

/-- `Checkpoint`: the token ids attributed to an account from `timestamp` on. -/
structure Checkpoint where
  timestamp : Nat
  tokenIds : List Nat
  deriving DecidableEq, Repr

/-- `Checkpoint::default()`. -/
def Checkpoint.default : Checkpoint := ⟨0, []⟩

/-! ## Keys -/

/-- A 32-byte hash, the payload of an account or a contract key. -/
structure Hash32 where
  bytes : List UInt8
  length_eq : bytes.length = 32
  deriving DecidableEq

/-- The two variants of a Casper `Key` that callers and delegates take. -/
inductive Key where
  | account (hash : Hash32)
  | hash (addr : Hash32)
  deriving DecidableEq

/-- `Key::to_bytes`: a tag byte, then the 32 bytes of the hash. -/
def Key.toBytes : Key → List UInt8
  | .account h => 0 :: h.bytes
  | .hash h => 1 :: h.bytes

/-- The 32 zero bytes of the sentinel. -/
def nullBytes : List UInt8 := List.replicate 32 0

/-- `utils::is_null`: whether the key's encoding equals the 32 zero bytes. -/
def isNull (k : Key) : Bool := k.toBytes == nullBytes

/-- `utils::null_key`: the account key of 32 zero bytes. -/
def nullKey : Key := .account ⟨nullBytes, rfl⟩

/-- `utils::is_not_null`. -/
def isNotNull (k : Key) : Bool := !isNull k

/-- `utils::key_to_str`: the hex text of the key's 32 bytes, for either variant. Hex encoding
is injective, so the bytes stand for the text as a dictionary key. -/
def keyToStr : Key → List UInt8
  | .account h => h.bytes
  | .hash h => h.bytes

theorem Key.length_toBytes (k : Key) : k.toBytes.length = 33 := by
  cases k <;> simp [Key.toBytes, Hash32.length_eq]

/-- A key's encoding has a tag byte in front of its 32 bytes, so it is never the 32 zero bytes:
`is_null` holds of no key, the null key included. -/
theorem isNull_eq_false (k : Key) : isNull k = false := by
  rw [isNull, beq_eq_false_iff_ne]
  intro h
  have := congrArg List.length h
  simp [Key.length_toBytes, nullBytes] at this

@[simp] theorem isNotNull_eq_true (k : Key) : isNotNull k = true := by
  simp [isNotNull, isNull_eq_false]

/-! ## Errors -/

/-- The reasons a call reverts. `unwrapNone` is a panic of an `unwrap` on `None`. -/
inductive VeError where
  | notTeam
  | invalidAmount
  | noExistingLock
  | cannotAddToExpiredLock
  | canOnlyLockTillTimeInFuture
  | votingLockMax26Weeks
  | notOwnerOrApproved
  | canOnlyIncreaseLock
  | invalidBlock
  | notVoter
  | fromMustNotTo
  | tooManyTokenIds
  | contractLocked
  | tokenIdAlreadyExists
  | unwrapNone
  deriving DecidableEq, Repr

/-- `utils::require`. -/
def require (c : Bool) (e : VeError) : Except VeError Unit :=
  if c then .ok () else .error e

@[simp] theorem require_true (e : VeError) : require true e = .ok () := rfl

@[simp] theorem require_false (e : VeError) : require false e = .error e := rfl

theorem bind_eq_ok {α β : Type} {m : Except VeError α} {f : α → Except VeError β} {b : β} :
    m >>= f = .ok b ↔ ∃ a, m = .ok a ∧ f a = .ok b := by
  cases m <;> simp [bind, Except.bind]

@[simp] theorem ok_bind {α β : Type} (a : α) (f : α → Except VeError β) :
    (Except.ok a : Except VeError α) >>= f = f a := rfl

theorem require_bind_eq_ok {β : Type} {c : Bool} {e : VeError} {f : Unit → Except VeError β}
    {b : β} : require c e >>= f = .ok b ↔ c = true ∧ f () = .ok b := by
  cases c <;> simp [bind, Except.bind, require]

end VotingEscrow
