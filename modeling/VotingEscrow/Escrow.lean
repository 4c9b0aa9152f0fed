import VotingEscrow.CheckPoint
import VotingEscrow.Delegation

/-!
# Locks: deposits, creation and burning

`_deposit_for` is the one place a lock changes value: it adds to the amount and to
`VE_SUPPLY`, moves the unlock time when given one, and checkpoints the change. `_create_lock`
mints the position id `total_supply() + 1`, attributes it to the recipient's delegate and
deposits into it; `_burn_nft` removes a position from the registry and from the delegate
checkpoints.
-/

namespace VotingEscrow

/-- The lock `_deposit_for` stores: `value` added to the amount, the end moved to
`unlockTime` unless that is `0`. -/
def depositedLock (l : LockedBalance) (value unlockTime : Nat) : LockedBalance :=
  { amount := wrapU128 (l.amount + value)
    lockEnd := if unlockTime ≠ 0 then unlockTime else l.lockEnd }

/-- `_deposit_for(token_id, value, unlock_time, locked_balance, _)`. The asset transfer it makes
last (skipped for a merge) is the token contract's and leaves this state unchanged. -/
def depositFor (env : Env) (s : VeState) (tokenId value unlockTime : Nat)
    (lockedBalance : LockedBalance) : VeState :=
  checkPoint env
    { s with
      veSupply := wrapU128 (s.veSupply + value)
      locked := Function.update s.locked tokenId (depositedLock lockedBalance value unlockTime) }
    tokenId lockedBalance (depositedLock lockedBalance value unlockTime)

section Deposit

variable {env : Env} {s : VeState} {tokenId value unlockTime : Nat} {lb : LockedBalance}

@[simp] theorem depositFor_locked :
    (depositFor env s tokenId value unlockTime lb).locked =
      Function.update s.locked tokenId (depositedLock lb value unlockTime) := by
  simp [depositFor, checkPoint]

@[simp] theorem depositFor_veSupply :
    (depositFor env s tokenId value unlockTime lb).veSupply = wrapU128 (s.veSupply + value) := by
  simp [depositFor, checkPoint]

@[simp] theorem depositFor_nft : (depositFor env s tokenId value unlockTime lb).nft = s.nft := by
  simp [depositFor, checkPoint]

theorem depositFor_sameCheckpoints :
    SameCheckpoints s (depositFor env s tokenId value unlockTime lb) := by
  simp [SameCheckpoints, depositFor, checkPoint]

end Deposit

/-- `(ts + lock_duration) / WEEK * WEEK`: an unlock time rounded down to a week. -/
def roundedUnlockTime (ts lockDuration : Nat) : Nat := wrapU64 (ts + lockDuration) / week * week

/-- `_create_lock(value, lock_duration, to)`, `to` being the recipient: the state and the
minted id. -/
def createLock (env : Env) (s : VeState) (value lockDuration : Nat) (recipient : Key) :
    Except VeError (VeState × Nat) := do
  let ts := currentBlockTimestampSeconds env
  let unlockTime := roundedUnlockTime ts lockDuration
  require (0 < value) .invalidAmount
  require (ts < unlockTime) .canOnlyLockTillTimeInFuture
  require (unlockTime ≤ wrapU64 (ts + maxtime)) .votingLockMax26Weeks
  let tokenId := s.nft.totalSupply + 1
  let nft ← s.nft.mint recipient tokenId
  let s ← moveTokenDelegates env { s with nft } nullKey (delegates { s with nft } recipient)
    tokenId
  pure (depositFor env s tokenId value unlockTime (s.locked tokenId), tokenId)

/-- What a successful `_create_lock` did: its three checks passed, the id
`total_supply() + 1` was minted to the recipient and attributed to the recipient's delegate,
and the value was deposited into the lock stored under that id. -/
theorem createLock_spec {env : Env} {s : VeState} {value lockDuration : Nat} {recipient : Key}
    {r : VeState × Nat} (h : createLock env s value lockDuration recipient = .ok r) :
    let ts := currentBlockTimestampSeconds env
    let unlockTime := roundedUnlockTime ts lockDuration
    let tokenId := s.nft.totalSupply + 1
    0 < value ∧ ts < unlockTime ∧ unlockTime ≤ wrapU64 (ts + maxtime) ∧
      ∃ nft s₁, s.nft.mint recipient tokenId = .ok nft ∧
        moveTokenDelegates env { s with nft } nullKey (delegates { s with nft } recipient)
          tokenId = .ok s₁ ∧
        r = (depositFor env s₁ tokenId value unlockTime (s₁.locked tokenId), tokenId) := by
  simp only [createLock, require_bind_eq_ok, decide_eq_true_eq] at h
  simp only [bind_eq_ok, pure, Except.pure, Except.ok.injEq] at h
  obtain ⟨h₁, h₂, h₃, nft, hm, s₁, hmv, rfl⟩ := h
  exact ⟨h₁, h₂, h₃, nft, s₁, hm, hmv, rfl⟩

/-- `_burn_nft(token_id)`: the caller must own the id; it is burned from its owner and taken
out of the owner's and of the owner's delegate's checkpoints. -/
def burnNft (env : Env) (s : VeState) (tokenId : Nat) : Except VeError VeState := do
  require (s.nft.isApprovedOrOwner tokenId env.caller) .notOwnerOrApproved
  let owner ← match s.nft.ownerOf tokenId with
    | some owner => pure owner
    | none => throw .unwrapNone
  let nft ← s.nft.burn owner tokenId
  let s ← moveTokenDelegates env { s with nft } owner nullKey tokenId
  moveTokenDelegates env s (delegates s owner) nullKey tokenId

/-- What a successful `_burn_nft` did: the caller owns the id, which was burned from its owner
and then moved out of the owner's checkpoints and out of the owner's delegate's. -/
theorem burnNft_spec {env : Env} {s s' : VeState} {tokenId : Nat}
    (h : burnNft env s tokenId = .ok s') :
    s.nft.isApprovedOrOwner tokenId env.caller = true ∧
      ∃ owner nft s₁, s.nft.ownerOf tokenId = some owner ∧
        s.nft.burn owner tokenId = .ok nft ∧
        moveTokenDelegates env { s with nft } owner nullKey tokenId = .ok s₁ ∧
        moveTokenDelegates env s₁ (delegates s₁ owner) nullKey tokenId = .ok s' := by
  simp only [burnNft, require_bind_eq_ok] at h
  obtain ⟨happ, h⟩ := h
  cases hown : s.nft.ownerOf tokenId with
  | none => rw [hown] at h; cases h
  | some owner =>
    rw [hown] at h
    simp only [ok_bind, pure, Except.pure, bind_eq_ok] at h
    obtain ⟨nft, hburn, s₁, hmv, hmv'⟩ := h
    exact ⟨happ, owner, nft, s₁, rfl, hburn, hmv, hmv'⟩

theorem burnNft_writes {env : Env} {s s' : VeState} {tokenId : Nat}
    (h : burnNft env s tokenId = .ok s') : CheckpointWrites 4 s s' := by
  obtain ⟨-, _, _, _, -, -, hmv, hmv'⟩ := burnNft_spec h
  refine .pre ?_ ((moveTokenDelegates_writes hmv).trans (moveTokenDelegates_writes hmv'))
  exact ⟨rfl, rfl⟩

theorem createLock_writes {env : Env} {s : VeState} {value lockDuration : Nat} {recipient : Key}
    {r : VeState × Nat} (h : createLock env s value lockDuration recipient = .ok r) :
    CheckpointWrites 2 s r.1 := by
  obtain ⟨-, -, -, _, _, -, hmv, rfl⟩ := createLock_spec h
  refine (CheckpointWrites.pre ?_ (moveTokenDelegates_writes hmv)).frame
    depositFor_sameCheckpoints
  exact ⟨rfl, rfl⟩

end VotingEscrow
