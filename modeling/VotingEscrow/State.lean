import VotingEscrow.Basic

/-!
# The contract's storage

`VeState` holds every dictionary and named key of `vedata.rs` that a modelled function reads
or writes, each dictionary as a total function returning the value its getter falls back to.
Dictionaries keyed by the decimal text of one integer (`LOCKED`, `POINT_HISTORY`,
`SLOPE_CHANGES`, `USER_POINT_EPOCH`) are keyed by the integer itself, since distinct integers
have distinct decimal texts. `USER_POINT_HISTORY` keeps its text key: it is the concatenation
of two decimal texts. `CHECKPOINTS` is keyed by `blake2b(key ‖ index)`, taken collision-free,
so by the pair.

The position registry is a collaborator of the contract; `Registry` is the part of it the
contract consumes.
-/

namespace VotingEscrow

/-! ## The position registry -/

/-- The CEP-47 registry of positions: owners, each owner's ids in index order, the supply. -/
structure Registry where
  owners : Nat → Option Key
  ownedTokens : Key → List Nat
  totalSupply : Nat

namespace Registry

/-- The empty registry. -/
def empty : Registry := ⟨fun _ => none, fun _ => [], 0⟩

/-- `owner_of`. -/
def ownerOf (r : Registry) (tokenId : Nat) : Option Key := r.owners tokenId

/-- `balance_of`: how many ids `owner` holds. -/
def balanceOf (r : Registry) (owner : Key) : Nat := (r.ownedTokens owner).length

/-- Modelled from the spec: `is_approved_or_owner`. No modelled call grants an approval, so it
is ownership. -/
def isApprovedOrOwner (r : Registry) (tokenId : Nat) (spender : Key) : Bool :=
  r.owners tokenId == some spender

/-- Modelled from the spec: `NFTToken::mint` of one id, refused when the id already has an
owner (`validate_token_ids`), otherwise the storage effect of `mint_many`. -/
def mint (r : Registry) (recipient : Key) (tokenId : Nat) : Except VeError Registry :=
  if (r.owners tokenId).isSome then .error .tokenIdAlreadyExists
  else .ok
    { owners := Function.update r.owners tokenId (some recipient)
      ownedTokens :=
        Function.update r.ownedTokens recipient (r.ownedTokens recipient ++ [tokenId])
      totalSupply := r.totalSupply + 1 }

/-- Modelled from the spec: `NFTToken::burn` of one id of `owner`, with the storage effect of
`burn_many`: the id loses its owner and the total supply drops by one. -/
def burn (r : Registry) (owner : Key) (tokenId : Nat) : Except VeError Registry :=
  if r.owners tokenId = some owner then .ok
    { owners := Function.update r.owners tokenId none
      ownedTokens := Function.update r.ownedTokens owner ((r.ownedTokens owner).erase tokenId)
      totalSupply := r.totalSupply - 1 }
  else .error .notOwnerOrApproved

end Registry

/-! ## The contract state -/

/-- The storage of the vote-escrow contract. -/
structure VeState where
  /-- `EPOCH`: the index of the latest global point. -/
  epoch : Nat
  /-- `POINT_HISTORY`, read through `get_point`. -/
  pointHistory : Nat → Point
  /-- `SLOPE_CHANGES`, by week, read through `get_slope_changes`. -/
  slopeChanges : Nat → Int
  /-- `LOCKED`, read through `get_locked_balance`. -/
  locked : Nat → LockedBalance
  /-- `USER_POINT_EPOCH`. -/
  userPointEpoch : Nat → Nat
  /-- `USER_POINT_HISTORY`, by `token_id.to_string() + &uepoch.to_string()`. -/
  userPointHistory : String → Point
  /-- `VE_SUPPLY`. -/
  veSupply : Nat
  /-- `IS_LOCKED`, the reentrancy flag. -/
  isLocked : Bool
  /-- `TEAM`. -/
  team : Key
  /-- `VOTER`. -/
  voter : Key
  /-- `VOTED`. -/
  voted : Nat → Bool
  /-- `ATTACHMENTS`. -/
  attachments : Nat → Nat
  /-- `DELEGATES`, by `key_to_str`. -/
  delegates : List UInt8 → Option Key
  /-- `CHECKPOINTS`, by account and index. -/
  checkpoints : Key → Nat → Checkpoint
  /-- `NUM_CHECKPOINTS`, by `key_to_str`. -/
  numCheckpoints : List UInt8 → Nat
  /-- The position registry. -/
  nft : Registry

/-- The block a call runs in: its caller and `get_blocktime()` in milliseconds. -/
structure Env where
  caller : Key
  blocktime : Nat

/-- `current_block_timestamp_seconds`. -/
def currentBlockTimestampSeconds (env : Env) : Nat := env.blocktime % (2 ^ 64 - 1) / 1000

/-- `current_block_number`: the source returns the constant `100`. -/
def currentBlockNumber : Nat := 100

theorem currentBlockTimestampSeconds_lt (env : Env) :
    currentBlockTimestampSeconds env < 2 ^ 55 := by
  unfold currentBlockTimestampSeconds
  have := Nat.mod_lt env.blocktime (by norm_num : 0 < 2 ^ 64 - 1)
  omega

/-! ## Getters -/

/-- The key of `USER_POINT_HISTORY`: the two decimal texts, concatenated. -/
def userPointKey (tokenId uepoch : Nat) : String := toString tokenId ++ toString uepoch

/-- `get_user_point`. -/
def getUserPoint (s : VeState) (tokenId uepoch : Nat) : Point :=
  s.userPointHistory (userPointKey tokenId uepoch)

/-- `get_delegate`: the stored delegate, or the null key. -/
def getDelegate (s : VeState) (a : Key) : Key := (s.delegates (keyToStr a)).getD nullKey

/-- `get_num_checkpoints`. -/
def getNumCheckpoints (s : VeState) (a : Key) : Nat := s.numCheckpoints (keyToStr a)

/-- `get_check_point`. -/
def getCheckPoint (s : VeState) (a : Key) (index : Nat) : Checkpoint := s.checkpoints a index

/-- The state the contract's installer (`initialize`, with `escrow_init`, `voting_logic_init`
and `dao_voting_storage_init`) leaves. -/
def genesis (env : Env) : VeState where
  epoch := 0
  pointHistory := Function.update (fun _ => Point.default) 0
    ⟨0, 0, currentBlockTimestampSeconds env, currentBlockNumber⟩
  slopeChanges := fun _ => 0
  locked := fun _ => LockedBalance.default
  userPointEpoch := fun _ => 0
  userPointHistory := fun _ => Point.default
  veSupply := 0
  isLocked := false
  team := env.caller
  voter := env.caller
  voted := fun _ => false
  attachments := fun _ => 0
  delegates := fun _ => none
  checkpoints := fun _ _ => Checkpoint.default
  numCheckpoints := fun _ => 0
  nft := Registry.empty

end VotingEscrow
