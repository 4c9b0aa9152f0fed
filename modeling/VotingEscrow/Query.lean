import VotingEscrow.Delegation

/-!
# Read-only queries

Voting power of a position is its latest user point projected to the query time
(`_balance_of_nft`); total power is the latest global point replayed week by week to the query
time (`_supply_at`). The block-indexed queries first turn a block into a time: a binary search
over recorded points (`_find_block_epoch`, and the same search inlined over a token's history)
and a linear interpolation between two points. Votes sum the balances of the ids in one of an
account's delegate checkpoints.
-/

namespace VotingEscrow

/-- `_balance_of_nft(token_id, t)`: `bias - slope * (t - ts)` of the token's latest point,
clamped at zero; `0` for a token with no point. -/
def balanceOfNft (s : VeState) (tokenId t : Nat) : Nat :=
  let uepoch := s.userPointEpoch tokenId
  if uepoch = 0 then 0 else
    let p := getUserPoint s tokenId uepoch
    (clampNonNegative (wrapI128 (p.bias - wrapI128 (p.slope * ((t : Int) - p.ts))))).toNat

theorem balanceOfNft_of_userPointEpoch_eq_zero {s : VeState} {tokenId : Nat} (t : Nat)
    (h : s.userPointEpoch tokenId = 0) : balanceOfNft s tokenId t = 0 := by
  simp [balanceOfNft, h]

/-- The loop of `_supply_at`, `fuel` iterations of its 255 left: move `t_i` a week on (to `t`
at most), decay the bias from `last_point.ts`, stop at `t`, else add the scheduled slope change
and set `last_point.ts = last_point.ts + t_i`. -/
def supplyAtLoop (slopeChanges : Nat → Int) (t : Nat) : Nat → Point → Nat → Point
  | 0, p, _ => p
  | fuel + 1, p, tI =>
    let next := wrapU64 (tI + week)
    let tI := if t < next then t else next
    let dSlope := if t < next then 0 else slopeChanges next
    let bias := wrapI128 (p.bias - wrapI128 (p.slope * ((tI : Int) - p.ts)))
    if tI = t then { p with bias }
    else supplyAtLoop slopeChanges t fuel
      { p with bias, slope := wrapI128 (p.slope + dSlope), ts := wrapU64 (p.ts + tI) } tI

/-- `_supply_at(point, t)`. -/
def supplyAt (s : VeState) (point : Point) (t : Nat) : Nat :=
  (clampNonNegative (supplyAtLoop s.slopeChanges t 255 point (point.ts / week * week)).bias).toNat

/-- `_total_supply_at_t(t)`: `_supply_at` from the latest global point. -/
def totalSupplyAtT (s : VeState) (t : Nat) : Nat := supplyAt s (s.pointHistory s.epoch) t

/-- The body of the binary search of `_find_block_epoch` on the window `(_min, _max)`: the
midpoint `(_min + _max + 1) / 2`, in `u64`, becomes `_min` when its block is at most `block`, and
the midpoint less one becomes `_max` otherwise. -/
def searchStep (blkAt : Nat → Nat) (block : Nat) (w : Nat × Nat) : Nat × Nat :=
  let mid := wrapU64 (w.1 + w.2 + 1) / 2
  if blkAt mid ≤ block then (mid, w.2) else (w.1, wrapU64 ((mid : Int) - 1))

/-- The 128-step binary search of `_find_block_epoch`, over the block numbers `blkAt e`: the
last `e` in `[min, max]` whose block is at most `block`. It breaks once `_min >= _max` and
otherwise runs `searchStep`. `_balance_of_at_nft` inlines the same search over a token's
history. -/
def blockSearch (blkAt : Nat → Nat) (block : Nat) : Nat → Nat → Nat → Nat
  | 0, min, _ => min
  | fuel + 1, min, max =>
    if max ≤ min then min else
      blockSearch blkAt block fuel (searchStep blkAt block (min, max)).1
        (searchStep blkAt block (min, max)).2

/-- `_find_block_epoch(block, max_epoch)`. -/
def findBlockEpoch (s : VeState) (block maxEpoch : Nat) : Nat :=
  blockSearch (fun e => (s.pointHistory e).blk) block 128 0 maxEpoch

/-- `_balance_of_at_nft(token_id, block)` from the user point `upoint` its search found:
`upoint` projected to the time interpolated for `block` between the two global points around it.
The source checks `block <= block_number` before the search, which only reads storage, so the
check may come after it. -/
def balanceOfPointAtBlock (env : Env) (s : VeState) (upoint : Point) (block : Nat) :
    Except VeError Nat := do
  let blockNumber := currentBlockNumber
  let ts := currentBlockTimestampSeconds env
  require (block ≤ blockNumber) .invalidBlock
  let epoch := findBlockEpoch s block s.epoch
  let point0 := s.pointHistory epoch
  let dBlock := if epoch < s.epoch then
      wrapU64 (((s.pointHistory (epoch + 1)).blk : Int) - point0.blk)
    else wrapU64 ((blockNumber : Int) - point0.blk)
  let dT := if epoch < s.epoch then wrapU64 (((s.pointHistory (epoch + 1)).ts : Int) - point0.ts)
    else wrapU64 ((ts : Int) - point0.ts)
  let blockTime := if dBlock ≠ 0 then
      wrapU64 (point0.ts + wrapU64 (dT * wrapU64 ((block : Int) - point0.blk)) / dBlock)
    else point0.ts
  let bias := wrapI128 (upoint.bias - wrapI128 (upoint.slope * ((blockTime : Int) - upoint.ts)))
  pure (if 0 ≤ bias then bias.toNat else 0)

/-- `_balance_of_at_nft(token_id, block)`: the token's point at `block`, found by the binary
search over its history up to `USER_POINT_EPOCH`, projected to the time interpolated for
`block`. -/
def balanceOfAtNft (env : Env) (s : VeState) (tokenId block : Nat) : Except VeError Nat :=
  balanceOfPointAtBlock env s (getUserPoint s tokenId
    (blockSearch (fun e => (getUserPoint s tokenId e).blk) block 128 0 (s.userPointEpoch tokenId)))
    block

/-- `total_supply_at(block)`: `_supply_at` from the global point at `block`, at the time
interpolated for `block`. -/
def totalSupplyAt (env : Env) (s : VeState) (block : Nat) : Except VeError Nat := do
  let blockNumber := currentBlockNumber
  let ts := currentBlockTimestampSeconds env
  require (block ≤ blockNumber) .invalidBlock
  let targetEpoch := findBlockEpoch s block s.epoch
  let point := s.pointHistory targetEpoch
  let dt := if targetEpoch < s.epoch then
      let pointNext := s.pointHistory (targetEpoch + 1)
      if point.blk ≠ pointNext.blk then
        wrapU64 (wrapU64 ((block : Int) - point.blk) * wrapU64 ((pointNext.ts : Int) - point.ts)) /
          wrapU64 ((pointNext.blk : Int) - point.blk)
      else 0
    else if point.blk ≠ blockNumber then
      wrapU64 (wrapU64 ((block : Int) - point.blk) * wrapU64 ((ts : Int) - point.ts)) /
        wrapU64 ((blockNumber : Int) - point.blk)
    else 0
  pure (supplyAt s point (wrapU64 (point.ts + dt)))

/-- The sum `votes = votes + _balance_of_nft(id, t)` over `ids`, in `u128`. -/
def sumBalances (s : VeState) (ids : List Nat) (t : Nat) : Nat :=
  ids.foldl (fun votes id => wrapU128 (votes + balanceOfNft s id t)) 0

/-- The `while upper > lower` loop of `_get_past_votes_index`. -/
def pastVotesSearch (s : VeState) (account : Key) (timestamp : Nat) (lower upper : Nat) : Nat :=
  if lower < upper then
    let center := upper - (upper - lower) / 2
    let cp := getCheckPoint s account center
    if cp.timestamp = timestamp then center
    else if cp.timestamp < timestamp then pastVotesSearch s account timestamp center upper
    else pastVotesSearch s account timestamp lower (upper - 1)
  else lower
termination_by upper - lower

/-- `_get_past_votes_index(account, timestamp)`. -/
def getPastVotesIndex (s : VeState) (account : Key) (timestamp : Nat) : Nat :=
  let n := getNumCheckpoints s account
  if n = 0 then 0
  else if (getCheckPoint s account (n - 1)).timestamp ≤ timestamp then n - 1
  else if timestamp < (getCheckPoint s account 0).timestamp then 0
  else pastVotesSearch s account timestamp 0 (n - 1)

/-- `get_past_votes(account, timestamp)`. -/
def getPastVotes (s : VeState) (account : Key) (timestamp : Nat) : Nat :=
  sumBalances s (getCheckPoint s account (getPastVotesIndex s account timestamp)).tokenIds
    timestamp

/-- The `delegates` entry point: it returns its `delegator` argument, without reading storage. -/
def Entry.delegates (delegator : Key) : Key := delegator

/-- `get_votes(account)`: reads the checkpoint at index `NUM_CHECKPOINTS`. -/
def getVotes (env : Env) (s : VeState) (account : Key) : Nat :=
  let n := getNumCheckpoints s account
  if n = 0 then 0
  else sumBalances s (getCheckPoint s account n).tokenIds (currentBlockTimestampSeconds env)

end VotingEscrow
