import VotingEscrow.State

/-!
# The checkpoint engine

`_check_point` folds one lock change into the global decay curve. It reads the latest global
point, replays the weeks since that point one at a time (at most 255), applying the slope
changes scheduled at each week boundary and recording a point per full week, then adds the
lock's own change of slope and bias, reschedules the slope changes at the old and the new
unlock time, and appends a point to the token's history.

The clamps to zero are a parameter of the replay and of the fold (`checkPointWith`), so that
"no clamp changes a value" can be stated as an equation. The contract's engine is
`checkPoint`, with `clampNonNegative`.
-/

namespace VotingEscrow

/-- `u_old` / `u_new` of `_check_point`: the slope `amount / MAXTIME` and the bias
`slope * (end - ts)` of a lock at time `ts`, zero for an empty or an expired lock. -/
def lockPoint (l : LockedBalance) (ts : Nat) : Point :=
  if ts < l.lockEnd ∧ 0 < l.amount then
    { Point.default with
      slope := (l.amount / maxtime : Nat)
      bias := wrapI128 ((l.amount / maxtime : Nat) * (l.lockEnd - ts : Nat)) }
  else Point.default

/-- The variables the replay loop of `_check_point` carries from one week to the next, with
the global point history it writes. -/
structure Replay where
  lastPoint : Point
  lastCheckpoint : Nat
  tI : Nat
  epoch : Nat
  history : Nat → Point

/-- One week of the replay loop of `_check_point`: move `t_i` a week on (to `ts` at most),
decay the bias from `last_checkpoint`, add the slope change scheduled at `t_i`, clamp both and
interpolate the block. -/
def replayPoint (clamp : Int → Int) (slopeChanges : Nat → Int) (ts blockSlope : Nat)
    (initial : Point) (r : Replay) : Point :=
  let tI := if ts < r.tI + week then ts else r.tI + week
  let dSlope := if ts < r.tI + week then 0 else slopeChanges tI
  { bias := clamp (wrapI128 (r.lastPoint.bias -
      wrapI128 (r.lastPoint.slope * wrapI128 (wrapU128 ((tI : Int) - r.lastCheckpoint)))))
    slope := clamp (wrapI128 (r.lastPoint.slope + dSlope))
    ts := wrapU64 tI
    blk := wrapU64 (initial.blk +
      wrapU64 (wrapU128 (blockSlope * wrapU128 ((tI : Int) - initial.ts)) / multiplier)) }

/-- The replay loop of `_check_point`, `fuel` iterations of its 255 left: compute the week's
point and bump the epoch; stop on reaching `ts`, else record the point. -/
def replay (clamp : Int → Int) (slopeChanges : Nat → Int) (ts blockSlope : Nat)
    (initial : Point) : Nat → Replay → Replay
  | 0, r => r
  | fuel + 1, r =>
    let tI := if ts < r.tI + week then ts else r.tI + week
    let point := replayPoint clamp slopeChanges ts blockSlope initial r
    if tI = ts then
      { r with lastPoint := { point with blk := currentBlockNumber },
               lastCheckpoint := wrapU64 tI, tI, epoch := r.epoch + 1 }
    else
      replay clamp slopeChanges ts blockSlope initial fuel
        { lastPoint := point, lastCheckpoint := wrapU64 tI, tI, epoch := r.epoch + 1,
          history := Function.update r.history (r.epoch + 1) point }

/-- The fold of `_check_point` after the replay: `slope += u_new.slope - u_old.slope` and
`bias += u_new.bias - u_old.bias`, each clamped. -/
def applyLockChange (clamp : Int → Int) (p uOld uNew : Point) : Point :=
  { p with
    slope := clamp (wrapI128 (wrapI128 (p.slope + uNew.slope) - uOld.slope))
    bias := clamp (wrapI128 (wrapI128 (p.bias + uNew.bias) - uOld.bias)) }

/-- The schedule writes of `_check_point`. At an old unlock time still ahead the old slope is
no longer due to leave, and the new one is when the unlock time is unchanged; at a later new
unlock time the new slope is due to leave. -/
def scheduleSlopeChanges (slopeChanges : Nat → Int) (ts : Nat)
    (oldLocked newLocked : LockedBalance) (uOld uNew : Point) : Nat → Int :=
  let oldDslope := slopeChanges oldLocked.lockEnd
  let newDslope := if newLocked.lockEnd = 0 then 0
    else if newLocked.lockEnd = oldLocked.lockEnd then oldDslope
    else slopeChanges newLocked.lockEnd
  let sc := if ts < oldLocked.lockEnd then
      Function.update slopeChanges oldLocked.lockEnd
        (if newLocked.lockEnd = oldLocked.lockEnd then
          wrapI128 (wrapI128 (oldDslope + uOld.slope) - uNew.slope)
        else wrapI128 (oldDslope + uOld.slope))
    else slopeChanges
  if ts < newLocked.lockEnd ∧ oldLocked.lockEnd < newLocked.lockEnd then
    Function.update sc newLocked.lockEnd (wrapI128 (newDslope - uNew.slope))
  else sc

/-- The user-history writes of `_check_point`: the token's epoch goes up by one and the new
lock's point, stamped with `ts` and the block, is stored under it. -/
def recordUserPoint (s : VeState) (tokenId ts : Nat) (uNew : Point) : VeState :=
  let userEpoch := wrapU64 (s.userPointEpoch tokenId + 1)
  { s with
    userPointEpoch := Function.update s.userPointEpoch tokenId userEpoch
    userPointHistory := Function.update s.userPointHistory (userPointKey tokenId userEpoch)
      { uNew with ts, blk := currentBlockNumber } }

/-- The latest global point `_check_point` starts from: `point_history[EPOCH]`, or a zero
point at `ts` before the first checkpoint. -/
def startPoint (s : VeState) (ts : Nat) : Point :=
  if 0 < s.epoch then s.pointHistory s.epoch else ⟨0, 0, ts, currentBlockNumber⟩

/-- `block_slope`: blocks per second since `p`, scaled by `MULTIPLIER`. -/
def blockSlopeSince (p : Point) (ts : Nat) : Nat :=
  if p.ts < ts then
    wrapU128 (multiplier * wrapU128 ((currentBlockNumber : Int) - p.blk)) / (ts - p.ts)
  else 0

/-- The replay of `_check_point` at time `ts` from the latest global point. -/
def replayFrom (clamp : Int → Int) (s : VeState) (ts : Nat) : Replay :=
  let p := startPoint s ts
  replay clamp s.slopeChanges ts (blockSlopeSince p ts) p 255
    ⟨p, p.ts, p.ts / week * week, s.epoch, s.pointHistory⟩

/-- `_check_point(token_id, old_locked, new_locked)`, with `clamp` for its clamps to zero.
Token `0` only advances the global curve. -/
def checkPointWith (clamp : Int → Int) (env : Env) (s : VeState) (tokenId : Nat)
    (oldLocked newLocked : LockedBalance) : VeState :=
  let ts := currentBlockTimestampSeconds env
  let uOld := lockPoint oldLocked ts
  let uNew := lockPoint newLocked ts
  let r := replayFrom clamp s ts
  if tokenId = 0 then
    { s with
      epoch := wrapU64 r.epoch
      pointHistory := Function.update r.history r.epoch r.lastPoint }
  else
    recordUserPoint
      { s with
        epoch := wrapU64 r.epoch
        pointHistory :=
          Function.update r.history r.epoch (applyLockChange clamp r.lastPoint uOld uNew)
        slopeChanges := scheduleSlopeChanges s.slopeChanges ts oldLocked newLocked uOld uNew }
      tokenId ts uNew

section Frame

variable {clamp : Int → Int} {env : Env} {s : VeState} {tokenId : Nat} {o n : LockedBalance}

/-! The checkpoint writes the global curve, the schedule and the token's history only. -/

@[simp] theorem checkPointWith_locked :
    (checkPointWith clamp env s tokenId o n).locked = s.locked := by
  unfold checkPointWith recordUserPoint; split <;> rfl

@[simp] theorem checkPointWith_veSupply :
    (checkPointWith clamp env s tokenId o n).veSupply = s.veSupply := by
  unfold checkPointWith recordUserPoint; split <;> rfl

@[simp] theorem checkPointWith_nft : (checkPointWith clamp env s tokenId o n).nft = s.nft := by
  unfold checkPointWith recordUserPoint; split <;> rfl

@[simp] theorem checkPointWith_isLocked :
    (checkPointWith clamp env s tokenId o n).isLocked = s.isLocked := by
  unfold checkPointWith recordUserPoint; split <;> rfl

@[simp] theorem checkPointWith_delegates :
    (checkPointWith clamp env s tokenId o n).delegates = s.delegates := by
  unfold checkPointWith recordUserPoint; split <;> rfl

@[simp] theorem checkPointWith_checkpoints :
    (checkPointWith clamp env s tokenId o n).checkpoints = s.checkpoints := by
  unfold checkPointWith recordUserPoint; split <;> rfl

@[simp] theorem checkPointWith_numCheckpoints :
    (checkPointWith clamp env s tokenId o n).numCheckpoints = s.numCheckpoints := by
  unfold checkPointWith recordUserPoint; split <;> rfl

@[simp] theorem checkPointWith_team : (checkPointWith clamp env s tokenId o n).team = s.team := by
  unfold checkPointWith recordUserPoint; split <;> rfl

@[simp] theorem checkPointWith_voter :
    (checkPointWith clamp env s tokenId o n).voter = s.voter := by
  unfold checkPointWith recordUserPoint; split <;> rfl

@[simp] theorem checkPointWith_voted :
    (checkPointWith clamp env s tokenId o n).voted = s.voted := by
  unfold checkPointWith recordUserPoint; split <;> rfl

@[simp] theorem checkPointWith_attachments :
    (checkPointWith clamp env s tokenId o n).attachments = s.attachments := by
  unfold checkPointWith recordUserPoint; split <;> rfl

theorem checkPointWith_userPointEpoch (h : tokenId ≠ 0) :
    (checkPointWith clamp env s tokenId o n).userPointEpoch =
      Function.update s.userPointEpoch tokenId (wrapU64 (s.userPointEpoch tokenId + 1)) := by
  simp [checkPointWith, recordUserPoint, h]

theorem checkPointWith_userPointHistory (h : tokenId ≠ 0) :
    (checkPointWith clamp env s tokenId o n).userPointHistory =
      Function.update s.userPointHistory
        (userPointKey tokenId (wrapU64 (s.userPointEpoch tokenId + 1)))
        { lockPoint n (currentBlockTimestampSeconds env) with
          ts := currentBlockTimestampSeconds env, blk := currentBlockNumber } := by
  simp [checkPointWith, recordUserPoint, h]

/-! The global curve it writes: the replay's epoch, its point with the lock's change applied,
and, for a token, the rescheduled slope changes. -/

theorem checkPointWith_epoch :
    (checkPointWith clamp env s tokenId o n).epoch =
      wrapU64 (replayFrom clamp s (currentBlockTimestampSeconds env)).epoch := by
  unfold checkPointWith recordUserPoint; split <;> rfl

theorem checkPointWith_pointHistory :
    (checkPointWith clamp env s tokenId o n).pointHistory =
      Function.update (replayFrom clamp s (currentBlockTimestampSeconds env)).history
        (replayFrom clamp s (currentBlockTimestampSeconds env)).epoch
        (if tokenId = 0 then (replayFrom clamp s (currentBlockTimestampSeconds env)).lastPoint
        else applyLockChange clamp (replayFrom clamp s (currentBlockTimestampSeconds env)).lastPoint
          (lockPoint o (currentBlockTimestampSeconds env))
          (lockPoint n (currentBlockTimestampSeconds env))) := by
  unfold checkPointWith recordUserPoint; split <;> simp [*]

theorem checkPointWith_slopeChanges :
    (checkPointWith clamp env s tokenId o n).slopeChanges =
      if tokenId = 0 then s.slopeChanges
      else scheduleSlopeChanges s.slopeChanges (currentBlockTimestampSeconds env) o n
        (lockPoint o (currentBlockTimestampSeconds env))
        (lockPoint n (currentBlockTimestampSeconds env)) := by
  unfold checkPointWith recordUserPoint; split <;> simp [*]

end Frame

/-- `_check_point`. -/
def checkPoint (env : Env) (s : VeState) (tokenId : Nat) (oldLocked newLocked : LockedBalance) :
    VeState :=
  checkPointWith clampNonNegative env s tokenId oldLocked newLocked

end VotingEscrow
