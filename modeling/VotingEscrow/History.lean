import VotingEscrow.Curve

/-!
# The global point history

`_check_point` appends to `point_history`. Its replay loop stores one point per week boundary it
passes, at the epochs after `EPOCH`, and the call's own point at the last of them; no epoch up
to `EPOCH` is written. Each stored point is at a week boundary between the latest point and the
call, or at the call's time, and the block interpolation is flat, since the source's
`current_block_number` is a constant. So in every run the history up to `EPOCH` is ordered by
time, with every point at the contract's block (`pointHistory_append_only`).

`_total_supply_at_t(t)` reads the latest point, at `T`, back through the loop of `_supply_at`. Up
to the first week boundary `w₁` after `T` it gives the bias of the locks at `t`
(`totalSupplyAtT_first_week`). Past `w₁` the loop sets the point's time to `T + w₁`, not `w₁`,
so in the next week it gives that bias plus the locks' slope times `T`
(`totalSupplyAtT_second_week`), more than the balances of the positions sum to and more than a
checkpoint at that time records.

A checkpoint in a block that has already checkpointed finds the latest point at its own time:
it appends a copy of that point and changes nothing else (`checkPoint_repeats_latest`).

Each token's own history counts its checkpoints: a call raises `USER_POINT_EPOCH` of each
nonzero id whose lock it checkpoints by one, in `u64`, and leaves every other id's
(`step_userPointEpoch`).

`EPOCH` is stored as a `u64`, cut from the `u128` the loop counts in. Below `2^64 - 255` each
call raises it by one to 255; the call that carries it past `2^64 - 1` stores a smaller epoch,
from which the next call starts as from the installed contract (`checkPoint_wraps_epoch`).
-/

namespace VotingEscrow

/-! ## Ordered histories -/

/-- `h[0..n]` is ordered by time, and every point of it is at the contract's block. -/
structure HistoryOrdered (h : Nat → Point) (n : Nat) : Prop where
  ts_le : ∀ i j, i ≤ j → j ≤ n → (h i).ts ≤ (h j).ts
  blk : ∀ e ≤ n, (h e).blk = currentBlockNumber

namespace HistoryOrdered

variable {h : Nat → Point} {n : Nat}

/-- A history that agrees with an ordered one up to `m ≤ n` is ordered up to `m`. -/
theorem restrict (hh : HistoryOrdered h n) {m : Nat} (hm : m ≤ n) {h' : Nat → Point}
    (he : ∀ e ≤ m, h' e = h e) : HistoryOrdered h' m :=
  ⟨fun i j hij hj => by rw [he i (hij.trans hj), he j hj]; exact hh.ts_le i j hij (hj.trans hm),
    fun e he' => by rw [he e he']; exact hh.blk e (he'.trans hm)⟩

/-- Storing a point no earlier than `h[n]`, at `n` or at `n + 1`, keeps the history ordered. -/
theorem write (hh : HistoryOrdered h n) {m : Nat} (hm : m = n ∨ m = n + 1) {p : Point}
    (hts : (h n).ts ≤ p.ts) (hblk : p.blk = currentBlockNumber) :
    HistoryOrdered (Function.update h m p) m := by
  have below : ∀ i < m, (h i).ts ≤ p.ts := fun i hi => (hh.ts_le i n (by omega) le_rfl).trans hts
  refine ⟨fun i j hij hj => ?_, fun e he => ?_⟩ <;> simp only [Function.update_apply]
  · split_ifs with hi hj'
    · exact le_rfl
    · omega
    · exact below i (by omega)
    · exact hh.ts_le i j hij (by omega)
  · split_ifs
    · exact hblk
    · exact hh.blk e (by omega)

end HistoryOrdered

/-! ## The replay loop -/

section Replay

variable {clamp : Int → Int} {sc : Nat → Int} {ts blockSlope : Nat} {initial : Point}

/-- The loop raises the epoch by one each week, so by one to `fuel + 1` in `fuel + 1` weeks. -/
theorem replay_epoch (fuel : Nat) (r : Replay) :
    r.epoch < (replay clamp sc ts blockSlope initial (fuel + 1) r).epoch ∧
      (replay clamp sc ts blockSlope initial (fuel + 1) r).epoch ≤ r.epoch + (fuel + 1) := by
  induction fuel generalizing r with
  | zero => rw [replay_succ]; split <;> exact ⟨Nat.lt_succ_self _, le_rfl⟩
  | succ fuel ih =>
    rw [replay_succ]
    split
    · exact ⟨Nat.lt_succ_self _, by simp only; omega⟩
    · have h := ih ⟨replayPoint clamp sc ts blockSlope initial r, wrapU64 (nextTI ts r),
        nextTI ts r, r.epoch + 1,
        Function.update r.history (r.epoch + 1) (replayPoint clamp sc ts blockSlope initial r)⟩
      dsimp only at h
      omega

/-- The loop writes only the epochs after the one it starts from. -/
theorem replay_history_of_le (fuel : Nat) (r : Replay) {e : Nat} (he : e ≤ r.epoch) :
    (replay clamp sc ts blockSlope initial fuel r).history e = r.history e := by
  induction fuel generalizing r with
  | zero => rfl
  | succ fuel ih =>
    rw [replay_succ]
    split
    · rfl
    · rw [ih _ (by simp only; omega)]
      exact Function.update_noteq (by omega) _ _

/-- What the loop keeps from week to week, with a flat block interpolation from a point at the
contract's block: the history ordered up to the epoch, and the last point no earlier than the
history's, up to `ts`, within the week of `t_i` and at the contract's block. -/
structure ReplayOrdered (ts : Nat) (r : Replay) : Prop where
  history : HistoryOrdered r.history r.epoch
  after : (r.history r.epoch).ts ≤ r.lastPoint.ts
  tI_le : r.tI ≤ r.lastPoint.ts
  lt_next : r.lastPoint.ts < r.tI + week
  le_ts : r.lastPoint.ts ≤ ts
  blk : r.lastPoint.blk = currentBlockNumber

/-- What the loop leaves `_check_point` to store at its epoch: any point at the last point's time
or later, at the contract's block, closes an ordered history. -/
structure ReplayClosed (ts : Nat) (r : Replay) : Prop where
  write : ∀ p : Point, r.lastPoint.ts ≤ p.ts → p.blk = currentBlockNumber →
    HistoryOrdered (Function.update r.history r.epoch p) r.epoch
  le_ts : r.lastPoint.ts ≤ ts
  blk : r.lastPoint.blk = currentBlockNumber

theorem ReplayOrdered.le_nextTI {r : Replay} (hr : ReplayOrdered ts r) :
    r.lastPoint.ts ≤ nextTI ts r ∧ nextTI ts r ≤ ts := by
  have := hr.le_ts; have := hr.lt_next
  unfold nextTI; split <;> omega

/-- A week's point is at `t_i`, at the contract's block. -/
theorem replayPoint_ts_blk (clamp : Int → Int) (sc : Nat → Int) (hts : ts < 2 ^ 64)
    (hinit : initial.blk = currentBlockNumber)
    {r : Replay} (hr : ReplayOrdered ts r) :
    (replayPoint clamp sc ts 0 initial r).ts = nextTI ts r ∧
      (replayPoint clamp sc ts 0 initial r).blk = currentBlockNumber := by
  rw [replayPoint_eq_nextTI]
  exact ⟨wrapU64_of_lt (by have := hr.le_nextTI.2; omega),
    by simp only [hinit, Nat.cast_zero, zero_mul]; rfl⟩

theorem ReplayOrdered.closed {r : Replay} (hr : ReplayOrdered ts r) : ReplayClosed ts r :=
  ⟨fun _ hp hblk => hr.history.write (.inl rfl) (hr.after.trans hp) hblk, hr.le_ts, hr.blk⟩

/-- **The replay loop appends an ordered stretch of history.** -/
theorem ReplayOrdered.replay (hts : ts < 2 ^ 64) (hinit : initial.blk = currentBlockNumber)
    (fuel : Nat) {r : Replay} (hr : ReplayOrdered ts r) :
    ReplayClosed ts (replay clamp sc ts 0 initial fuel r) := by
  induction fuel generalizing r with
  | zero => exact hr.closed
  | succ fuel ih =>
    obtain ⟨hpts, hpblk⟩ := replayPoint_ts_blk clamp sc hts hinit hr
    obtain ⟨hle, hle'⟩ := hr.le_nextTI
    rw [replay_succ]
    split
    · exact ⟨fun p hp hblk => hr.history.write (.inr rfl)
        (hr.after.trans (hle.trans (by rw [← hpts]; exact hp))) hblk,
        show (replayPoint clamp sc ts 0 initial r).ts ≤ ts from hpts ▸ hle', rfl⟩
    · refine ih ⟨hr.history.write (.inr rfl) (hr.after.trans (hpts ▸ hle)) hpblk, ?_, ?_, ?_,
        ?_, hpblk⟩
      · simp only [Function.update_same, le_rfl]
      · exact hpts.ge
      · simp only [hpts, week]; omega
      · exact hpts ▸ hle'

end Replay

/-! ## `_check_point` -/

/-- The history of a state at time `t`: ordered up to `EPOCH`, its latest point no later than `t`,
and `EPOCH` a `u64`. -/
structure HistoryInvariant (t : Nat) (s : VeState) : Prop where
  ordered : HistoryOrdered s.pointHistory s.epoch
  latest : (latestPoint s).ts ≤ t
  epoch_lt : s.epoch < 2 ^ 64

section Checkpoint

variable {t : Nat} {s : VeState} {env : Env}

theorem genesis_historyInvariant (env : Env) :
    HistoryInvariant (currentBlockTimestampSeconds env) (genesis env) :=
  ⟨⟨fun i j hij (hj : j ≤ 0) => by rw [Nat.le_zero.1 hj, Nat.le_zero.1 (hij.trans hj)],
    fun e (he : e ≤ 0) => by rw [Nat.le_zero.1 he]; rfl⟩, le_rfl,
    show 0 < 2 ^ 64 by norm_num⟩

/-- The replay starts from the latest point, or from a zero point at the call's time before the
first checkpoint, at the contract's block. -/
theorem HistoryInvariant.replayStart (hi : HistoryInvariant t s) {ts : Nat} (ht : t ≤ ts) :
    ReplayOrdered ts
        ⟨startPoint s ts, (startPoint s ts).ts, (startPoint s ts).ts / week * week, s.epoch,
          s.pointHistory⟩ ∧
      (startPoint s ts).blk = currentBlockNumber := by
  have hdiv := Nat.div_mul_le_self (startPoint s ts).ts week
  have hlt := Nat.lt_div_mul_add (a := (startPoint s ts).ts) (show 0 < week by decide)
  have hl := hi.latest
  by_cases he : 0 < s.epoch
  · have hp : startPoint s ts = latestPoint s := if_pos he
    have hb := hi.ordered.blk s.epoch le_rfl
    rw [hp] at hdiv hlt ⊢
    exact ⟨⟨hi.ordered, le_rfl, hdiv, hlt, hl.trans ht, hb⟩, hb⟩
  · have hp : startPoint s ts = ⟨0, 0, ts, currentBlockNumber⟩ := if_neg he
    rw [hp] at hdiv hlt ⊢
    exact ⟨⟨hi.ordered, hl.trans ht, hdiv, hlt, le_rfl, rfl⟩, rfl⟩

/-- The block slope from a point at the contract's block is zero. -/
theorem blockSlopeSince_of_blk {p : Point} (h : p.blk = currentBlockNumber) (ts : Nat) :
    blockSlopeSince p ts = 0 := by
  unfold blockSlopeSince
  split
  · simp [h, wrapU128]
  · rfl

/-- **One `_check_point`**: it never writes an epoch up to `EPOCH`, keeps the history ordered,
and, with `EPOCH + 255` below `2^64`, raises `EPOCH` by one to 255. -/
theorem HistoryInvariant.checkPointWith (hi : HistoryInvariant t s)
    (ht : t ≤ currentBlockTimestampSeconds env) (clamp : Int → Int) (tokenId : Nat)
    (o n : LockedBalance) :
    HistoryInvariant (currentBlockTimestampSeconds env) (checkPointWith clamp env s tokenId o n) ∧
      (∀ e ≤ s.epoch,
        (checkPointWith clamp env s tokenId o n).pointHistory e = s.pointHistory e) ∧
      (s.epoch + 255 < 2 ^ 64 → s.epoch < (checkPointWith clamp env s tokenId o n).epoch ∧
        (checkPointWith clamp env s tokenId o n).epoch ≤ s.epoch + 255) := by
  set ts := currentBlockTimestampSeconds env
  set R := replayFrom clamp s ts with hR
  obtain ⟨hstart, hblk⟩ := hi.replayStart ht
  have hclosed : ReplayClosed ts R := by
    rw [hR, replayFrom, blockSlopeSince_of_blk hblk]
    exact hstart.replay (by have := currentBlockTimestampSeconds_lt env; omega) hblk 255
  have hep : s.epoch < R.epoch ∧ R.epoch ≤ s.epoch + 255 := by
    rw [hR, replayFrom]; exact replay_epoch 254 ⟨_, _, _, _, _⟩
  have hframe : ∀ e ≤ s.epoch, R.history e = s.pointHistory e := fun e he =>
    replay_history_of_le 255 _ he
  /- The point stored at the replay's epoch: its last point, with the lock's change applied. -/
  set p := if tokenId = 0 then R.lastPoint
    else applyLockChange clamp R.lastPoint (lockPoint o ts) (lockPoint n ts)
  have hp : p.ts = R.lastPoint.ts ∧ p.blk = R.lastPoint.blk := by
    simp only [p]; split <;> exact ⟨rfl, rfl⟩
  have hph : (VotingEscrow.checkPointWith clamp env s tokenId o n).pointHistory =
      Function.update R.history R.epoch p := checkPointWith_pointHistory
  have hepoch : (VotingEscrow.checkPointWith clamp env s tokenId o n).epoch = R.epoch % 2 ^ 64 := by
    rw [checkPointWith_epoch, wrapU64_natCast]
  have hold : ∀ e ≤ s.epoch, (VotingEscrow.checkPointWith clamp env s tokenId o n).pointHistory e =
      s.pointHistory e := fun e he => by
    rw [hph, Function.update_noteq (by omega), hframe e he]
  refine ⟨?_, hold, fun _ => by rw [hepoch]; omega⟩
  rcases Nat.lt_or_ge R.epoch (2 ^ 64) with hlt | hge
  · /- No wrap: the replay's history, with `p` stored at the replay's epoch. -/
    rw [Nat.mod_eq_of_lt hlt] at hepoch
    refine ⟨?_, ?_, by rw [hepoch]; exact hlt⟩
    · rw [hepoch, hph]
      exact hclosed.write p hp.1.ge (hp.2.trans hclosed.blk)
    · rw [latestPoint, hepoch, hph, Function.update_same, hp.1]
      exact hclosed.le_ts
  · /- A wrap: `EPOCH` falls back to at most the old `EPOCH`, below which nothing changed. -/
    have hwrap : R.epoch % 2 ^ 64 ≤ s.epoch := by have := hi.epoch_lt; omega
    rw [← hepoch] at hwrap
    refine ⟨hi.ordered.restrict hwrap fun e he => hold e (he.trans hwrap), ?_, by omega⟩
    rw [latestPoint, hold _ hwrap]
    exact (hi.ordered.ts_le _ _ hwrap le_rfl).trans (hi.latest.trans ht)

theorem HistoryInvariant.mono (hi : HistoryInvariant t s) {t' : Nat} (ht : t ≤ t') :
    HistoryInvariant t' s :=
  ⟨hi.ordered, hi.latest.trans ht, hi.epoch_lt⟩

/-- The history is outside what a lock change stores before its `_check_point`. -/
theorem HistoryInvariant.lockChange (hi : HistoryInvariant t s)
    (ht : t ≤ currentBlockTimestampSeconds env) (w : Nat × LockedBalance) :
    HistoryInvariant (currentBlockTimestampSeconds env) (lockChange env s w) :=
  have hi' : HistoryInvariant t { s with locked := Function.update s.locked w.1 w.2 } :=
    ⟨hi.ordered, hi.latest, hi.epoch_lt⟩
  (hi'.checkPointWith ht _ _ _ _).1

theorem HistoryInvariant.lockChanges (hi : HistoryInvariant t s)
    (ht : t ≤ currentBlockTimestampSeconds env) (ws : List (Nat × LockedBalance)) :
    HistoryInvariant (currentBlockTimestampSeconds env)
      (ws.foldl (VotingEscrow.lockChange env) s) := by
  induction ws generalizing t s with
  | nil => exact hi.mono ht
  | cons w ws ih => exact ih (hi.lockChange ht w) le_rfl

theorem HistoryInvariant.of_sameCore (hi : HistoryInvariant t s) {s' : VeState}
    (h : SameCore s s') : HistoryInvariant t s' :=
  ⟨by rw [h.pointHistory, h.epoch]; exact hi.ordered,
    by rw [latestPoint, h.pointHistory, h.epoch]; exact hi.latest, h.epoch ▸ hi.epoch_lt⟩

/-- **One call keeps the history ordered**: it is a list of lock changes. -/
theorem HistoryInvariant.step (hi : HistoryInvariant t s) (hz : ZeroFree s)
    (ht : t ≤ currentBlockTimestampSeconds env) {c : Call} {s' : VeState}
    (h : step env s c = .ok s') :
    HistoryInvariant (currentBlockTimestampSeconds env) s' ∧ ZeroFree s' := by
  obtain ⟨hz', ws, -, -, hcore, -⟩ := step_lockChanges hz h
  exact ⟨(hi.lockChanges ht ws).of_sameCore hcore, hz'⟩

theorem reachable_historyInvariant {allowed : VeState → Env → Call → Prop}
    (h : Reachable allowed t s) : HistoryInvariant t s ∧ ZeroFree s := by
  induction h with
  | genesis env => exact ⟨genesis_historyInvariant env, genesis_zeroFree env⟩
  | step env c _ ht _ hstep ih => exact ih.1.step ih.2 ht hstep

end Checkpoint

/-- **The global point history is append-only and ordered.** In every run the history up to
`EPOCH` is ordered by time, every point of it at the contract's block, and its latest point is no
later than the last call. Every `_check_point` from such a history, at a time no earlier, keeps it
so and writes no epoch up to `EPOCH`; with `EPOCH + 255` below `2^64` it raises `EPOCH` by one
to 255. -/
theorem pointHistory_append_only {t : Nat} {s : VeState}
    (h : Reachable (fun _ _ _ => True) t s) :
    HistoryInvariant t s ∧
      ∀ (t₀ : Nat) (s₀ : VeState) (env : Env) (tokenId : Nat) (o n : LockedBalance),
        HistoryInvariant t₀ s₀ → t₀ ≤ currentBlockTimestampSeconds env →
          HistoryInvariant (currentBlockTimestampSeconds env) (checkPoint env s₀ tokenId o n) ∧
          (∀ e ≤ s₀.epoch, (checkPoint env s₀ tokenId o n).pointHistory e = s₀.pointHistory e) ∧
          (s₀.epoch + 255 < 2 ^ 64 → s₀.epoch < (checkPoint env s₀ tokenId o n).epoch ∧
            (checkPoint env s₀ tokenId o n).epoch ≤ s₀.epoch + 255) :=
  ⟨(reachable_historyInvariant h).1, fun _ _ _ _ _ _ hi ht => hi.checkPointWith ht _ _ _ _⟩

theorem pointHistory_append_only_oneLock :
    Reachable (fun _ _ _ => True) week oneLock ∧ HistoryInvariant week oneLock :=
  ⟨oneLock_reachable, (pointHistory_append_only oneLock_reachable).1⟩

/-! ## Reading the latest point back -/

/-- Every time in a run's index is a block time in seconds. -/
theorem Reachable.time_lt {allowed : VeState → Env → Call → Prop} {t : Nat} {s : VeState}
    (h : Reachable allowed t s) : t < 2 ^ 55 := by
  cases h with
  | genesis env => exact currentBlockTimestampSeconds_lt env
  | step env => exact currentBlockTimestampSeconds_lt env

/-- Up to the first week boundary after the point, the loop of `_supply_at` runs once: it decays
the bias to `t`, the one step in which it agrees with the replay of `_check_point`. -/
theorem supplyAt_first_week (s : VeState) (p : Point) {t : Nat} (hts : p.ts < 2 ^ 63)
    (ht : t ≤ p.ts / week * week + week) :
    supplyAt s p t =
      (clampNonNegative (wrapI128 (p.bias - wrapI128 (p.slope * ((t : Int) - p.ts))))).toNat := by
  have hnext : wrapU64 (((p.ts / week * week : Nat) : Int) + week) = p.ts / week * week + week :=
    wrapU64_of_lt (by have := Nat.div_mul_le_self p.ts week; simp only [week] at *; omega)
  unfold supplyAt
  rw [show (255 : Nat) = 254 + 1 from rfl, supplyAtLoop]
  simp only [hnext]
  by_cases hlt : t < p.ts / week * week + week
  · simp [hlt]
  · have heq : p.ts / week * week + week = t := by omega
    simp [hlt, heq]

/-- No lock ends strictly inside the week of the latest point: each ends by `T` or at a week
boundary from the next one on. -/
theorem CurveInvariant.ends_outside_week {ids : Finset Nat} {s : VeState}
    (hi : CurveInvariant ids s) (id : Nat) :
    (s.locked id).lockEnd ≤ (latestPoint s).ts ∨
      (latestPoint s).ts / week * week + week ≤ (s.locked id).lockEnd :=
  (aligned_outside (Nat.dvd_mul_left week ((latestPoint s).ts / week))
    ((hi.wellFormed id).lockEnd.1)).imp_left fun h => h.trans (Nat.div_mul_le_self _ _)

/-- Past the first week boundary `w₁` and before the next, the loop of `_supply_at` runs twice:
the first iteration decays the bias to `w₁` and adds the slope change there, but sets the time to
`ts + w₁` where `_check_point` sets `w₁`; the second decays from that time to `t`. -/
theorem supplyAt_second_week (s : VeState) (p : Point) {t : Nat} (hts : p.ts < 2 ^ 62)
    (ht₁ : p.ts / week * week + week < t) (ht₂ : t < p.ts / week * week + 2 * week) :
    supplyAt s p t =
      (clampNonNegative (wrapI128 (wrapI128 (p.bias - wrapI128 (p.slope *
        (((p.ts / week * week + week : Nat) : Int) - p.ts))) -
        wrapI128 (wrapI128 (p.slope + s.slopeChanges (p.ts / week * week + week)) *
          ((t : Int) - ((p.ts + (p.ts / week * week + week) : Nat) : Int)))))).toNat := by
  have hw := Nat.div_mul_le_self p.ts week
  generalize hw₀ : p.ts / week * week = w₀ at *
  have h₁ : wrapU64 ((w₀ : Int) + week) = w₀ + week :=
    wrapU64_of_lt (by simp only [week] at *; omega)
  have h₂ : wrapU64 (((w₀ + week : Nat) : Int) + week) = w₀ + week + week :=
    wrapU64_of_lt (by simp only [week] at *; omega)
  have h₃ : wrapU64 ((p.ts : Int) + ((w₀ + week : Nat) : Int)) = p.ts + (w₀ + week) :=
    wrapU64_of_lt (by simp only [week] at *; omega)
  unfold supplyAt
  rw [hw₀, show (255 : Nat) = 253 + 1 + 1 from rfl, supplyAtLoop, supplyAtLoop]
  simp only [h₁, if_neg (show ¬t < w₀ + week by omega), if_neg (show w₀ + week ≠ t by omega), h₂,
    if_pos (show t < w₀ + week + week by omega), h₃, if_pos rfl, if_true]

/-- The second-week value of `_supply_at` when nothing wraps: from bias `B` and slope `S` at `T`
to bias `B₁` and slope `S'` at `w₁`, and to `Bt` at `t`, the loop's decay from `T + w₁` adds
`S' * T` to `Bt`. -/
theorem secondWeek_value {T w₁ t S S' D B B₁ Bt : Nat} (hT : T < w₁) (ht : w₁ ≤ t)
    (hb₁ : B₁ + S * (w₁ - T) = B) (hs₁ : S' + D = S) (hb₂ : Bt + S' * (t - w₁) = B₁)
    (hB : B < 2 ^ 126) (hS : S < 2 ^ 126) (hST : S * T < 2 ^ 126) :
    (clampNonNegative (wrapI128 (wrapI128 ((B : Int) - wrapI128 ((S : Int) * ((w₁ : Int) - T))) -
      wrapI128 (wrapI128 ((S : Int) + -(D : Int)) * ((t : Int) - ((T + w₁ : Nat) : Int)))))).toNat =
      Bt + S' * T := by
  have hQ : S' * T < 2 ^ 126 := (Nat.mul_le_mul_right _ (by omega)).trans_lt hST
  have hp₁ : wrapI128 ((S : Int) * ((w₁ : Int) - T)) = ((S * (w₁ - T) : Nat) : Int) := by
    rw [show (w₁ : Int) - T = ((w₁ - T : Nat) : Int) by omega, ← Nat.cast_mul]
    exact wrapI128_natCast_of_lt (by omega)
  have hd₁ : wrapI128 ((B : Int) - ((S * (w₁ - T) : Nat) : Int)) = (B₁ : Int) := by
    rw [← wrapI128_natCast_of_lt (n := B₁) (by omega)]; congr 1; omega
  have hs : wrapI128 ((S : Int) + -(D : Int)) = (S' : Int) := by
    rw [← wrapI128_natCast_of_lt (n := S') (by omega)]; congr 1; omega
  have hd : (t : Int) - ((T + w₁ : Nat) : Int) = ((t - w₁ : Nat) : Int) - T := by omega
  rw [hp₁, hd₁, hs, hd, Int.mul_sub, ← Nat.cast_mul, ← Nat.cast_mul]
  generalize S' * (t - w₁) = P at hb₂ ⊢
  generalize S' * T = Q at hQ ⊢
  have hd₂ : wrapI128 ((B₁ : Int) - wrapI128 ((P : Int) - Q)) = ((Bt + Q : Nat) : Int) := by
    rw [wrapI128_of_mem (x := (P : Int) - Q) (by omega) (by omega),
      ← wrapI128_natCast_of_lt (n := Bt + Q) (by omega)]
    congr 1; omega
  rw [hd₂, clampNonNegative_of_nonneg (Int.natCast_nonneg _), Int.toNat_natCast]

/-- **`_total_supply_at_t` is exact up to the first week boundary.** In every run of the curve,
for each time `t` from the time `T` of the latest global point to the first week boundary after
it, `_total_supply_at_t(t)` is the bias of the locks at `t`: the sum over all locks of
`amount / MAXTIME` times the time each has left. -/
theorem totalSupplyAtT_first_week {t₀ : Nat} {s : VeState}
    (h : Reachable (CurveRun replayHorizon) t₀ s) :
    ∃ ids : Finset Nat, (∀ id ∉ ids, s.locked id = LockedBalance.default) ∧
      ∀ t, (latestPoint s).ts ≤ t → t ≤ (latestPoint s).ts / week * week + week →
        totalSupplyAtT s t = biasAt s.locked ids t := by
  have hinv := reachable_curveRunInvariant h
  obtain ⟨ids, hi⟩ := hinv.curve
  refine ⟨ids, hi.support, fun t hT ht => ?_⟩
  have hT₀ : (latestPoint s).ts < 2 ^ 63 := by have := h.time_lt; have := hinv.latest; omega
  /- No lock ends strictly inside the week of `T`, so the bias falls by the slope at `T`. -/
  have hgap : ∀ id ∈ ids,
      (s.locked id).lockEnd ≤ (latestPoint s).ts ∨ t ≤ (s.locked id).lockEnd := fun id _ =>
    (hi.ends_outside_week id).imp_right ht.trans
  have hadv := biasAt_advance hT hgap
  have hbias : biasAt s.locked ids (latestPoint s).ts ≤ lockedTotal s.locked ids :=
    biasAt_le_lockedTotal fun id _ => ((hi.wellFormed id).lockEnd).2
  have htot := hinv.total ids
  have hd : ((t : Int) - (latestPoint s).ts) = ((t - (latestPoint s).ts : Nat) : Int) := by omega
  show supplyAt s (latestPoint s) t = _
  rw [supplyAt_first_week s _ hT₀ ht, hi.slope, hi.bias]
  generalize slopeAt s.locked ids (latestPoint s).ts = S at hadv ⊢
  generalize hP : S * (t - (latestPoint s).ts) = P at hadv
  have hprod : wrapI128 ((S : Int) * ((t : Int) - (latestPoint s).ts)) = (P : Int) := by
    rw [hd, ← Nat.cast_mul, hP]; exact wrapI128_natCast_of_lt (by omega)
  have hdiff : wrapI128 (((biasAt s.locked ids (latestPoint s).ts : Nat) : Int) - P) =
      (biasAt s.locked ids t : Int) := by
    rw [← wrapI128_natCast_of_lt (n := biasAt s.locked ids t) (by omega)]; congr 1; omega
  rw [hprod, hdiff, clampNonNegative_of_nonneg (Int.natCast_nonneg _), Int.toNat_natCast]

theorem totalSupplyAtT_first_week_oneLock :
    Reachable (CurveRun replayHorizon) week oneLock ∧
      ∃ ids : Finset Nat, (∀ id ∉ ids, oneLock.locked id = LockedBalance.default) ∧
        ∀ t, (latestPoint oneLock).ts ≤ t → t ≤ (latestPoint oneLock).ts / week * week + week →
          totalSupplyAtT oneLock t = biasAt oneLock.locked ids t :=
  ⟨oneLock_curveRun, totalSupplyAtT_first_week oneLock_curveRun⟩

/-- **Past the first week boundary `_total_supply_at_t` overshoots by the slope times `T`.** In
every run of the curve whose latest global point has `slope * T` below `2^126`, for each time `t`
strictly inside the second week after `T`, `_total_supply_at_t(t)` is the bias of the locks at `t`
plus their slope at `t` times `T`: the first iteration of `_supply_at` sets the point's time to
`T + w₁` rather than `w₁`, and the second decays the bias from there. -/
theorem totalSupplyAtT_second_week {t₀ : Nat} {s : VeState}
    (h : Reachable (CurveRun replayHorizon) t₀ s)
    (hS : (latestPoint s).slope * (latestPoint s).ts < 2 ^ 126) :
    ∃ ids : Finset Nat, (∀ id ∉ ids, s.locked id = LockedBalance.default) ∧
      ∀ t, (latestPoint s).ts / week * week + week < t →
        t < (latestPoint s).ts / week * week + 2 * week →
          totalSupplyAtT s t =
            biasAt s.locked ids t + slopeAt s.locked ids t * (latestPoint s).ts := by
  have hinv := reachable_curveRunInvariant h
  obtain ⟨ids, hi⟩ := hinv.curve
  refine ⟨ids, hi.support, fun t ht₁ ht₂ => ?_⟩
  have hT₀ : (latestPoint s).ts < 2 ^ 62 := by have := h.time_lt; have := hinv.latest; omega
  have hlt₁ := Nat.lt_div_mul_add (a := (latestPoint s).ts) (show 0 < week by decide)
  have hw₁ : week ∣ (latestPoint s).ts / week * week + week :=
    Nat.dvd_add (Nat.dvd_mul_left _ _) (Nat.dvd_refl _)
  /- A lock running at `w₁` ends at `w₁ + week` at the earliest, after `t`. -/
  have hgap : ∀ id ∈ ids, (s.locked id).lockEnd ≤ (latestPoint s).ts / week * week + week ∨
      t < (s.locked id).lockEnd := fun id _ =>
    (aligned_outside hw₁ ((hi.wellFormed id).lockEnd.1)).imp_right fun h => by omega
  have hgap₁ : ∀ id ∈ ids, (s.locked id).lockEnd ≤ (latestPoint s).ts ∨
      (latestPoint s).ts / week * week + week ≤ (s.locked id).lockEnd :=
    fun id _ => hi.ends_outside_week id
  have hb₁ := biasAt_advance hlt₁.le hgap₁
  have hs₁ := slopeAt_advance hlt₁ hgap₁
  have hb₂ := biasAt_advance ht₁.le fun id hid => (hgap id hid).imp_right le_of_lt
  have hbias : biasAt s.locked ids (latestPoint s).ts ≤ lockedTotal s.locked ids :=
    biasAt_le_lockedTotal fun id _ => ((hi.wellFormed id).lockEnd).2
  have hslope : slopeAt s.locked ids (latestPoint s).ts ≤ lockedTotal s.locked ids :=
    slopeAt_le_lockedTotal _
  have hST : slopeAt s.locked ids (latestPoint s).ts * (latestPoint s).ts < 2 ^ 126 := by
    rw [hi.slope] at hS; exact_mod_cast hS
  show supplyAt s (latestPoint s) t = _
  rw [supplyAt_second_week s _ hT₀ ht₁ ht₂, hi.slope, hi.bias, hi.schedule _ hw₁ hlt₁,
    slopeAt_eq_of_gap ht₁.le hgap]
  exact secondWeek_value hlt₁ ht₁.le hb₁ hs₁ hb₂ (hbias.trans_lt (hinv.total ids))
    (hslope.trans_lt (hinv.total ids)) hST

theorem totalSupplyAtT_second_week_oneLock :
    Reachable (CurveRun replayHorizon) week oneLock ∧
      (latestPoint oneLock).slope * (latestPoint oneLock).ts < 2 ^ 126 ∧
      ∃ ids : Finset Nat, (∀ id ∉ ids, oneLock.locked id = LockedBalance.default) ∧
        ∀ t, (latestPoint oneLock).ts / week * week + week < t →
          t < (latestPoint oneLock).ts / week * week + 2 * week →
            totalSupplyAtT oneLock t =
              biasAt oneLock.locked ids t +
                slopeAt oneLock.locked ids t * (latestPoint oneLock).ts :=
  have hS : (latestPoint oneLock).slope * (latestPoint oneLock).ts < 2 ^ 126 := by
    rw [show latestPoint oneLock = ⟨1209600, 1, 604800, 100⟩ by decide]; norm_num
  ⟨oneLock_curveRun, hS, totalSupplyAtT_second_week oneLock_curveRun hS⟩

/-! ## The overshoot in one run

The run `oneLock` locks `MAXTIME` for two weeks at the start of week 1. One second past week 2,
inside the second week after its checkpoint, `_total_supply_at_t` reads `2 * WEEK - 1` where the
only balance, and the replay of a checkpoint at that time, read `WEEK - 1`: the overshoot of
`totalSupplyAtT_second_week`, `slope * T` with `T = WEEK`. -/

/-- In `oneLock` only token 1 has voting power. -/
theorem oneLock_sum_balances (t : Nat) :
    ∑ᶠ id, balanceOfNft oneLock id t = balanceOfNft oneLock 1 t :=
  finsum_eq_single _ 1 fun id h => balanceOfNft_of_userPointEpoch_eq_zero t
    (by rw [oneLock_userPointEpoch, Function.update_noteq h])

/-- **The total supply exceeds the balances past a week boundary.** In `oneLock`, whose latest
global checkpoint is at `WEEK`, the supply one second past `2 * WEEK` is `1209599` while the
balances sum to `604799`. -/
theorem totalSupplyAtT_ne_sum_balances :
    Reachable (fun _ _ _ => True) week oneLock ∧
      (oneLock.pointHistory oneLock.epoch).ts = week ∧
      totalSupplyAtT oneLock (2 * week + 1) = 1209599 ∧
      ∑ᶠ id, balanceOfNft oneLock id (2 * week + 1) = 604799 :=
  ⟨oneLock_reachable, by decide, by decide, by rw [oneLock_sum_balances]; decide⟩

/-- **`_supply_at` does not follow the checkpoint replay.** From `oneLock`'s latest global
point, `_supply_at` at `2 * WEEK + 1` gives `1209599`; `_check_point(0, ..)` run at that time
records a point of bias `604799`. -/
theorem supplyAt_ne_checkPoint_bias :
    Reachable (fun _ _ _ => True) week oneLock ∧
      supplyAt oneLock (oneLock.pointHistory oneLock.epoch) (2 * week + 1) = 1209599 ∧
      ((Entry.checkPoint (atTime aliceKey (2 * week + 1)) oneLock).pointHistory
        (Entry.checkPoint (atTime aliceKey (2 * week + 1)) oneLock).epoch).bias = 604799 :=
  ⟨oneLock_reachable, by decide, by decide⟩

/-! ## Checkpoints within one block -/

/-- `check_point()` from a latest point already at the call's time: the replay stops at its first
iteration, and the point it records is that point again. -/
theorem checkPoint_at_latest (env : Env) (s : VeState) (he : 0 < s.epoch)
    (hts : (latestPoint s).ts = currentBlockTimestampSeconds env)
    (hblk : (latestPoint s).blk = currentBlockNumber)
    (hb : 0 ≤ (latestPoint s).bias ∧ (latestPoint s).bias < 2 ^ 127)
    (hs : 0 ≤ (latestPoint s).slope ∧ (latestPoint s).slope < 2 ^ 127) :
    Entry.checkPoint env s = { s with
      epoch := wrapU64 (s.epoch + 1)
      pointHistory := Function.update s.pointHistory (s.epoch + 1) (latestPoint s) } := by
  have hstart : startPoint s (currentBlockTimestampSeconds env) = latestPoint s := if_pos he
  have hlt := Nat.lt_div_mul_add (a := (latestPoint s).ts) (show 0 < week by decide)
  have hnext : nextTI (currentBlockTimestampSeconds env) ⟨latestPoint s, (latestPoint s).ts,
      (latestPoint s).ts / week * week, s.epoch, s.pointHistory⟩ =
      currentBlockTimestampSeconds env := if_pos (by dsimp only; omega)
  unfold Entry.checkPoint checkPoint checkPointWith replayFrom
  simp only [hstart, if_true]
  rw [show (255 : Nat) = 254 + 1 from rfl, replay_succ, if_pos hnext, replayPoint_eq_nextTI, hnext]
  dsimp only
  have hwb := wrapI128_of_mem (x := (latestPoint s).bias) (by omega) hb.2
  have hws := wrapI128_of_mem (x := (latestPoint s).slope) (by omega) hs.2
  congr 1
  refine congrArg (Function.update s.pointHistory (s.epoch + 1)) ?_
  rw [← hts]
  ext
  · simp [show wrapU128 0 = 0 from rfl, hwb, clampNonNegative_of_nonneg hb.1]
  · simp [hlt, hws, clampNonNegative_of_nonneg hs.1]
  · exact wrapU64_of_lt (hts ▸ currentBlockTimestampSeconds_lt env |>.trans (by norm_num))
  · exact hblk.symm

/-- **A second checkpoint in a block copies the latest point.** In every run of the curve with a
nonzero `EPOCH` below `2^64 - 1`, when the latest global point is at the current time, as after
any call that checkpointed in the same block, `check_point()` appends a copy of that point at
`EPOCH + 1` and changes nothing else. -/
theorem checkPoint_repeats_latest {t₀ : Nat} {s : VeState}
    (h : Reachable (CurveRun replayHorizon) t₀ s) (he : 0 < s.epoch) (he' : s.epoch + 1 < 2 ^ 64)
    (env : Env) (hts : (latestPoint s).ts = currentBlockTimestampSeconds env) :
    step env s .checkPoint = .ok { s with
      epoch := s.epoch + 1
      pointHistory := Function.update s.pointHistory (s.epoch + 1) (latestPoint s) } := by
  have hinv := reachable_curveRunInvariant h
  obtain ⟨ids, hi⟩ := hinv.curve
  have hbias : biasAt s.locked ids (latestPoint s).ts ≤ lockedTotal s.locked ids :=
    biasAt_le_lockedTotal fun id _ => ((hi.wellFormed id).lockEnd).2
  have hslope : slopeAt s.locked ids (latestPoint s).ts ≤ lockedTotal s.locked ids :=
    slopeAt_le_lockedTotal _
  have htot := hinv.total ids
  have hb : 0 ≤ (latestPoint s).bias ∧ (latestPoint s).bias < 2 ^ 127 := by
    rw [hi.bias]; omega
  have hs : 0 ≤ (latestPoint s).slope ∧ (latestPoint s).slope < 2 ^ 127 := by
    rw [hi.slope]; omega
  have hblk := (reachable_historyInvariant h).1.ordered.blk s.epoch le_rfl
  show pure (Entry.checkPoint env s) = _
  rw [checkPoint_at_latest env s he hts hblk hb hs, ← Nat.cast_one, ← Nat.cast_add,
    wrapU64_of_lt he']
  rfl

theorem checkPoint_repeats_latest_oneLock :
    Reachable (CurveRun replayHorizon) week oneLock ∧ 0 < oneLock.epoch ∧
      oneLock.epoch + 1 < 2 ^ 64 ∧
      (latestPoint oneLock).ts = currentBlockTimestampSeconds (atTime aliceKey week) ∧
      step (atTime aliceKey week) oneLock .checkPoint = .ok { oneLock with
        epoch := oneLock.epoch + 1
        pointHistory :=
          Function.update oneLock.pointHistory (oneLock.epoch + 1) (latestPoint oneLock) } :=
  have he : 0 < oneLock.epoch := by decide
  have he' : oneLock.epoch + 1 < 2 ^ 64 := by decide
  have hts : (latestPoint oneLock).ts = currentBlockTimestampSeconds (atTime aliceKey week) := by
    decide
  ⟨oneLock_curveRun, he, he', hts,
    checkPoint_repeats_latest oneLock_curveRun he he' (atTime aliceKey week) hts⟩

/-! ## Per-token epochs -/

/-- **Each checkpoint of a token advances its user epoch by one.** In every run, a call raises
`USER_POINT_EPOCH[id]`, in `u64`, for each nonzero id whose lock it checkpoints (the minted id
of `create_lock`, the id of a deposit or of `increase_unlock_time`, both ids of a merge), and
leaves it for every other id. -/
theorem step_userPointEpoch {allowed : VeState → Env → Call → Prop} {t : Nat} {s s' : VeState}
    {env : Env} {c : Call} (h : Reachable allowed t s) (hs : step env s c = .ok s') (id : Nat) :
    s'.userPointEpoch id =
      if id ≠ 0 ∧ id ∈ c.lockIds s then wrapU64 (s.userPointEpoch id + 1)
      else s.userPointEpoch id := by
  have hz := (reachable_historyInvariant h).2
  obtain ⟨-, ws, hnd, hzero, hcore, -, hids⟩ := step_lockChanges hz hs
  rw [hcore.userPointEpoch, ← hids]
  by_cases hmem : id ≠ 0 ∧ id ∈ ws.map Prod.fst
  · obtain ⟨w, hw, rfl⟩ := List.mem_map.1 hmem.2
    rw [if_pos hmem, (foldl_lockChange_of_mem env hnd hw hmem.1).2]
  · rw [if_neg hmem, (foldl_lockChange_of_unwritten env fun w hw hwid => ?_).2]
    have h0 : w.1 = 0 := by
      by_contra h0
      exact hmem ⟨hwid ▸ h0, hwid ▸ List.mem_map_of_mem _ hw⟩
    rw [hzero w hw h0, ← hwid, h0, hz.locked]
    exact ⟨rfl, rfl⟩

theorem step_userPointEpoch_oneLock :
    Reachable (fun _ _ _ => True) week oneLock ∧
      step (atTime aliceKey week) oneLock lockHundred = .ok twoLocks ∧
      twoLocks.userPointEpoch 2 =
        if 2 ≠ 0 ∧ 2 ∈ lockHundred.lockIds oneLock then wrapU64 (oneLock.userPointEpoch 2 + 1)
        else oneLock.userPointEpoch 2 :=
  have hs : step (atTime aliceKey week) oneLock lockHundred = .ok twoLocks := rfl
  ⟨oneLock_reachable, hs, step_userPointEpoch oneLock_reachable hs 2⟩

/-! ## The epoch past `u64` -/

/-- A replay from a point at the call's time stops in its first week, one epoch on. -/
theorem replayFrom_of_startPoint (clamp : Int → Int) {s : VeState} {ts : Nat}
    (h : (startPoint s ts).ts = ts) (hts : ts < 2 ^ 64) :
    (replayFrom clamp s ts).epoch = s.epoch + 1 ∧ (replayFrom clamp s ts).lastPoint.ts = ts := by
  have hnext : nextTI ts ⟨startPoint s ts, (startPoint s ts).ts,
      (startPoint s ts).ts / week * week, s.epoch, s.pointHistory⟩ = ts :=
    have hlt : ts < (startPoint s ts).ts / week * week + week :=
      calc ts = (startPoint s ts).ts := h.symm
        _ < _ := Nat.lt_div_mul_add (show 0 < week by decide)
    if_pos hlt
  rw [replayFrom, replay_succ, if_pos hnext]
  exact ⟨rfl, by simp only [replayPoint_eq_nextTI, hnext, wrapU64_of_lt hts]⟩

/-- The contract installed at `env`'s time, then `k` calls of `check_point` in the same block. -/
def checkPointsAt (env : Env) : Nat → VeState
  | 0 => genesis env
  | k + 1 => afterCall env (checkPointsAt env k) .checkPoint

theorem checkPointsAt_reachable (env : Env) (k : Nat) :
    Reachable (fun _ _ _ => True) (currentBlockTimestampSeconds env) (checkPointsAt env k) := by
  induction k with
  | zero => exact .genesis env
  | succ k ih => exact .step env .checkPoint ih le_rfl trivial rfl

/-- Each `check_point` in the block raises `EPOCH` by one and stores a point at the block's
time, while `EPOCH` stays below `2^64`. -/
theorem checkPointsAt_epoch (env : Env) {k : Nat} (hk : k < 2 ^ 64) :
    (checkPointsAt env k).epoch = k ∧
      (startPoint (checkPointsAt env k) (currentBlockTimestampSeconds env)).ts =
        currentBlockTimestampSeconds env := by
  induction k with
  | zero => exact ⟨rfl, rfl⟩
  | succ k ih =>
    obtain ⟨hk', hs⟩ := ih (by omega)
    obtain ⟨he, hl⟩ := replayFrom_of_startPoint clampNonNegative hs
      (by have := currentBlockTimestampSeconds_lt env; omega)
    have hcp : checkPointsAt env (k + 1) =
        checkPoint env (checkPointsAt env k) 0 LockedBalance.default LockedBalance.default := rfl
    have hepoch : (checkPointsAt env (k + 1)).epoch = k + 1 := by
      rw [hcp, checkPoint, checkPointWith_epoch, he, hk', wrapU64_natCast, Nat.mod_eq_of_lt hk]
    have hE : (replayFrom clampNonNegative (checkPointsAt env k)
        (currentBlockTimestampSeconds env)).epoch = k + 1 := by rw [he, hk']
    refine ⟨hepoch, ?_⟩
    rw [startPoint, hepoch, if_pos (Nat.succ_pos k), hcp, checkPoint, checkPointWith_pointHistory,
      if_pos rfl, ← hE, Function.update_same, hl]

/-- **A checkpoint can lower `EPOCH`.** After `2^64 - 1` calls of `check_point` in the block the
contract was installed in, `EPOCH` is `2^64 - 1`; the next `_check_point` stores `0`. -/
theorem checkPoint_wraps_epoch :
    Reachable (fun _ _ _ => True) week (checkPointsAt (atTime aliceKey week) (2 ^ 64 - 1)) ∧
      (checkPointsAt (atTime aliceKey week) (2 ^ 64 - 1)).epoch = 2 ^ 64 - 1 ∧
      (checkPoint (atTime aliceKey week) (checkPointsAt (atTime aliceKey week) (2 ^ 64 - 1)) 0
        LockedBalance.default LockedBalance.default).epoch = 0 := by
  obtain ⟨hk, hs⟩ := checkPointsAt_epoch (atTime aliceKey week) (k := 2 ^ 64 - 1) (by norm_num)
  obtain ⟨he, -⟩ := replayFrom_of_startPoint clampNonNegative hs (by decide)
  refine ⟨checkPointsAt_reachable (atTime aliceKey week) (2 ^ 64 - 1), hk, ?_⟩
  rw [checkPoint, checkPointWith_epoch, he, hk, wrapU64_natCast]
  norm_num

end VotingEscrow
