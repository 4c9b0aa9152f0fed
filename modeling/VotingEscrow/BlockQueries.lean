import VotingEscrow.History
import VotingEscrow.Search

/-!
# The block-indexed supply

`current_block_number()` is the constant `100`, so every global point up to `EPOCH` carries
block 100 (`HistoryOrdered.blk`), and epoch 0, which no checkpoint writes, keeps the zero point
of the installed contract. `_find_block_epoch(block, EPOCH)` then finds epoch 0 for every block
below 100 and `EPOCH` for block 100, and `total_supply_at` has no block interval to interpolate
in: in every run `total_supply_at(block)` is `0` below block 100 and, at block 100,
`total_supply_at_t` at the time of the latest global point, whatever the time of the query
(`totalSupplyAt_frozen`). So at the current block `total_supply_at` and `_balance_of_at_nft`
read the time of the latest global point where `ve_total_supply` and `balance_of_nft` read the
call's time.
-/

namespace VotingEscrow

/-! ## Epoch 0 is never written -/

theorem checkPointWith_pointHistory_zero (clamp : Int → Int) (env : Env) (s : VeState)
    (tokenId : Nat) (o n : LockedBalance) :
    (checkPointWith clamp env s tokenId o n).pointHistory 0 = s.pointHistory 0 := by
  have hpos : s.epoch < (replayFrom clamp s (currentBlockTimestampSeconds env)).epoch := by
    rw [replayFrom]; exact (replay_epoch 254 ⟨_, _, _, _, _⟩).1
  have hkeep : (replayFrom clamp s (currentBlockTimestampSeconds env)).history 0 =
      s.pointHistory 0 := replay_history_of_le 255 _ (Nat.zero_le _)
  have hne : (0 : Nat) ≠ (replayFrom clamp s (currentBlockTimestampSeconds env)).epoch := by
    omega
  unfold checkPointWith
  split <;> simp only [recordUserPoint, Function.update_noteq hne, hkeep]

theorem lockChanges_pointHistory_zero (env : Env) (ws : List (Nat × LockedBalance))
    (s : VeState) : (ws.foldl (lockChange env) s).pointHistory 0 = s.pointHistory 0 := by
  induction ws generalizing s with
  | nil => rfl
  | cons w ws ih =>
    rw [List.foldl_cons, ih]
    exact checkPointWith_pointHistory_zero ..

/-- In every run, epoch 0 holds the zero point the contract was installed with. -/
theorem reachable_pointHistory_zero {allowed : VeState → Env → Call → Prop} {t : Nat}
    {s : VeState} (h : Reachable allowed t s) :
    ∃ t₀ < 2 ^ 55, s.pointHistory 0 = ⟨0, 0, t₀, currentBlockNumber⟩ := by
  induction h with
  | genesis env => exact ⟨_, currentBlockTimestampSeconds_lt env, rfl⟩
  | step env c hprev _ _ hstep ih =>
    obtain ⟨-, ws, -, -, hcore, -⟩ := step_lockChanges (reachable_historyInvariant hprev).2 hstep
    rw [hcore.pointHistory, lockChanges_pointHistory_zero]
    exact ih

/-! ## The block searches over a flat history -/

section Flat

variable {s : VeState}

theorem nondecreasingTo_of_flat
    (hblk : ∀ e ≤ s.epoch, (s.pointHistory e).blk = currentBlockNumber) :
    NondecreasingTo (fun e => (s.pointHistory e).blk) s.epoch :=
  fun j hj i hi => by simp only [hblk j hj, hblk i (hi.trans hj), le_rfl]

/-- Below the current block every point's block is too late: the search finds epoch 0. -/
theorem findBlockEpoch_of_lt (hblk : ∀ e ≤ s.epoch, (s.pointHistory e).blk = currentBlockNumber)
    (he : s.epoch < 2 ^ 63) {block : Nat} (hb : block < currentBlockNumber) :
    findBlockEpoch s block s.epoch = 0 :=
  (blockSearch_spec (nondecreasingTo_of_flat hblk) he).1.2 fun e he' => by
    simp only [hblk e he', hb]

/-- At the current block every point qualifies: the search finds `EPOCH`. -/
theorem findBlockEpoch_current (hblk : ∀ e ≤ s.epoch, (s.pointHistory e).blk = currentBlockNumber)
    (he : s.epoch < 2 ^ 63) : findBlockEpoch s currentBlockNumber s.epoch = s.epoch := by
  obtain ⟨hle, -, hlast⟩ := (blockSearch_spec (nondecreasingTo_of_flat hblk) he).1.1
    ⟨0, Nat.zero_le _, (hblk 0 (Nat.zero_le _)).le⟩
  by_contra hne
  exact absurd (hlast s.epoch (by unfold findBlockEpoch at hne; omega) le_rfl)
    (by simp only [hblk s.epoch le_rfl, lt_irrefl, not_false_eq_true])

/-- With every point up to `EPOCH` at the current block, `total_supply_at` has nothing to
interpolate: it is `_supply_at` of the point found, at that point's own time. -/
theorem totalSupplyAt_of_flat (env : Env)
    (hblk : ∀ e ≤ s.epoch, (s.pointHistory e).blk = currentBlockNumber)
    (hts : ∀ e ≤ s.epoch, (s.pointHistory e).ts < 2 ^ 64) {block E : Nat}
    (hb : block ≤ currentBlockNumber) (hE : findBlockEpoch s block s.epoch = E)
    (hEle : E ≤ s.epoch) :
    totalSupplyAt env s block = .ok (supplyAt s (s.pointHistory E) (s.pointHistory E).ts) := by
  have hts' := wrapU64_of_lt (hts E hEle)
  dsimp only [totalSupplyAt]
  rw [decide_eq_true hb, require_true, ok_bind, hE]
  split_ifs with hlt h₁ h₂
  · exact absurd (by rw [hblk E hEle, hblk (E + 1) hlt]) h₁
  · rw [Nat.cast_zero, Int.add_zero, hts']; rfl
  · exact absurd (hblk E hEle) h₂
  · rw [Nat.cast_zero, Int.add_zero, hts']; rfl

end Flat

/-- **`total_supply_at` is frozen at the latest checkpoint.** In every run whose `EPOCH` stays
below `2^63`, and at any time of the query, `total_supply_at(block)` is `0` for every block before
`current_block_number()`, reverts with `InvalidBlock` after it, and at it is
`total_supply_at_t` at the time of the latest global point: the supply as last checkpointed, not
decayed to the time of the query. -/
theorem totalSupplyAt_frozen {allowed : VeState → Env → Call → Prop} {t : Nat} {s : VeState}
    (h : Reachable allowed t s) (he : s.epoch < 2 ^ 63) (env : Env) (block : Nat) :
    totalSupplyAt env s block =
      if block < currentBlockNumber then .ok 0
      else if block = currentBlockNumber then .ok (totalSupplyAtT s (latestPoint s).ts)
      else .error .invalidBlock := by
  have hi := (reachable_historyInvariant h).1
  have hblk := hi.ordered.blk
  have hts : ∀ e ≤ s.epoch, (s.pointHistory e).ts < 2 ^ 64 := fun e he' => by
    have := hi.ordered.ts_le e s.epoch he' le_rfl
    have := hi.latest
    have := h.time_lt
    simp only [latestPoint] at *
    omega
  obtain ⟨t₀, ht₀, h0⟩ := reachable_pointHistory_zero h
  rcases lt_trichotomy block currentBlockNumber with hb | rfl | hb
  · rw [if_pos hb, totalSupplyAt_of_flat env hblk hts hb.le (findBlockEpoch_of_lt hblk he hb)
      (Nat.zero_le _), h0, supplyAt_first_week s _ (by simp only; omega)
      (by have := Nat.lt_div_mul_add (a := t₀) (show 0 < week by decide); simp only; omega)]
    simp [clampNonNegative_of_nonneg (le_refl (0 : Int))]
  · rw [if_neg (lt_irrefl _), if_pos rfl,
      totalSupplyAt_of_flat env hblk hts le_rfl (findBlockEpoch_current hblk he) le_rfl]
    rfl
  · rw [if_neg (by omega), if_neg (by omega)]
    simp only [totalSupplyAt, decide_eq_false (Nat.not_le.2 hb), require_false]
    rfl

theorem totalSupplyAt_frozen_oneLock :
    Reachable (fun _ _ _ => True) week oneLock ∧ oneLock.epoch < 2 ^ 63 ∧
      totalSupplyAt (atTime aliceKey (3 * week)) oneLock currentBlockNumber =
        if currentBlockNumber < currentBlockNumber then .ok 0
        else if currentBlockNumber = currentBlockNumber then
          .ok (totalSupplyAtT oneLock (latestPoint oneLock).ts)
        else .error .invalidBlock :=
  ⟨oneLock_reachable, by decide,
    totalSupplyAt_frozen oneLock_reachable (by decide) (atTime aliceKey (3 * week)) _⟩

/-- **The block-indexed queries lag at the current block.** One second after `oneLock`'s
checkpoint, `total_supply_at(current_block_number())` and
`balance_of_at_nft(1, current_block_number())` still give the `2 * WEEK` of the checkpoint's time,
while `ve_total_supply()` and `balance_of_nft(1)` give the `2 * WEEK - 1` left at the call's
time. -/
theorem blockQueries_lag_at_current_block :
    Reachable (fun _ _ _ => True) week oneLock ∧
      totalSupplyAt (atTime aliceKey (week + 1)) oneLock currentBlockNumber = .ok (2 * week) ∧
      totalSupplyAtT oneLock (currentBlockTimestampSeconds (atTime aliceKey (week + 1))) =
        2 * week - 1 ∧
      balanceOfAtNft (atTime aliceKey (week + 1)) oneLock 1 currentBlockNumber = .ok (2 * week) ∧
      balanceOfNft oneLock 1 (currentBlockTimestampSeconds (atTime aliceKey (week + 1))) =
        2 * week - 1 :=
  ⟨oneLock_reachable, rfl, by decide, rfl, by decide⟩

end VotingEscrow
