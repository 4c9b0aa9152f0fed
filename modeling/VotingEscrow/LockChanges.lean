import VotingEscrow.Locks

/-!
# Calls as checkpointed lock changes

Every call changes the locks, the global curve and the user histories only through
`_check_point`, right after storing the lock it checkpoints: `lockChange` is that pair. A call
is zero, one or two lock changes (`step_lockChanges`): a deposit is one, a merge two (its `from`
to the empty lock, then its `to`), the token-0 `check_point` is the empty lock change of id 0,
and the other calls are none. The registry and the delegate checkpoints a call also writes are
outside this part of the state (`SameCore`).
-/

namespace VotingEscrow

/-- `s'` and `s` agree on the locks and on everything `_check_point` reads or writes. -/
structure SameCore (s s' : VeState) : Prop where
  locked : s'.locked = s.locked
  epoch : s'.epoch = s.epoch
  pointHistory : s'.pointHistory = s.pointHistory
  slopeChanges : s'.slopeChanges = s.slopeChanges
  userPointEpoch : s'.userPointEpoch = s.userPointEpoch
  userPointHistory : s'.userPointHistory = s.userPointHistory

namespace SameCore

theorem refl (s : VeState) : SameCore s s := ⟨rfl, rfl, rfl, rfl, rfl, rfl⟩

theorem symm {s s' : VeState} (h : SameCore s s') : SameCore s' s :=
  ⟨h.1.symm, h.2.symm, h.3.symm, h.4.symm, h.5.symm, h.6.symm⟩

theorem trans {s₁ s₂ s₃ : VeState} (h₁ : SameCore s₁ s₂) (h₂ : SameCore s₂ s₃) :
    SameCore s₁ s₃ :=
  ⟨h₂.1.trans h₁.1, h₂.2.trans h₁.2, h₂.3.trans h₁.3, h₂.4.trans h₁.4, h₂.5.trans h₁.5,
    h₂.6.trans h₁.6⟩

/-- `_check_point` reads only the core. -/
theorem checkPointWith {s s' : VeState} (h : SameCore s s') (clamp : Int → Int) (env : Env)
    (tokenId : Nat) (o n : LockedBalance) :
    SameCore (checkPointWith clamp env s tokenId o n)
      (checkPointWith clamp env s' tokenId o n) := by
  obtain ⟨hl, he, hp, hs, hu, hh⟩ := h
  cases s; cases s'
  simp only at hl he hp hs hu hh
  subst hl he hp hs hu hh
  refine ⟨?_, ?_, ?_, ?_, ?_, ?_⟩ <;> unfold VotingEscrow.checkPointWith recordUserPoint <;>
    split <;> rfl

/-- The reentrancy flag is outside the core. -/
theorem isLocked (s : VeState) (b : Bool) : SameCore s { s with isLocked := b } :=
  ⟨rfl, rfl, rfl, rfl, rfl, rfl⟩

end SameCore

/-- A lock change: `id`'s lock is set to `new` and checkpointed from its previous value. -/
def lockChange (env : Env) (s : VeState) (w : Nat × LockedBalance) : VeState :=
  checkPoint env { s with locked := Function.update s.locked w.1 w.2 } w.1 (s.locked w.1) w.2

theorem SameCore.lockChange {s s' : VeState} (h : SameCore s s') (env : Env)
    (w : Nat × LockedBalance) : SameCore (lockChange env s w) (lockChange env s' w) := by
  unfold VotingEscrow.lockChange checkPoint
  rw [h.locked]
  refine SameCore.checkPointWith ?_ _ _ _ _ _
  exact ⟨rfl, h.epoch, h.pointHistory, h.slopeChanges, h.userPointEpoch, h.userPointHistory⟩

theorem SameCore.lockChanges {s s' : VeState} (h : SameCore s s') (env : Env)
    (ws : List (Nat × LockedBalance)) :
    SameCore (ws.foldl (VotingEscrow.lockChange env) s)
      (ws.foldl (VotingEscrow.lockChange env) s') := by
  induction ws generalizing s s' with
  | nil => exact h
  | cons w ws ih => exact ih (h.lockChange env w)

section Fields

variable {env : Env} {s : VeState} {w : Nat × LockedBalance}

@[simp] theorem lockChange_locked :
    (lockChange env s w).locked = Function.update s.locked w.1 w.2 := by
  simp [lockChange, checkPoint]

theorem lockChange_userPointEpoch : (lockChange env s w).userPointEpoch =
    if w.1 = 0 then s.userPointEpoch
    else Function.update s.userPointEpoch w.1 (wrapU64 (s.userPointEpoch w.1 + 1)) := by
  unfold lockChange checkPoint
  split
  · simp [checkPointWith, *]
  · rw [checkPointWith_userPointEpoch ‹_›]

theorem lockChange_userPointHistory : (lockChange env s w).userPointHistory =
    if w.1 = 0 then s.userPointHistory
    else Function.update s.userPointHistory
      (userPointKey w.1 (wrapU64 (s.userPointEpoch w.1 + 1)))
      { lockPoint w.2 (currentBlockTimestampSeconds env) with
        ts := currentBlockTimestampSeconds env, blk := currentBlockNumber } := by
  unfold lockChange checkPoint
  split
  · simp [checkPointWith, *]
  · rw [checkPointWith_userPointHistory ‹_›]

end Fields

/-- `_deposit_for` on a state with the core of `s` is the lock change it stores. -/
theorem depositFor_sameCore {env : Env} {s s₀ : VeState} (h : SameCore s s₀)
    {tokenId : Nat} {lb : LockedBalance} (hlb : s.locked tokenId = lb) (value unlock : Nat) :
    SameCore (lockChange env s (tokenId, depositedLock lb value unlock))
      (depositFor env s₀ tokenId value unlock lb) := by
  unfold depositFor lockChange checkPoint
  rw [hlb]
  refine SameCore.checkPointWith ?_ _ _ _ _ _
  exact ⟨by simp [h.locked], h.epoch, h.pointHistory, h.slopeChanges, h.userPointEpoch,
    h.userPointHistory⟩

/-- A created lock is the lock change of the minted id `total_supply() + 1`: the value
deposited into its lock, until the rounded unlock time. -/
theorem createLockFor_sameCore {env : Env} {s s' : VeState} {amount lockDuration : Nat}
    {recipient : Key} (h : Entry.createLockFor env s amount lockDuration recipient = .ok s') :
    SameCore (lockChange env s (s.nft.totalSupply + 1,
      depositedLock (s.locked (s.nft.totalSupply + 1)) amount
        (roundedUnlockTime (currentBlockTimestampSeconds env) lockDuration))) s' := by
  obtain ⟨-, r, hr, rfl⟩ := Entry.createLockFor_spec h
  obtain ⟨-, -, -, nft, s₁, -, hmv, rfl⟩ := createLock_spec hr
  obtain ⟨_, _, rfl⟩ := moveTokenDelegates_onlyCheckpoints hmv
  exact (depositFor_sameCore ⟨rfl, rfl, rfl, rfl, rfl, rfl⟩ rfl _ _).trans
    ⟨rfl, rfl, rfl, rfl, rfl, rfl⟩

/-- Id 0 has no owner and no lock: `_create_lock` mints from 1. -/
structure ZeroFree (s : VeState) : Prop where
  owner : s.nft.owners 0 = none
  locked : s.locked 0 = LockedBalance.default

theorem genesis_zeroFree (env : Env) : ZeroFree (genesis env) := ⟨rfl, rfl⟩

theorem ZeroFree.ne_zero_of_amount {s : VeState} (hz : ZeroFree s) {id : Nat}
    (h : 0 < (s.locked id).amount) : id ≠ 0 := by
  rintro rfl; simp [hz.locked] at h

theorem ZeroFree.ne_zero_of_owner {s : VeState} (hz : ZeroFree s) {id : Nat} {a : Key}
    (h : s.nft.isApprovedOrOwner id a = true) : id ≠ 0 := by
  rintro rfl; simp [Registry.isApprovedOrOwner, hz.owner] at h

/-- A deposit into a live lock, stored under a nonzero id, keeps id 0 free. -/
theorem ZeroFree.update {s s' : VeState} (hz : ZeroFree s) {id : Nat} (hid : id ≠ 0)
    {l : LockedBalance} (hl : s'.locked = Function.update s.locked id l)
    (ho : s'.nft.owners 0 = s.nft.owners 0) : ZeroFree s' :=
  ⟨ho.trans hz.owner, by rw [hl, Function.update_noteq (Ne.symm hid), hz.locked]⟩

/-- The ids whose locks a call checkpoints, in order: the minted id of `create_lock`, the id of
a deposit or of `increase_unlock_time`, a merge's `from` then its `to`, and id 0 for the
token-0 `check_point`. -/
def Call.lockIds (s : VeState) : Call → List Nat
  | .createLock _ _ | .createLockFor _ _ _ => [s.nft.totalSupply + 1]
  | .depositFor id _ | .increaseAmount id _ | .increaseAmountFor id _ => [id]
  | .increaseUnlockTime id _ => [id]
  | .merge fromId toId => [fromId, toId]
  | .checkPoint => [0]
  | _ => []

/-- `merge` is two lock changes: `from`'s lock emptied, then `to`'s deposited into. -/
theorem merge_lockChanges {env : Env} {s s' : VeState} {fromId toId : Nat} (hz : ZeroFree s)
    (h : Entry.merge env s fromId toId = .ok s') :
    ZeroFree s' ∧ ∃ ws : List (Nat × LockedBalance), (ws.map Prod.fst).Nodup ∧
      (∀ w ∈ ws, w.1 = 0 → w.2 = LockedBalance.default) ∧
      SameCore (ws.foldl (lockChange env) s) s' ∧ ws.length ≤ 2 ∧
      ws.map Prod.fst = [fromId, toId] := by
  obtain ⟨hne, hfrom, hto, s₁, hb, rfl⟩ := Entry.merge_spec h
  obtain ⟨nft, _, _, hburn, hs₁⟩ := burnNft_eq hb
  have hf0 := hz.ne_zero_of_owner hfrom
  have ht0 := hz.ne_zero_of_owner hto
  have hcore : SameCore (lockChange env s (fromId, LockedBalance.default)) s₁ := by
    rw [hs₁]; exact ⟨rfl, rfl, rfl, rfl, rfl, rfl⟩
  have hlb : (lockChange env s (fromId, LockedBalance.default)).locked toId = s.locked toId := by
    simp [lockChange, checkPoint, Function.update_noteq (Ne.symm hne)]
  refine ⟨⟨?_, ?_⟩, [(fromId, LockedBalance.default), (toId, _)], by simp [hne],
    by simp [hf0, ht0], depositFor_sameCore hcore hlb _ _, by simp, rfl⟩
  · simpa [hs₁, lockChange, checkPoint, Registry.burn_owners hburn,
      Function.update_noteq hf0.symm] using hz.owner
  · simp [hs₁, lockChange, checkPoint, Function.update_noteq hf0.symm,
      Function.update_noteq ht0.symm, hz.locked]

/-- **Every call is a list of lock changes of distinct ids.** Only the token-0 `check_point`
changes id 0, to its empty lock. -/
theorem step_lockChanges {env : Env} {s s' : VeState} {c : Call} (hz : ZeroFree s)
    (h : step env s c = .ok s') :
    ZeroFree s' ∧ ∃ ws : List (Nat × LockedBalance), (ws.map Prod.fst).Nodup ∧
      (∀ w ∈ ws, w.1 = 0 → w.2 = LockedBalance.default) ∧
      SameCore (ws.foldl (lockChange env) s) s' ∧ ws.length ≤ 2 ∧
      ws.map Prod.fst = c.lockIds s := by
  have none (hs : SameCore s s') (ho : s'.nft.owners 0 = s.nft.owners 0) (hc : c.lockIds s = []) :
      ZeroFree s' ∧ ∃ ws : List (Nat × LockedBalance), (ws.map Prod.fst).Nodup ∧
        (∀ w ∈ ws, w.1 = 0 → w.2 = LockedBalance.default) ∧
        SameCore (ws.foldl (lockChange env) s) s' ∧ ws.length ≤ 2 ∧
        ws.map Prod.fst = c.lockIds s :=
    ⟨⟨ho.trans hz.owner, hs.locked ▸ hz.locked⟩, [], List.nodup_nil, by simp, hs, by simp, hc.symm⟩
  have one {id : Nat} {new : LockedBalance} (hid : id ≠ 0)
      (hs : SameCore (lockChange env s (id, new)) s') (ho : s'.nft.owners 0 = s.nft.owners 0)
      (hc : c.lockIds s = [id]) :
      ZeroFree s' ∧ ∃ ws : List (Nat × LockedBalance), (ws.map Prod.fst).Nodup ∧
        (∀ w ∈ ws, w.1 = 0 → w.2 = LockedBalance.default) ∧
        SameCore (ws.foldl (lockChange env) s) s' ∧ ws.length ≤ 2 ∧
        ws.map Prod.fst = c.lockIds s := by
    refine ⟨hz.update hid (l := new) ?_ ho, [(id, new)], by simp, by simp [hid], hs, by simp,
      hc.symm⟩
    rw [hs.locked]; simp [lockChange, checkPoint]
  cases c with
  | createLock amount d | createLockFor amount d _ =>
    refine one (Nat.succ_ne_zero _) (createLockFor_sameCore h) ?_ rfl
    obtain ⟨-, r, hr, rfl⟩ := Entry.createLockFor_spec h
    obtain ⟨-, -, -, nft, s₁, hm, hmv, rfl⟩ := createLock_spec hr
    obtain ⟨_, _, rfl⟩ := moveTokenDelegates_onlyCheckpoints hmv
    simp [(Registry.mint_spec hm).2, Function.update_noteq (Nat.succ_ne_zero _).symm]
  | depositFor id amount =>
    obtain ⟨-, hamount, -, rfl⟩ := Entry.depositFor_spec h
    exact one (hz.ne_zero_of_amount hamount) (depositFor_sameCore (.refl s) rfl _ _) (by simp) rfl
  | increaseAmount id amount =>
    obtain ⟨-, -, -, hamount, -, rfl⟩ := Entry.increaseAmount_spec h
    exact one (hz.ne_zero_of_amount hamount)
      ((depositFor_sameCore (.isLocked s true) rfl _ _).trans (.isLocked _ false)) (by simp) rfl
  | increaseAmountFor id amount =>
    obtain ⟨-, -, hamount, -, rfl⟩ := Entry.increaseAmountFor_spec h
    exact one (hz.ne_zero_of_amount hamount) (depositFor_sameCore (.refl s) rfl _ _) (by simp) rfl
  | increaseUnlockTime id d =>
    obtain ⟨-, -, -, hamount, -, -, rfl⟩ := Entry.increaseUnlockTime_spec h
    exact one (hz.ne_zero_of_amount hamount)
      ((depositFor_sameCore (.isLocked s true) rfl _ _).trans (.isLocked _ false)) (by simp) rfl
  | merge fromId toId => exact merge_lockChanges hz h
  | checkPoint =>
    cases h
    refine ⟨⟨by simp [Entry.checkPoint, checkPoint, hz.owner],
      by simp [Entry.checkPoint, checkPoint, hz.locked]⟩, [(0, LockedBalance.default)], by simp,
      by simp, ?_, by simp, rfl⟩
    have hs : { s with locked := Function.update s.locked 0 LockedBalance.default } = s := by
      rw [← hz.locked, Function.update_eq_self]
    show SameCore (lockChange env s (0, LockedBalance.default)) (Entry.checkPoint env s)
    rw [lockChange]; dsimp only; rw [hs, hz.locked]
    exact .refl _
  | delegate d =>
    obtain ⟨_, _, rfl⟩ := moveAllDelegates_onlyCheckpoints (Entry.delegate_spec h)
    exact none ⟨rfl, rfl, rfl, rfl, rfl, rfl⟩ rfl rfl
  | voting id | abstain id =>
    obtain ⟨-, rfl⟩ := Entry.setVoted_spec h; exact none ⟨rfl, rfl, rfl, rfl, rfl, rfl⟩ rfl rfl
  | attach id =>
    obtain ⟨-, rfl⟩ := Entry.attach_spec h; exact none ⟨rfl, rfl, rfl, rfl, rfl, rfl⟩ rfl rfl
  | detach id =>
    obtain ⟨-, rfl⟩ := Entry.detach_spec h; exact none ⟨rfl, rfl, rfl, rfl, rfl, rfl⟩ rfl rfl
  | setVoter v =>
    obtain ⟨-, rfl⟩ := Entry.setVoter_spec h; exact none ⟨rfl, rfl, rfl, rfl, rfl, rfl⟩ rfl rfl
  | setTeam v =>
    obtain ⟨-, rfl⟩ := Entry.setTeam_spec h; exact none ⟨rfl, rfl, rfl, rfl, rfl, rfl⟩ rfl rfl
  | setArtProxy v =>
    obtain ⟨-, rfl⟩ := Entry.setArtProxy_spec h; exact none ⟨rfl, rfl, rfl, rfl, rfl, rfl⟩ rfl rfl

end VotingEscrow
