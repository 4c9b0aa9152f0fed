import VotingEscrow.Votes
import Mathlib.Algebra.BigOperators.Finprod

/-!
# Locks over runs

`merge` resets `from`, checkpoints it to zero, burns it, and deposits its amount into `to`
through `_deposit_for`, which adds every deposited value to `VE_SUPPLY`: the amount already in
custody is counted a second time (`merge_veSupply`). The burn also lowers the registry's
`total_supply()`, from which `_create_lock` takes the next id, so after a merge the next id can
be a live one (`merge_totalSupply`), and the creation then reverts.
-/

namespace VotingEscrow

/-! ## What a burn and a merge change -/

section Merge

variable {env : Env} {s s' : VeState}

theorem Registry.burn_totalSupply {r r' : Registry} {owner : Key} {tokenId : Nat}
    (h : r.burn owner tokenId = .ok r') : r'.totalSupply = r.totalSupply - 1 := by
  unfold Registry.burn at h
  split at h <;> cases h
  rfl

theorem Registry.burn_owners {r r' : Registry} {owner : Key} {tokenId : Nat}
    (h : r.burn owner tokenId = .ok r') : r'.owners = Function.update r.owners tokenId none := by
  unfold Registry.burn at h
  split at h <;> cases h
  rfl

/-- A burn changes the registry and the delegate checkpoints only. -/
theorem burnNft_eq {tokenId : Nat} (h : burnNft env s tokenId = .ok s') :
    ∃ nft cps nums, s.nft.burn ((s.nft.ownerOf tokenId).getD nullKey) tokenId = .ok nft ∧
      s' = { s with nft, checkpoints := cps, numCheckpoints := nums } := by
  obtain ⟨-, owner, nft, s₁, hown, hburn, hmv, hmv'⟩ := burnNft_spec h
  obtain ⟨_, _, rfl⟩ := moveTokenDelegates_onlyCheckpoints hmv
  obtain ⟨cps, nums, rfl⟩ := moveTokenDelegates_onlyCheckpoints hmv'
  exact ⟨nft, cps, nums, by rw [hown]; exact hburn, rfl⟩

/-- `merge` adds `from`'s amount, already counted when it was deposited, to `VE_SUPPLY`. -/
theorem merge_veSupply {fromId toId : Nat} (h : Entry.merge env s fromId toId = .ok s') :
    s'.veSupply = wrapU128 (s.veSupply + (s.locked fromId).amount) := by
  obtain ⟨-, -, -, s₁, hb, rfl⟩ := Entry.merge_spec h
  obtain ⟨_, _, _, -, rfl⟩ := burnNft_eq hb
  simp [checkPoint]

/-- `merge` moves `from`'s amount into `to`: `from` is reset, `to` gets the sum and the later
unlock time. -/
theorem merge_locked {fromId toId : Nat} (h : Entry.merge env s fromId toId = .ok s') :
    s'.locked = Function.update (Function.update s.locked fromId LockedBalance.default) toId
      (depositedLock (s.locked toId) (s.locked fromId).amount
        (if (s.locked toId).lockEnd ≤ (s.locked fromId).lockEnd then (s.locked fromId).lockEnd
          else (s.locked toId).lockEnd)) := by
  obtain ⟨-, -, -, s₁, hb, rfl⟩ := Entry.merge_spec h
  obtain ⟨_, _, _, -, rfl⟩ := burnNft_eq hb
  simp [checkPoint]

/-- `merge` burns `from`, so `total_supply()` drops by one while `to` stays live. -/
theorem merge_totalSupply {fromId toId : Nat} (h : Entry.merge env s fromId toId = .ok s') :
    s'.nft.totalSupply = s.nft.totalSupply - 1 ∧ s'.nft.ownerOf toId = s.nft.ownerOf toId := by
  obtain ⟨hne, -, -, s₁, hb, rfl⟩ := Entry.merge_spec h
  obtain ⟨nft, _, _, hburn, rfl⟩ := burnNft_eq hb
  refine ⟨by simpa [checkPoint] using Registry.burn_totalSupply hburn, ?_⟩
  simp only [depositFor_nft, Registry.ownerOf, Registry.burn_owners hburn]
  simp [checkPoint, Function.update_noteq (Ne.symm hne)]

end Merge

/-- `_create_lock` never succeeds when the id `total_supply() + 1` is live. -/
theorem createLock_ne_ok_of_owned {env : Env} {s : VeState} {value lockDuration : Nat}
    {recipient : Key} (hown : (s.nft.ownerOf (s.nft.totalSupply + 1)).isSome)
    (r : VeState × Nat) : createLock env s value lockDuration recipient ≠ .ok r := by
  intro h
  obtain ⟨-, -, -, nft, -, hm, -⟩ := createLock_spec h
  simp only [Registry.ownerOf] at hown
  simp [Registry.mint, hown] at hm

/-! ## Two locks, merged -/

/-- `create_lock` of `100` for two weeks. -/
def lockHundred : Call := .createLock ⟨100, by decide⟩ ⟨2 * week, by decide⟩

/-- `oneLock`, then `lockHundred` by `aliceKey` in the same block. -/
def twoLocks : VeState := afterCall (atTime aliceKey week) oneLock lockHundred

/-- `twoLocks`, then `aliceKey` merges id 1 into id 2. -/
def merged : VeState := afterCall (atTime aliceKey week) twoLocks (.merge 1 2)

theorem merged_reachable : Reachable (fun _ _ _ => True) week merged :=
  .step (atTime aliceKey week) (.merge 1 2)
    (.step (atTime aliceKey week) lockHundred oneLock_reachable le_rfl trivial rfl)
    le_rfl trivial rfl

theorem merged_locked : merged.locked =
    Function.update (Function.update (Function.update (Function.update
      (fun _ => LockedBalance.default) 1 ⟨maxtime, 3 * week⟩) 2 ⟨100, 3 * week⟩) 1
      LockedBalance.default) 2 ⟨maxtime + 100, 3 * week⟩ := rfl

/-- **`VE_SUPPLY` counts a merged amount twice.** After `merged`, `VE_SUPPLY` is
`2 * MAXTIME + 100` while the locks hold `MAXTIME + 100` in all. -/
theorem merge_double_counts_veSupply :
    Reachable (fun _ _ _ => True) week merged ∧ merged.veSupply = 2 * maxtime + 100 ∧
      ∑ᶠ id, (merged.locked id).amount = maxtime + 100 := by
  refine ⟨merged_reachable, by decide, ?_⟩
  rw [finsum_eq_single _ 2 fun id h => by
    by_cases h1 : id = 1 <;> simp [merged_locked, Function.update_apply, h, h1]]
  simp [merged_locked]

/-- **A merge makes the next id a live one.** After `merged`, `total_supply()` is `1`, so the
next `create_lock` mints id `2`, which `aliceKey` holds: the call reverts. -/
theorem createLock_reuses_live_id :
    Reachable (fun _ _ _ => True) week merged ∧ merged.nft.totalSupply + 1 = 2 ∧
      merged.nft.ownerOf 2 = some aliceKey ∧
      step (atTime aliceKey week) merged lockMaxtime = .error .tokenIdAlreadyExists :=
  ⟨merged_reachable, by decide, by decide, rfl⟩

/-! ## The lock-state invariant

A lock is empty or holds an amount and a week-aligned end at most `MAXTIME` past the call that
set it, and only a merge ever lowers one, by resetting `from`. This holds in the runs where no
deposit carries a lock's amount past `u128`: `_deposit_for` adds in `u128`, and a wrapped sum
would leave a lock with an end and a zero amount. -/

/-- The lock a call deposits into and the value it adds, read in the state it starts from. -/
def Call.deposit (s : VeState) : Call → Option (Nat × Nat)
  | .createLock amount _ => some (s.nft.totalSupply + 1, amount)
  | .createLockFor amount _ _ => some (s.nft.totalSupply + 1, amount)
  | .depositFor id amount => some (id, amount)
  | .increaseAmount id amount => some (id, amount)
  | .increaseAmountFor id amount => some (id, amount)
  | .merge fromId toId => some (toId, (s.locked fromId).amount)
  | _ => none

/-- The runs in which no deposit carries a lock's amount to `2^128`. -/
def NoAmountWrap (s : VeState) (_ : Env) (c : Call) : Prop :=
  ∀ id value, c.deposit s = some (id, value) → (s.locked id).amount + value < 2 ^ 128

/-- A lock is empty, or holds an amount and a week-aligned end at most `MAXTIME` after `t`. -/
def LockWellFormed (t : Nat) (l : LockedBalance) : Prop :=
  l = LockedBalance.default ∨ (0 < l.amount ∧ week ∣ l.lockEnd ∧ l.lockEnd ≤ t + maxtime)

/-- The invariant of the locks at time `t`: each is well formed and within `u128`, and exactly
the live ids hold one. -/
structure LockInvariant (t : Nat) (s : VeState) : Prop where
  wellFormed : ∀ id, LockWellFormed t (s.locked id)
  bounded : ∀ id, (s.locked id).amount < 2 ^ 128
  live : ∀ id, (s.nft.owners id).isSome ↔ s.locked id ≠ LockedBalance.default

/-- Neither the amount nor the end of a lock goes down, and a changed lock is well formed at
`ts`. -/
def LockGrows (ts : Nat) (l l' : LockedBalance) : Prop :=
  l.amount ≤ l'.amount ∧ l.lockEnd ≤ l'.lockEnd ∧ (l' ≠ l → LockWellFormed ts l')

/-- What a call `c` at time `ts` may do to the lock of `id`: a merge resets its `from`; any
other change makes the lock grow. -/
def LockStep (ts : Nat) (c : Call) (id : Nat) (l l' : LockedBalance) : Prop :=
  (∃ fromId toId, c = .merge fromId toId ∧ (fromId : Nat) = id ∧ l' = LockedBalance.default) ∨
    LockGrows ts l l'

theorem LockGrows.refl (ts : Nat) (l : LockedBalance) : LockGrows ts l l :=
  ⟨le_rfl, le_rfl, fun h => absurd rfl h⟩

theorem LockWellFormed.mono {t t' : Nat} {l : LockedBalance} (h : LockWellFormed t l)
    (ht : t ≤ t') : LockWellFormed t' l := by
  rcases h with h | ⟨h₁, h₂, h₃⟩
  · exact .inl h
  · exact .inr ⟨h₁, h₂, by omega⟩

theorem LockWellFormed.lockEnd {t : Nat} {l : LockedBalance} (h : LockWellFormed t l) :
    week ∣ l.lockEnd ∧ l.lockEnd ≤ t + maxtime := by
  rcases h with rfl | ⟨-, h₂, h₃⟩
  · exact ⟨dvd_zero _, Nat.zero_le _⟩
  · exact ⟨h₂, h₃⟩

theorem genesis_lockInvariant (env : Env) :
    LockInvariant (currentBlockTimestampSeconds env) (genesis env) :=
  ⟨fun _ => .inl rfl, fun _ => by simp [genesis], fun _ => by simp [genesis, Registry.empty]⟩

theorem roundedUnlockTime_dvd (ts lockDuration : Nat) : week ∣ roundedUnlockTime ts lockDuration :=
  Nat.dvd_mul_left _ _

theorem wrapU64_add_maxtime (ts : Nat) (h : ts < 2 ^ 55) : wrapU64 (ts + maxtime) = ts + maxtime :=
  wrapU64_of_lt (by rw [maxtime_eq, week_eq]; omega)

theorem depositedLock_amount {l : LockedBalance} {value : Nat} (unlock : Nat)
    (hwrap : l.amount + value < 2 ^ 128) :
    (depositedLock l value unlock).amount = l.amount + value := by
  simp only [depositedLock]; exact_mod_cast wrapU128_of_lt hwrap

/-- One lock written by `_deposit_for` without a wrap: with a later aligned end within `MAXTIME`
of `ts`, or the end kept. -/
theorem depositedLock_step {ts : Nat} {l : LockedBalance} {value unlock : Nat}
    (hl : LockWellFormed ts l) (hwrap : l.amount + value < 2 ^ 128) (hpos : 0 < l.amount + value)
    (hunlock : unlock = 0 ∨ (l.lockEnd ≤ unlock ∧ week ∣ unlock ∧ unlock ≤ ts + maxtime)) :
    l.amount ≤ (depositedLock l value unlock).amount ∧
      l.lockEnd ≤ (depositedLock l value unlock).lockEnd ∧
      LockWellFormed ts (depositedLock l value unlock) := by
  have hamount := depositedLock_amount unlock hwrap
  have hend :
      (depositedLock l value unlock).lockEnd = if unlock = 0 then l.lockEnd else unlock := by
    by_cases h0 : unlock = 0 <;> simp [depositedLock, h0]
  obtain ⟨hdvd₀, hmax₀⟩ := hl.lockEnd
  unfold LockWellFormed
  by_cases h0 : unlock = 0
  · simp only [hend, if_pos h0]
    exact ⟨by omega, le_rfl, .inr ⟨by omega, hdvd₀, hmax₀⟩⟩
  · obtain ⟨hle, hdvd, hmax⟩ := hunlock.resolve_left h0
    simp only [hend, if_neg h0]
    exact ⟨by omega, hle, .inr ⟨by omega, hdvd, hmax⟩⟩

/-- A change of the locks that is one deposit into `id`, which the call leaves live, keeps the
invariant and makes every lock grow. -/
theorem LockInvariant.deposit {t ts : Nat} {s s' : VeState} {id value unlock : Nat}
    (hi : LockInvariant t s) (ht : t ≤ ts)
    (hlocked : s'.locked = Function.update s.locked id (depositedLock (s.locked id) value unlock))
    (howners : ∀ id', id' ≠ id → s'.nft.owners id' = s.nft.owners id')
    (hid : (s'.nft.owners id).isSome) (hwrap : (s.locked id).amount + value < 2 ^ 128)
    (hpos : 0 < (s.locked id).amount + value)
    (hunlock :
      unlock = 0 ∨ ((s.locked id).lockEnd ≤ unlock ∧ week ∣ unlock ∧ unlock ≤ ts + maxtime)) :
    LockInvariant ts s' ∧ ∀ id', LockGrows ts (s.locked id') (s'.locked id') := by
  obtain ⟨hamount, hend, hwf⟩ := depositedLock_step ((hi.wellFormed id).mono ht) hwrap hpos hunlock
  have hsum := depositedLock_amount unlock hwrap
  have hnew : depositedLock (s.locked id) value unlock ≠ LockedBalance.default := fun h => by
    rw [h, LockedBalance.default_amount] at hsum; omega
  refine ⟨⟨fun id' => ?_, fun id' => ?_, fun id' => ?_⟩, fun id' => ?_⟩ <;>
    by_cases h : id' = id <;> simp only [hlocked, h, Function.update_same, ne_eq,
      Function.update_noteq, not_false_eq_true]
  · exact hwf
  · exact (hi.wellFormed id').mono ht
  · simp only [depositedLock]; exact wrapU128_lt _
  · exact hi.bounded id'
  · exact ⟨fun _ => hnew, fun _ => hid⟩
  · rw [howners id' h]; exact hi.live id'
  · exact ⟨hamount, hend, fun _ => hwf⟩
  · exact LockGrows.refl ts _

/-- A reset of `id` that also takes it out of the registry keeps the invariant. -/
theorem LockInvariant.reset {t ts : Nat} {s s' : VeState} {id : Nat} (hi : LockInvariant t s)
    (ht : t ≤ ts) (hlocked : s'.locked = Function.update s.locked id LockedBalance.default)
    (howners : s'.nft.owners = Function.update s.nft.owners id none) : LockInvariant ts s' := by
  refine ⟨fun id' => ?_, fun id' => ?_, fun id' => ?_⟩ <;>
    by_cases h : id' = id <;> simp only [hlocked, howners, h, Function.update_same, ne_eq,
      Function.update_noteq, not_false_eq_true]
  · exact .inl rfl
  · exact (hi.wellFormed id').mono ht
  · simp
  · exact hi.bounded id'
  · simp
  · exact hi.live id'

/-- A call that changes neither the locks nor the owners keeps the invariant. -/
theorem LockInvariant.of_same {t ts : Nat} {s s' : VeState} (hi : LockInvariant t s) (ht : t ≤ ts)
    (hlocked : s'.locked = s.locked) (howners : s'.nft.owners = s.nft.owners) :
    LockInvariant ts s' :=
  ⟨fun id => hlocked ▸ (hi.wellFormed id).mono ht, fun id => hlocked ▸ hi.bounded id,
    fun id => hlocked ▸ howners ▸ hi.live id⟩

theorem LockInvariant.amount_pos {t : Nat} {s : VeState} (hi : LockInvariant t s) {id : Nat}
    (h : (s.nft.owners id).isSome) : 0 < (s.locked id).amount := by
  rcases hi.wellFormed id with h' | h'
  · exact absurd h' ((hi.live id).1 h)
  · exact h'.1

theorem Registry.mint_spec {r r' : Registry} {recipient : Key} {tokenId : Nat}
    (h : r.mint recipient tokenId = .ok r') :
    r.owners tokenId = none ∧ r'.owners = Function.update r.owners tokenId (some recipient) := by
  unfold Registry.mint at h
  split at h
  · cases h
  · rename_i hfree
    cases h
    exact ⟨Option.not_isSome_iff_eq_none.1 hfree, rfl⟩

/-- A successful `create_lock_for`: the new id was not live, and the call deposits into it and
makes the recipient its owner. -/
theorem createLockFor_locks {env : Env} {s s' : VeState} {amount lockDuration : Nat}
    {recipient : Key} (h : Entry.createLockFor env s amount lockDuration recipient = .ok s') :
    let ts := currentBlockTimestampSeconds env
    let unlockTime := roundedUnlockTime ts lockDuration
    let tokenId := s.nft.totalSupply + 1
    0 < amount ∧ ts < unlockTime ∧ unlockTime ≤ wrapU64 (ts + maxtime) ∧
      s.nft.owners tokenId = none ∧
      s'.locked =
        Function.update s.locked tokenId (depositedLock (s.locked tokenId) amount unlockTime) ∧
      s'.nft.owners = Function.update s.nft.owners tokenId (some recipient) := by
  obtain ⟨-, r, hr, rfl⟩ := Entry.createLockFor_spec h
  obtain ⟨hpos, hfuture, hmax, nft, s₁, hm, hmv, rfl⟩ := createLock_spec hr
  obtain ⟨_, _, rfl⟩ := moveTokenDelegates_onlyCheckpoints hmv
  obtain ⟨hnone, howners⟩ := Registry.mint_spec hm
  exact ⟨hpos, hfuture, hmax, hnone, by simp, by simpa using howners⟩

/-- A live lock's deposit, checked by the deposit entry points, keeps the invariant. -/
theorem LockInvariant.depositLive {t ts : Nat} {s s' : VeState} {id value unlock : Nat}
    (hi : LockInvariant t s) (ht : t ≤ ts) (hamount : 0 < (s.locked id).amount)
    (hlocked : s'.locked = Function.update s.locked id (depositedLock (s.locked id) value unlock))
    (howners : s'.nft.owners = s.nft.owners) (hwrap : (s.locked id).amount + value < 2 ^ 128)
    (hunlock :
      unlock = 0 ∨ ((s.locked id).lockEnd ≤ unlock ∧ week ∣ unlock ∧ unlock ≤ ts + maxtime)) :
    LockInvariant ts s' ∧ ∀ id', LockGrows ts (s.locked id') (s'.locked id') :=
  hi.deposit ht hlocked (fun _ _ => by rw [howners])
    (howners ▸ (hi.live id).2 fun h => by simp [h] at hamount) hwrap (by omega) hunlock

/-- `merge` resets `from`'s lock and deposits its amount into `to`'s, at the later end. -/
theorem LockInvariant.merge {t : Nat} {s s' : VeState} {env : Env} {fromId toId : Fin (2 ^ 64)}
    (hi : LockInvariant t s) (ht : t ≤ currentBlockTimestampSeconds env)
    (hw : NoAmountWrap s env (.merge fromId toId)) (h : Entry.merge env s fromId toId = .ok s') :
    LockInvariant (currentBlockTimestampSeconds env) s' ∧
      ∀ id, LockStep (currentBlockTimestampSeconds env) (.merge fromId toId) id (s.locked id)
        (s'.locked id) := by
  obtain ⟨hne, -, hto, s₁, hb, rfl⟩ := Entry.merge_spec h
  obtain ⟨nft, _, _, hburn, hs₁⟩ := burnNft_eq hb
  have hl₁ : s₁.locked = Function.update s.locked fromId LockedBalance.default := by
    simp [hs₁, checkPoint]
  have hto₁ : s₁.locked toId = s.locked toId := by
    rw [hl₁, Function.update_noteq (Ne.symm hne)]
  have ho₁ : s₁.nft.owners = Function.update s.nft.owners fromId none := by
    simpa [hs₁, checkPoint] using Registry.burn_owners hburn
  have hlive : (s.nft.owners toId).isSome := by
    simp only [Registry.isApprovedOrOwner, beq_iff_eq] at hto; simp [hto]
  obtain ⟨hdvd₀, hmax₀⟩ := ((hi.wellFormed fromId).mono ht).lockEnd
  obtain ⟨hdvd₁, hmax₁⟩ := ((hi.wellFormed toId).mono ht).lockEnd
  generalize hu : (if (s.locked toId).lockEnd ≤ (s.locked fromId).lockEnd then
    (s.locked fromId).lockEnd else (s.locked toId).lockEnd) = unlock
  have hunlock : (s₁.locked toId).lockEnd ≤ unlock ∧ week ∣ unlock ∧
      unlock ≤ currentBlockTimestampSeconds env + maxtime := by
    rw [hto₁, ← hu]; split_ifs <;> omega
  have hl : (VotingEscrow.depositFor env s₁ toId (s.locked fromId).amount unlock
      (s.locked toId)).locked = Function.update s₁.locked toId
        (depositedLock (s₁.locked toId) (s.locked fromId).amount unlock) := by
    rw [depositFor_locked, hto₁]
  obtain ⟨hi', hg⟩ := (hi.reset ht hl₁ ho₁).deposit le_rfl hl (fun _ _ => by simp)
    (by simp [ho₁, Function.update_noteq (Ne.symm hne), hlive]) (hto₁ ▸ hw _ _ rfl)
    (by rw [hto₁]; have := hi.amount_pos hlive; omega) (.inr hunlock)
  refine ⟨hi', fun id => ?_⟩
  by_cases hid : id = fromId
  · subst hid
    refine .inl ⟨fromId, toId, rfl, rfl, ?_⟩
    rw [depositFor_locked, Function.update_noteq hne, hl₁, Function.update_same]
  · have h₁ : s₁.locked id = s.locked id := by rw [hl₁, Function.update_noteq hid]
    exact .inr (h₁ ▸ hg id)

/-- One call keeps the lock invariant and changes each lock as `LockStep` allows. -/
theorem LockInvariant.step {t : Nat} {s s' : VeState} {env : Env} {c : Call}
    (hi : LockInvariant t s) (ht : t ≤ currentBlockTimestampSeconds env)
    (hw : NoAmountWrap s env c) (h : step env s c = .ok s') :
    LockInvariant (currentBlockTimestampSeconds env) s' ∧
      ∀ id, LockStep (currentBlockTimestampSeconds env) c id (s.locked id) (s'.locked id) := by
  have hts := currentBlockTimestampSeconds_lt env
  have grows {s'} (h : LockInvariant (currentBlockTimestampSeconds env) s' ∧
      ∀ id, LockGrows (currentBlockTimestampSeconds env) (s.locked id) (s'.locked id)) :
      LockInvariant (currentBlockTimestampSeconds env) s' ∧
        ∀ id, LockStep (currentBlockTimestampSeconds env) c id (s.locked id) (s'.locked id) :=
    h.imp_right fun hg id => .inr (hg id)
  have same (hl : s'.locked = s.locked) (ho : s'.nft.owners = s.nft.owners) :=
    grows ⟨hi.of_same ht hl ho, fun id => hl ▸ LockGrows.refl _ _⟩
  cases c with
  | createLock amount d | createLockFor amount d _ =>
    obtain ⟨hpos, hfuture, hmax, hnone, hl, ho⟩ := createLockFor_locks h
    have hdef : s.locked (s.nft.totalSupply + 1) = LockedBalance.default := by
      by_contra hne
      simpa [hnone] using (hi.live _).2 hne
    refine grows (hi.deposit ht hl (fun _ h => by rw [ho, Function.update_noteq h])
      (by simp [ho]) (hw _ _ rfl) (by simp [hdef, hpos]) (.inr ⟨by simp [hdef],
        roundedUnlockTime_dvd _ _, by rwa [wrapU64_add_maxtime _ hts] at hmax⟩))
  | depositFor id amount =>
    obtain ⟨-, hamount, -, rfl⟩ := Entry.depositFor_spec h
    exact grows (hi.depositLive ht hamount (by simp) (by simp) (hw _ _ rfl) (.inl rfl))
  | increaseAmount id amount =>
    obtain ⟨-, -, -, hamount, -, rfl⟩ := Entry.increaseAmount_spec h
    exact grows (hi.depositLive ht hamount (by simp) (by simp) (hw _ _ rfl) (.inl rfl))
  | increaseAmountFor id amount =>
    obtain ⟨-, -, hamount, -, rfl⟩ := Entry.increaseAmountFor_spec h
    exact grows (hi.depositLive ht hamount (by simp) (by simp) (hw _ _ rfl) (.inl rfl))
  | increaseUnlockTime id d =>
    obtain ⟨-, -, -, hamount, hlater, hmax, rfl⟩ := Entry.increaseUnlockTime_spec h
    have hwrap : (s.locked id).amount + 0 < 2 ^ 128 := hi.bounded id
    exact grows (hi.depositLive ht hamount (by simp) (by simp) hwrap
      (.inr ⟨hlater.le, roundedUnlockTime_dvd _ _, by rwa [wrapU64_add_maxtime _ hts] at hmax⟩))
  | merge fromId toId => exact hi.merge ht hw h
  | checkPoint =>
    cases h
    exact same (by simp [Entry.checkPoint, checkPoint]) (by simp [Entry.checkPoint, checkPoint])
  | delegate d =>
    obtain ⟨_, _, rfl⟩ := moveAllDelegates_onlyCheckpoints (Entry.delegate_spec h)
    exact same rfl rfl
  | voting id => obtain ⟨-, rfl⟩ := Entry.setVoted_spec h; exact same rfl rfl
  | abstain id => obtain ⟨-, rfl⟩ := Entry.setVoted_spec h; exact same rfl rfl
  | attach id => obtain ⟨-, rfl⟩ := Entry.attach_spec h; exact same rfl rfl
  | detach id => obtain ⟨-, rfl⟩ := Entry.detach_spec h; exact same rfl rfl
  | setVoter v => obtain ⟨-, rfl⟩ := Entry.setVoter_spec h; exact same rfl rfl
  | setTeam v => obtain ⟨-, rfl⟩ := Entry.setTeam_spec h; exact same rfl rfl
  | setArtProxy v => obtain ⟨-, rfl⟩ := Entry.setArtProxy_spec h; exact same rfl rfl

theorem reachable_lockInvariant {t : Nat} {s : VeState} (h : Reachable NoAmountWrap t s) :
    LockInvariant t s := by
  induction h with
  | genesis env => exact genesis_lockInvariant env
  | step env c _ ht hw hstep ih => exact (ih.step ht hw hstep).1

/-- **The lock-state invariant.** In every run where no deposit carries an amount past `u128`,
every lock is empty or holds an amount and a week-aligned end at most `MAXTIME` after the last
call; and every further call leaves each lock's amount and end where they were or higher, a
changed lock well formed with its end at most `MAXTIME` after that call, except the `from` of a
merge, which it resets. -/
theorem locks_wellFormed_and_grow {t : Nat} {s : VeState} (h : Reachable NoAmountWrap t s) :
    (∀ id, LockWellFormed t (s.locked id)) ∧
      ∀ env c s', t ≤ currentBlockTimestampSeconds env → NoAmountWrap s env c →
        step env s c = .ok s' →
          ∀ id, LockStep (currentBlockTimestampSeconds env) c id (s.locked id) (s'.locked id) :=
  ⟨(reachable_lockInvariant h).wellFormed, fun _ _ _ ht hw hstep =>
    ((reachable_lockInvariant h).step ht hw hstep).2⟩

theorem oneLock_reachable_noAmountWrap : Reachable NoAmountWrap week oneLock :=
  .step (atTime aliceKey week) lockMaxtime (.genesis _) le_rfl
    (fun _ _ h => by cases h; decide) rfl

theorem locks_wellFormed_and_grow_oneLock :
    Reachable NoAmountWrap week oneLock ∧
      ((∀ id, LockWellFormed week (oneLock.locked id)) ∧
        ∀ env c s', week ≤ currentBlockTimestampSeconds env → NoAmountWrap oneLock env c →
          step env oneLock c = .ok s' → ∀ id,
            LockStep (currentBlockTimestampSeconds env) c id (oneLock.locked id) (s'.locked id)) :=
  ⟨oneLock_reachable_noAmountWrap, locks_wellFormed_and_grow oneLock_reachable_noAmountWrap⟩

/-- `create_lock` of `2^128 - 1` for two weeks. -/
def lockFull : Call := .createLock ⟨2 ^ 128 - 1, by decide⟩ ⟨2 * week, by decide⟩

/-- The contract installed at week 1, after `lockFull` by `aliceKey`. -/
def fullLock : VeState := afterCall (atTime aliceKey week) (genesis (atTime aliceKey week)) lockFull

/-- `fullLock`, then `deposit_for(1, 1)` in the same block. -/
def wrappedLock : VeState :=
  afterCall (atTime aliceKey week) fullLock (.depositFor 1 ⟨1, by decide⟩)

/-- **A deposit can empty a lock.** Adding `1` to a lock of `2^128 - 1` wraps its amount to `0`:
the lock keeps its end at week 3 with nothing in it, and `deposit_for` has lowered its amount. -/
theorem depositFor_wraps_amount :
    Reachable (fun _ _ _ => True) week wrappedLock ∧
      fullLock.locked 1 = ⟨2 ^ 128 - 1, 3 * week⟩ ∧ wrappedLock.locked 1 = ⟨0, 3 * week⟩ :=
  ⟨.step (atTime aliceKey week) (.depositFor 1 ⟨1, by decide⟩)
    (.step (atTime aliceKey week) lockFull (.genesis _) le_rfl trivial rfl) le_rfl trivial rfl,
    by decide, by decide⟩

end VotingEscrow
