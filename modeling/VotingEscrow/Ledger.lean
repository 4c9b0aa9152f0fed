import VotingEscrow.Registry

/-!
# The positions ledger

What the contract is for, apart from how it stores it: a ledger of positions, each held by an
owner, with an amount in custody and an unlock time (`Position`). The spec's lock lifecycle
gives its operations (`LedgerStep`): a position is opened on an id that had none, grows by
deposits, has its end moved later, or is merged into another one, which takes its amount and
the later of the two ends while the merged one is closed; every other call leaves the ledger
alone. These definitions follow the spec's words; `positions` reads the ledger off the
registry's owners and `LOCKED`.

In every run where no deposit carries a lock past `u128`, each successful call moves the
ledger by the operation it names, its precondition met (`step_refines_ledger`); the code's
wrapped unlock time is the spec's rounded one whenever the checks pass
(`roundedUnlockTime_eq_spec`). The ledger's custody grows by what is paid in and a merge keeps
it (`LedgerStep.custody`), while `_deposit_for` adds a merged amount to `VE_SUPPLY` as well:
so `VE_SUPPLY` covers the locked amounts in every run that keeps it within `u128`, exactly
when there is no merge (`veSupply_covers_locked`).
-/

namespace VotingEscrow

/-! ## The ledger -/

/-- A position: its holder, the amount in custody and when it unlocks. -/
structure Position where
  owner : Key
  amount : Nat
  lockEnd : Nat
  deriving DecidableEq

/-- The positions of an owner map and a lock table: each id with an owner, with its lock. -/
def positionsOf (owners : Nat → Option Key) (locked : Nat → LockedBalance) (id : Nat) :
    Option Position :=
  (owners id).map fun owner => ⟨owner, (locked id).amount, (locked id).lockEnd⟩

/-- The positions the contract holds. -/
def positions (s : VeState) : Nat → Option Position := positionsOf s.nft.owners s.locked

theorem positionsOf_update (owners : Nat → Option Key) (locked : Nat → LockedBalance) (id : Nat)
    (o : Option Key) (l : LockedBalance) :
    positionsOf (Function.update owners id o) (Function.update locked id l) =
      Function.update (positionsOf owners locked) id
        (o.map fun owner => ⟨owner, l.amount, l.lockEnd⟩) := by
  funext j
  by_cases h : j = id
  · subst h; simp [positionsOf]
  · simp [positionsOf, h]

/-- The spec's end of a lock: `now + duration` rounded down to a week. -/
def specUnlockTime (ts duration : Nat) : Nat := (ts + duration) / week * week

/-- `create`: a position of `amount` for `owner`, until `specUnlockTime`, is opened on an id
that had none; the amount is positive, and the end later than now and at most `MAXTIME`
after it. -/
def Opens (ts : Nat) (owner : Key) (amount duration : Nat) (L L' : Nat → Option Position) :
    Prop :=
  0 < amount ∧ ts < specUnlockTime ts duration ∧ specUnlockTime ts duration ≤ ts + maxtime ∧
    ∃ id, L id = none ∧
      L' = Function.update L id (some ⟨owner, amount, specUnlockTime ts duration⟩)

/-- `deposit` and `increase-amount`: a positive `value` joins the running position `id`,
whose end stays. -/
def Deposits (ts : Nat) (id value : Nat) (L L' : Nat → Option Position) : Prop :=
  0 < value ∧ ∃ p, L id = some p ∧ 0 < p.amount ∧ ts < p.lockEnd ∧
    L' = Function.update L id (some { p with amount := p.amount + value })

/-- `increase-unlock-time`: the running position `id` of `caller` ends later, at
`specUnlockTime`, at most `MAXTIME` after now; its amount stays. -/
def Extends (ts : Nat) (caller : Key) (id duration : Nat) (L L' : Nat → Option Position) :
    Prop :=
  ∃ p, L id = some p ∧ p.owner = caller ∧ 0 < p.amount ∧ ts < p.lockEnd ∧
    p.lockEnd < specUnlockTime ts duration ∧ specUnlockTime ts duration ≤ ts + maxtime ∧
    L' = Function.update L id (some { p with lockEnd := specUnlockTime ts duration })

/-- `merge(from, to)`: two distinct positions of `caller`; `to` takes `from`'s amount and the
later of the two ends, and `from` is closed. -/
def Merges (caller : Key) (fromId toId : Nat) (L L' : Nat → Option Position) : Prop :=
  fromId ≠ toId ∧ ∃ pf pt, L fromId = some pf ∧ L toId = some pt ∧ pf.owner = caller ∧
    pt.owner = caller ∧
    L' = Function.update (Function.update L fromId none) toId
      (some ⟨pt.owner, pt.amount + pf.amount, max pt.lockEnd pf.lockEnd⟩)

/-- The ledger's semantics: what a call by `caller` at time `ts` does to the positions. -/
def LedgerStep (ts : Nat) (caller : Key) (L L' : Nat → Option Position) : Call → Prop
  | .createLock amount d => Opens ts caller amount d L L'
  | .createLockFor amount d recipient => Opens ts recipient amount d L L'
  | .depositFor id amount | .increaseAmountFor id amount => Deposits ts id amount L L'
  | .increaseAmount id amount =>
    (L id).map Position.owner = some caller ∧ Deposits ts id amount L L'
  | .increaseUnlockTime id d => Extends ts caller id d L L'
  | .merge fromId toId => Merges caller fromId toId L L'
  | _ => L' = L

/-! ## The contract refines the ledger -/

/-- The checks of `_create_lock` and `increase_unlock_time` rule out the wrap of
`current_block_timestamp_seconds() + lock_duration` in `u64`: the rounded time they keep is
the spec's. -/
theorem roundedUnlockTime_eq_spec {ts d : Nat} (hts : ts < 2 ^ 64) (hd : d < 2 ^ 64)
    (h : ts < roundedUnlockTime ts d) : roundedUnlockTime ts d = specUnlockTime ts d := by
  have hr : roundedUnlockTime ts d = (ts + d) % 2 ^ 64 / week * week := by
    rw [roundedUnlockTime, ← wrapU64_natCast]; rfl
  rw [hr] at h ⊢
  rcases lt_or_le (ts + d) (2 ^ 64) with hlt | hge
  · rw [Nat.mod_eq_of_lt hlt]; rfl
  · have h₁ : (ts + d) % 2 ^ 64 = (ts + d - 2 ^ 64) % 2 ^ 64 := Nat.mod_eq_sub_mod hge
    have h₂ := Nat.mod_le (ts + d - 2 ^ 64) (2 ^ 64)
    have h₃ := Nat.div_mul_le_self ((ts + d) % 2 ^ 64) week
    omega

section Refines

variable {t : Nat} {env : Env} {s s' : VeState}

theorem positions_isLocked (s : VeState) (b : Bool) :
    positions { s with isLocked := b } = positions s := rfl

/-- `_deposit_for` stores one lock and keeps the owners. -/
theorem positions_depositFor (id value unlock : Nat) :
    positions (VotingEscrow.depositFor env s id value unlock (s.locked id)) =
      Function.update (positions s) id ((s.nft.owners id).map fun owner =>
        ⟨owner, (depositedLock (s.locked id) value unlock).amount,
          (depositedLock (s.locked id) value unlock).lockEnd⟩) := by
  have h := positionsOf_update s.nft.owners s.locked id (s.nft.owners id)
    (depositedLock (s.locked id) value unlock)
  rw [Function.update_eq_self] at h
  rw [positions, depositFor_locked, depositFor_nft, h]
  rfl

/-- A lock with an amount is a position. -/
theorem LockInvariant.positions_eq (hi : LockInvariant t s) {id : Nat}
    (hamount : 0 < (s.locked id).amount) :
    ∃ owner, s.nft.owners id = some owner ∧
      positions s id = some ⟨owner, (s.locked id).amount, (s.locked id).lockEnd⟩ := by
  obtain ⟨owner, howner⟩ := Option.isSome_iff_exists.1
    ((hi.live id).2 fun h => by simp [h] at hamount)
  exact ⟨owner, howner, by simp [positions, positionsOf, howner]⟩

/-- A checked deposit of `value` into a running lock is the ledger's `Deposits`. -/
theorem LockInvariant.deposits (hi : LockInvariant t s) {id value : Nat} (hvalue : 0 < value)
    (hamount : 0 < (s.locked id).amount)
    (hend : currentBlockTimestampSeconds env < (s.locked id).lockEnd)
    (hwrap : (s.locked id).amount + value < 2 ^ 128) :
    Deposits (currentBlockTimestampSeconds env) id value (positions s)
      (positions (VotingEscrow.depositFor env s id value 0 (s.locked id))) := by
  obtain ⟨owner, howner, hp⟩ := hi.positions_eq hamount
  refine ⟨hvalue, _, hp, hamount, hend, ?_⟩
  rw [positions_depositFor, howner, depositedLock_amount 0 hwrap]
  rfl

theorem LockInvariant.createLockFor_refines (hi : LockInvariant t s) {amount d : Nat}
    {recipient : Key} (hamount : amount < 2 ^ 128) (hd : d < 2 ^ 64)
    (h : Entry.createLockFor env s amount d recipient = .ok s') :
    Opens (currentBlockTimestampSeconds env) recipient amount d (positions s) (positions s') := by
  have hts := currentBlockTimestampSeconds_lt env
  obtain ⟨hpos, hfuture, hmax, hnone, hl, ho⟩ := createLockFor_locks h
  have hdef : s.locked (s.nft.totalSupply + 1) = LockedBalance.default := by
    by_contra hne
    simpa [hnone] using (hi.live _).2 hne
  have hunlock := roundedUnlockTime_eq_spec (by omega) hd hfuture
  rw [wrapU64_add_maxtime _ hts, hunlock] at hmax
  rw [hunlock] at hfuture hl
  refine ⟨hpos, hfuture, hmax, s.nft.totalSupply + 1, by simp [positions, positionsOf, hnone], ?_⟩
  rw [positions, hl, ho, positionsOf_update, hdef]
  simp [depositedLock, wrapU128_of_lt hamount, (Nat.zero_le _).trans_lt hfuture |>.ne']
  rfl

theorem LockInvariant.increaseUnlockTime_refines (hi : LockInvariant t s) {id d : Nat}
    (hd : d < 2 ^ 64) (h : Entry.increaseUnlockTime env s id d = .ok s') :
    Extends (currentBlockTimestampSeconds env) env.caller id d (positions s) (positions s') := by
  have hts := currentBlockTimestampSeconds_lt env
  obtain ⟨happ, -, hend, hamount, hlater, hmax, rfl⟩ := Entry.increaseUnlockTime_spec h
  have hunlock := roundedUnlockTime_eq_spec (by omega) hd (hend.trans hlater)
  rw [wrapU64_add_maxtime _ hts] at hmax
  obtain ⟨owner, howner, hp⟩ := hi.positions_eq hamount
  have hcaller : owner = env.caller := by
    simpa [Registry.isApprovedOrOwner, howner] using happ
  refine ⟨_, hp, hcaller, hamount, hend, hunlock ▸ hlater, hunlock ▸ hmax, ?_⟩
  rw [positions_isLocked, positions_depositFor, positions_isLocked, howner, ← hunlock]
  simp [depositedLock, wrapU128_of_lt (hi.bounded id), (Nat.zero_le _).trans_lt hlater |>.ne']

/-- The lock `merge` deposits into `to`: both amounts, until the later end. -/
theorem depositedLock_merge {lt lf : LockedBalance} (h : lt.amount + lf.amount < 2 ^ 128) :
    depositedLock lt lf.amount (if lt.lockEnd ≤ lf.lockEnd then lf.lockEnd else lt.lockEnd) =
      ⟨lt.amount + lf.amount, max lt.lockEnd lf.lockEnd⟩ := by
  have hamount := depositedLock_amount
    (if lt.lockEnd ≤ lf.lockEnd then lf.lockEnd else lt.lockEnd) h
  simp only [depositedLock] at hamount ⊢
  rw [hamount]
  congr 1
  split_ifs <;> omega

theorem merge_refines {fromId toId : Nat}
    (hwrap : (s.locked toId).amount + (s.locked fromId).amount < 2 ^ 128)
    (h : Entry.merge env s fromId toId = .ok s') :
    Merges env.caller fromId toId (positions s) (positions s') := by
  obtain ⟨hne, hfrom, hto, s₁, hb, rfl⟩ := Entry.merge_spec h
  obtain ⟨nft, _, _, hburn, rfl⟩ := burnNft_eq hb
  simp only [Registry.isApprovedOrOwner, beq_iff_eq] at hfrom hto
  have ho := Registry.burn_owners hburn
  simp only [checkPoint, checkPointWith_nft] at ho
  have ho' : nft.owners = Function.update (Function.update s.nft.owners fromId none) toId
      (s.nft.owners toId) := by
    rw [ho, ← Function.update_noteq (Ne.symm hne) none s.nft.owners, Function.update_eq_self]
  refine ⟨hne, ⟨env.caller, (s.locked fromId).amount, (s.locked fromId).lockEnd⟩,
    ⟨env.caller, (s.locked toId).amount, (s.locked toId).lockEnd⟩,
    by simp [positions, positionsOf, hfrom], by simp [positions, positionsOf, hto], rfl, rfl, ?_⟩
  rw [positions, depositFor_nft, depositFor_locked, ho']
  simp only [checkPoint, checkPointWith_locked]
  rw [positionsOf_update, positionsOf_update, depositedLock_merge hwrap, hto]
  rfl

/-- **The contract refines the positions ledger.** From a state of the lock invariant, a
successful call that carries no lock past `u128` moves the positions by the ledger operation
it names, that operation's precondition met. -/
theorem LockInvariant.refines {c : Call} (hi : LockInvariant t s) (hw : NoAmountWrap s env c)
    (h : VotingEscrow.step env s c = .ok s') :
    LedgerStep (currentBlockTimestampSeconds env) env.caller (positions s) (positions s') c := by
  cases c with
  | createLock amount d => exact hi.createLockFor_refines amount.isLt d.isLt h
  | createLockFor amount d _ => exact hi.createLockFor_refines amount.isLt d.isLt h
  | depositFor id amount =>
    obtain ⟨hv, ha, he, rfl⟩ := Entry.depositFor_spec h
    exact hi.deposits hv ha he (hw _ _ rfl)
  | increaseAmount id amount =>
    obtain ⟨happ, -, hv, ha, he, rfl⟩ := Entry.increaseAmount_spec h
    obtain ⟨owner, howner, hp⟩ := hi.positions_eq ha
    simp only [Registry.isApprovedOrOwner, beq_iff_eq, howner, Option.some.injEq] at happ
    have hi' : LockInvariant t { s with isLocked := true } := hi.of_same le_rfl rfl rfl
    exact ⟨by simp [hp, happ], hi'.deposits hv ha he (hw _ _ rfl)⟩
  | increaseAmountFor id amount =>
    obtain ⟨-, hv, ha, he, rfl⟩ := Entry.increaseAmountFor_spec h
    exact hi.deposits hv ha he (hw _ _ rfl)
  | increaseUnlockTime id d => exact hi.increaseUnlockTime_refines d.isLt h
  | merge fromId toId => exact merge_refines (hw _ _ rfl) h
  | checkPoint => cases h; simp [LedgerStep, positions, Entry.checkPoint, checkPoint]
  | delegate d =>
    obtain ⟨_, _, rfl⟩ := moveAllDelegates_onlyCheckpoints (Entry.delegate_spec h); rfl
  | voting id | abstain id => obtain ⟨-, rfl⟩ := Entry.setVoted_spec h; rfl
  | attach id => obtain ⟨-, rfl⟩ := Entry.attach_spec h; rfl
  | detach id => obtain ⟨-, rfl⟩ := Entry.detach_spec h; rfl
  | setVoter v => obtain ⟨-, rfl⟩ := Entry.setVoter_spec h; rfl
  | setTeam v => obtain ⟨-, rfl⟩ := Entry.setTeam_spec h; rfl
  | setArtProxy v => obtain ⟨-, rfl⟩ := Entry.setArtProxy_spec h; rfl

end Refines

/-- **Every call of a run is a step of the positions ledger.** In every run where no deposit
carries a lock past `u128`, a successful call moves the positions (owner, amount and end of
each live id) as the spec's lifecycle says: `create_lock` opens a position on a fresh id with
the rounded end, the deposits add to a running position, `increase_unlock_time` moves its
owner's running position's end later, `merge` moves one of the caller's positions into another
at the later end and closes it, and every other call leaves the positions alone. -/
theorem step_refines_ledger {t : Nat} {s s' : VeState} {env : Env} {c : Call}
    (h : Reachable NoAmountWrap t s) (hw : NoAmountWrap s env c) (hs : step env s c = .ok s') :
    LedgerStep (currentBlockTimestampSeconds env) env.caller (positions s) (positions s') c :=
  (reachable_lockInvariant h).refines hw hs

theorem step_refines_ledger_oneLock :
    Reachable NoAmountWrap week oneLock ∧ NoAmountWrap oneLock (atTime aliceKey week) lockHundred ∧
      step (atTime aliceKey week) oneLock lockHundred = .ok twoLocks ∧
      LedgerStep (currentBlockTimestampSeconds (atTime aliceKey week)) (atTime aliceKey week).caller
        (positions oneLock) (positions twoLocks) lockHundred :=
  have hw : NoAmountWrap oneLock (atTime aliceKey week) lockHundred := fun _ _ h => by
    cases h; decide
  ⟨oneLock_reachable_noAmountWrap, hw, rfl,
    step_refines_ledger oneLock_reachable_noAmountWrap hw rfl⟩

/-! ## Custody and `VE_SUPPLY` -/

/-- The amount in custody in the positions of `ids`. -/
def custody (L : Nat → Option Position) (ids : Finset Nat) : Nat :=
  ∑ id ∈ ids, ((L id).map Position.amount).getD 0

/-- What a call pays into custody: the value it deposits; a merge moves value already held. -/
def Call.inflow : Call → Nat
  | .createLock amount _ | .createLockFor amount _ _ => amount
  | .depositFor _ amount | .increaseAmount _ amount | .increaseAmountFor _ amount => amount
  | _ => 0

/-- What a merge adds to `VE_SUPPLY` a second time: `from`'s amount, already in custody. -/
def Call.recounted (s : VeState) : Call → Nat
  | .merge fromId _ => (s.locked fromId).amount
  | _ => 0

/-- A call's deposit is what it pays in and what it recounts. -/
theorem Call.deposit_value (s : VeState) (c : Call) :
    ((c.deposit s).map Prod.snd).getD 0 = c.inflow + c.recounted s := by
  cases c <;> simp [Call.deposit, Call.inflow, Call.recounted]

section Custody

variable {L L' : Nat → Option Position} {ids : Finset Nat}

/-- Storing `p` under an id of `ids` trades the old position's amount for `p`'s. -/
theorem custody_update {i : Nat} (hi : i ∈ ids) (p : Option Position) :
    custody (Function.update L i p) ids + ((L i).map Position.amount).getD 0 =
      custody L ids + (p.map Position.amount).getD 0 := by
  have hne : ∀ j ∈ ids.erase i, ((Function.update L i p j).map Position.amount).getD 0 =
      ((L j).map Position.amount).getD 0 := fun j hj => by
    rw [Function.update_noteq (Finset.ne_of_mem_erase hj)]
  unfold custody
  rw [← Finset.add_sum_erase ids _ hi, ← Finset.add_sum_erase ids _ hi, Function.update_same,
    Finset.sum_congr rfl hne]
  omega

theorem custody_insert {i : Nat} (h : L i = none) : custody L (insert i ids) = custody L ids := by
  by_cases hi : i ∈ ids
  · rw [Finset.insert_eq_of_mem hi]
  · simp [custody, Finset.sum_insert hi, h]

theorem support_update {i : Nat} (hi : i ∈ ids) (hsupp : ∀ id ∉ ids, L id = none)
    (p : Option Position) : ∀ id ∉ ids, Function.update L i p id = none := fun id hid => by
  rw [Function.update_noteq (ne_of_mem_of_not_mem hi hid).symm]
  exact hsupp id hid

/-- **The ledger's custody grows by what a call pays in**: an opened position or a deposit by
its amount, an extension or a merge by nothing. -/
theorem LedgerStep.custody {ts : Nat} {caller : Key} {c : Call} (h : LedgerStep ts caller L L' c)
    (hsupp : ∀ id ∉ ids, L id = none) :
    ∃ ids' : Finset Nat, (∀ id ∉ ids', L' id = none) ∧
      VotingEscrow.custody L' ids' = VotingEscrow.custody L ids + c.inflow := by
  have mem {id : Nat} {p : Position} (hp : L id = some p) : id ∈ ids :=
    by_contra fun hn => by simp [hsupp id hn] at hp
  have opens {owner : Key} {amount d : Nat} (h : Opens ts owner amount d L L') :
      ∃ ids' : Finset Nat, (∀ id ∉ ids', L' id = none) ∧
        VotingEscrow.custody L' ids' = VotingEscrow.custody L ids + amount := by
    obtain ⟨-, -, -, id, hnone, rfl⟩ := h
    have hsum := custody_update (Finset.mem_insert_self id ids) (L := L)
      (some ⟨owner, amount, specUnlockTime ts d⟩)
    rw [hnone, custody_insert hnone] at hsum
    refine ⟨insert id ids, fun j hj => ?_, by simpa using hsum⟩
    rw [Finset.mem_insert, not_or] at hj
    rw [Function.update_noteq hj.1]; exact hsupp j hj.2
  have deposits {id value : Nat} (h : Deposits ts id value L L') :
      ∃ ids' : Finset Nat, (∀ id ∉ ids', L' id = none) ∧
        VotingEscrow.custody L' ids' = VotingEscrow.custody L ids + value := by
    obtain ⟨-, p, hp, -, -, rfl⟩ := h
    have hsum := custody_update (mem hp) (L := L) (some { p with amount := p.amount + value })
    rw [hp] at hsum
    exact ⟨ids, support_update (mem hp) hsupp _, by simp at hsum; omega⟩
  cases c with
  | createLock amount d => exact opens h
  | createLockFor amount d _ => exact opens h
  | depositFor id amount => exact deposits h
  | increaseAmount id amount => exact deposits h.2
  | increaseAmountFor id amount => exact deposits h
  | increaseUnlockTime id d =>
    obtain ⟨p, hp, -, -, -, -, -, rfl⟩ := h
    have hsum := custody_update (mem hp) (L := L) (some { p with lockEnd := specUnlockTime ts d })
    rw [hp] at hsum
    exact ⟨ids, support_update (mem hp) hsupp _, by simpa [Call.inflow] using hsum⟩
  | merge fromId toId =>
    obtain ⟨hne, pf, pt, hf, ht, -, -, rfl⟩ := h
    have h₁ := custody_update (mem hf) (L := L) none
    have h₂ := custody_update (mem ht) (L := Function.update L fromId none)
      (some ⟨pt.owner, pt.amount + pf.amount, max pt.lockEnd pf.lockEnd⟩)
    rw [Function.update_noteq (Ne.symm hne), ht] at h₂
    rw [hf] at h₁
    refine ⟨ids, support_update (mem ht) (support_update (mem hf) hsupp _) _, ?_⟩
    simp only [Option.map_some', Option.getD_some, Option.map_none', Option.getD_none] at h₁ h₂
    simp only [Call.inflow]
    omega
  | checkPoint | delegate _ | voting _ | abstain _ | attach _ | detach _ | setVoter _ | setTeam _
  | setArtProxy _ => exact ⟨ids, h ▸ hsupp, by rw [h]; rfl⟩

end Custody

section Supply

variable {t : Nat} {env : Env} {s s' : VeState} {c : Call}

theorem LockInvariant.positions_eq_none (hi : LockInvariant t s) (id : Nat) :
    positions s id = none ↔ s.locked id = LockedBalance.default := by
  simp only [positions, positionsOf, Option.map_eq_none']
  rw [← Option.not_isSome_iff_eq_none, hi.live id, not_not]

/-- Under the lock invariant the positions hold exactly the locked amounts. -/
theorem LockInvariant.custody_positions (hi : LockInvariant t s) (ids : Finset Nat) :
    custody (positions s) ids = lockedTotal s.locked ids := by
  refine Finset.sum_congr rfl fun id _ => ?_
  cases ho : s.nft.owners id with
  | none =>
    have hnone : positions s id = none := by simp [positions, positionsOf, ho]
    rw [hnone, (hi.positions_eq_none id).1 hnone]
    rfl
  | some o => simp [positions, positionsOf, ho]

/-- `_deposit_for` adds each deposited value to `VE_SUPPLY` in `u128`; no other call writes it. -/
theorem step_veSupply (hv : s.veSupply < 2 ^ 128) (h : step env s c = .ok s') :
    s'.veSupply = wrapU128 (s.veSupply + ((c.deposit s).map Prod.snd).getD 0) := by
  have keep (hs : s'.veSupply = s.veSupply) (hc : c.deposit s = none) :
      s'.veSupply = wrapU128 (s.veSupply + ((c.deposit s).map Prod.snd).getD 0) := by
    simp [hs, hc, wrapU128_of_lt hv]
  have create {amount d : Nat} {recipient : Key}
      (h : Entry.createLockFor env s amount d recipient = .ok s') :
      s'.veSupply = wrapU128 (s.veSupply + amount) := by
    obtain ⟨-, r, hr, rfl⟩ := Entry.createLockFor_spec h
    obtain ⟨-, -, -, nft, s₁, -, hmv, rfl⟩ := createLock_spec hr
    obtain ⟨_, _, rfl⟩ := moveTokenDelegates_onlyCheckpoints hmv
    simp
  cases c with
  | createLock amount d | createLockFor amount d _ => simpa [Call.deposit] using create h
  | depositFor id amount =>
    obtain ⟨-, -, -, rfl⟩ := Entry.depositFor_spec h; simp [Call.deposit]
  | increaseAmount id amount =>
    obtain ⟨-, -, -, -, -, rfl⟩ := Entry.increaseAmount_spec h; simp [Call.deposit]
  | increaseAmountFor id amount =>
    obtain ⟨-, -, -, -, rfl⟩ := Entry.increaseAmountFor_spec h; simp [Call.deposit]
  | increaseUnlockTime id d =>
    obtain ⟨-, -, -, -, -, -, rfl⟩ := Entry.increaseUnlockTime_spec h; simp [Call.deposit]
  | merge fromId toId => simpa [Call.deposit] using merge_veSupply h
  | checkPoint => cases h; exact keep (by simp [Entry.checkPoint, checkPoint]) rfl
  | delegate d =>
    obtain ⟨_, _, rfl⟩ := moveAllDelegates_onlyCheckpoints (Entry.delegate_spec h)
    exact keep rfl rfl
  | voting id | abstain id => obtain ⟨-, rfl⟩ := Entry.setVoted_spec h; exact keep rfl rfl
  | attach id => obtain ⟨-, rfl⟩ := Entry.attach_spec h; exact keep rfl rfl
  | detach id => obtain ⟨-, rfl⟩ := Entry.detach_spec h; exact keep rfl rfl
  | setVoter v => obtain ⟨-, rfl⟩ := Entry.setVoter_spec h; exact keep rfl rfl
  | setTeam v => obtain ⟨-, rfl⟩ := Entry.setTeam_spec h; exact keep rfl rfl
  | setArtProxy v => obtain ⟨-, rfl⟩ := Entry.setArtProxy_spec h; exact keep rfl rfl

/-- The runs in which no deposit carries `VE_SUPPLY` to `2^128`. -/
def NoSupplyWrap (s : VeState) (_ : Env) (c : Call) : Prop :=
  ∀ id value, c.deposit s = some (id, value) → s.veSupply + value < 2 ^ 128

/-- **One call's accounting.** A call raises `VE_SUPPLY` by what it pays into custody, and a
merge by `from`'s amount a second time; the locked amounts grow by what is paid in. -/
theorem step_accounting (hi : LockInvariant t s) (ht : t ≤ currentBlockTimestampSeconds env)
    (hv : s.veSupply < 2 ^ 128) (hw : NoSupplyWrap s env c) {ids : Finset Nat}
    (hsupp : ∀ id ∉ ids, s.locked id = LockedBalance.default)
    (hcov : lockedTotal s.locked ids ≤ s.veSupply) (h : step env s c = .ok s') :
    LockInvariant (currentBlockTimestampSeconds env) s' ∧ s'.veSupply < 2 ^ 128 ∧
      s'.veSupply = s.veSupply + (c.inflow + c.recounted s) ∧
      ∃ ids' : Finset Nat, (∀ id ∉ ids', s'.locked id = LockedBalance.default) ∧
        lockedTotal s'.locked ids' = lockedTotal s.locked ids + c.inflow := by
  have hnw : NoAmountWrap s env c := fun id value hd => by
    have hle : (s.locked id).amount ≤ lockedTotal s.locked ids := by
      by_cases hid : id ∈ ids
      · exact le_lockSum hid
      · simp [hsupp id hid]
    have := hw id value hd
    omega
  have hi' := (hi.step ht hnw h).1
  obtain ⟨ids', hsupp', hcust⟩ := (hi.refines hnw h).custody fun id hid =>
    (hi.positions_eq_none id).2 (hsupp id hid)
  rw [hi.custody_positions, hi'.custody_positions] at hcust
  have hdv : s.veSupply + ((c.deposit s).map Prod.snd).getD 0 < 2 ^ 128 := by
    cases hd : c.deposit s with
    | none => simpa using hv
    | some d => simpa using hw d.1 d.2 hd
  have hv' : s'.veSupply = s.veSupply + (c.inflow + c.recounted s) := by
    rw [step_veSupply hv h, ← Call.deposit_value]; exact wrapU128_of_lt hdv
  refine ⟨hi', by rw [step_veSupply hv h]; exact wrapU128_lt _, hv', ids',
    fun id hid => (hi'.positions_eq_none id).1 (hsupp' id hid), ?_⟩
  rw [← Call.deposit_value] at hv'
  omega

/-- `VE_SUPPLY` is within `u128` and covers the locks, which a finite set of ids holds, and the
locks keep their invariant. -/
structure SupplyCovers (t : Nat) (s : VeState) : Prop where
  locks : LockInvariant t s
  bounded : s.veSupply < 2 ^ 128
  covers : ∃ ids : Finset Nat, (∀ id ∉ ids, s.locked id = LockedBalance.default) ∧
    lockedTotal s.locked ids ≤ s.veSupply

theorem reachable_supplyCovers (h : Reachable NoSupplyWrap t s) : SupplyCovers t s := by
  induction h with
  | genesis env =>
    exact ⟨genesis_lockInvariant env, by simp [genesis], ∅, fun _ _ => rfl,
      by simp [lockedTotal, lockSum]⟩
  | step env c _ ht hw hs ih =>
    obtain ⟨ids, hsupp, hcov⟩ := ih.covers
    obtain ⟨hi', hv', hrise, ids', hsupp', hacc⟩ :=
      step_accounting ih.locks ht ih.bounded hw hsupp hcov hs
    exact ⟨hi', hv', ids', hsupp', by omega⟩

end Supply

theorem Reachable.mono {P Q : VeState → Env → Call → Prop} (hPQ : ∀ s env c, P s env c → Q s env c)
    {t : Nat} {s : VeState} (h : Reachable P t s) : Reachable Q t s := by
  induction h with
  | genesis env => exact .genesis env
  | step env c _ ht hp hs ih => exact .step env c ih ht (hPQ _ _ _ hp) hs

/-- **`VE_SUPPLY` covers the locked amounts, exactly when nothing was merged.** In every run
where no deposit carries `VE_SUPPLY` past `u128`, each call raises `VE_SUPPLY` by what it pays
into custody and, for a merge, by `from`'s amount a second time, while the locked amounts grow by
what is paid in; so the locks, all held by a finite set of ids, hold at most `VE_SUPPLY` in all,
and in every such run without a merge they hold exactly `VE_SUPPLY`. -/
theorem veSupply_covers_locked :
    (∀ {t : Nat} {s s' : VeState} {env : Env} {c : Call}, Reachable NoSupplyWrap t s →
      t ≤ currentBlockTimestampSeconds env → NoSupplyWrap s env c → step env s c = .ok s' →
      s'.veSupply = s.veSupply + (c.inflow + c.recounted s) ∧
        ∃ ids ids' : Finset Nat, (∀ id ∉ ids, s.locked id = LockedBalance.default) ∧
          (∀ id ∉ ids', s'.locked id = LockedBalance.default) ∧
          lockedTotal s'.locked ids' = lockedTotal s.locked ids + c.inflow) ∧
    (∀ {t : Nat} {s : VeState}, Reachable NoSupplyWrap t s → ∃ ids : Finset Nat,
      (∀ id ∉ ids, s.locked id = LockedBalance.default) ∧ lockedTotal s.locked ids ≤ s.veSupply) ∧
    ∀ {t : Nat} {s : VeState},
      Reachable (fun s env c => NoSupplyWrap s env c ∧ NoMerge s env c) t s →
      ∃ ids : Finset Nat, (∀ id ∉ ids, s.locked id = LockedBalance.default) ∧
        lockedTotal s.locked ids = s.veSupply := by
  refine ⟨fun hr ht hw hs => ?_, fun h => (reachable_supplyCovers h).covers, fun h => ?_⟩
  · have hc := reachable_supplyCovers hr
    obtain ⟨ids, hsupp, hcov⟩ := hc.covers
    obtain ⟨-, -, hrise, ids', hsupp', hacc⟩ :=
      step_accounting hc.locks ht hc.bounded hw hsupp hcov hs
    exact ⟨hrise, ids, ids', hsupp, hsupp', hacc⟩
  induction h with
  | genesis env => exact ⟨∅, fun _ _ => rfl, by simp [genesis, lockedTotal, lockSum]⟩
  | step env c hr ht hw hs ih =>
    have hc := reachable_supplyCovers (hr.mono fun _ _ _ h => h.1)
    obtain ⟨ids, hsupp, heq⟩ := ih
    obtain ⟨-, -, hrise, ids', hsupp', hacc⟩ :=
      step_accounting hc.locks ht hc.bounded hw.1 hsupp heq.le hs
    have hrec (s₀ : VeState) : c.recounted s₀ = 0 := by
      cases c with
      | merge fromId toId => exact absurd rfl (hw.2 fromId toId)
      | _ => rfl
    rw [hrec] at hrise
    exact ⟨ids', hsupp', by omega⟩

theorem merged_reachable_noSupplyWrap : Reachable NoSupplyWrap week merged :=
  .step (atTime aliceKey week) (.merge 1 2)
    (.step (atTime aliceKey week) lockHundred
      (.step (atTime aliceKey week) lockMaxtime (.genesis _) le_rfl
        (fun _ _ h => by cases h; decide) rfl)
      le_rfl (fun _ _ h => by cases h; decide) rfl)
    le_rfl (fun _ _ h => by cases h; decide) rfl

theorem twoLocks_reachable_noSupplyWrap_noMerge :
    Reachable (fun s env c => NoSupplyWrap s env c ∧ NoMerge s env c) week twoLocks :=
  .step (atTime aliceKey week) lockHundred
    (.step (atTime aliceKey week) lockMaxtime (.genesis _) le_rfl
      ⟨fun _ _ h => by cases h; decide, fun _ _ h => by cases h⟩ rfl)
    le_rfl ⟨fun _ _ h => by cases h; decide, fun _ _ h => by cases h⟩ rfl

theorem veSupply_covers_locked_merged :
    (Reachable NoSupplyWrap week twoLocks ∧
      week ≤ currentBlockTimestampSeconds (atTime aliceKey week) ∧
      NoSupplyWrap twoLocks (atTime aliceKey week) (.merge 1 2) ∧
      step (atTime aliceKey week) twoLocks (.merge 1 2) = .ok merged ∧
      (merged.veSupply = twoLocks.veSupply +
          ((Call.merge 1 2).inflow + (Call.merge 1 2).recounted twoLocks) ∧
        ∃ ids ids' : Finset Nat, (∀ id ∉ ids, twoLocks.locked id = LockedBalance.default) ∧
          (∀ id ∉ ids', merged.locked id = LockedBalance.default) ∧
          lockedTotal merged.locked ids' =
            lockedTotal twoLocks.locked ids + (Call.merge 1 2).inflow)) ∧
    Reachable NoSupplyWrap week merged ∧
      Reachable (fun s env c => NoSupplyWrap s env c ∧ NoMerge s env c) week twoLocks ∧
      (∃ ids : Finset Nat, (∀ id ∉ ids, merged.locked id = LockedBalance.default) ∧
        lockedTotal merged.locked ids ≤ merged.veSupply) ∧
      ∃ ids : Finset Nat, (∀ id ∉ ids, twoLocks.locked id = LockedBalance.default) ∧
        lockedTotal twoLocks.locked ids = twoLocks.veSupply :=
  have htwo : Reachable NoSupplyWrap week twoLocks :=
    twoLocks_reachable_noSupplyWrap_noMerge.mono fun _ _ _ h => h.1
  have ht : week ≤ currentBlockTimestampSeconds (atTime aliceKey week) := le_rfl
  have hw : NoSupplyWrap twoLocks (atTime aliceKey week) (.merge 1 2) := fun _ _ h => by
    cases h; decide
  ⟨⟨htwo, ht, hw, rfl, veSupply_covers_locked.1 htwo ht hw rfl⟩,
    merged_reachable_noSupplyWrap, twoLocks_reachable_noSupplyWrap_noMerge,
    veSupply_covers_locked.2.1 merged_reachable_noSupplyWrap,
    veSupply_covers_locked.2.2 twoLocks_reachable_noSupplyWrap_noMerge⟩

end VotingEscrow
