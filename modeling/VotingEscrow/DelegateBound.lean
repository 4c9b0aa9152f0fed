import VotingEscrow.Votes

/-!
# The delegate set bound

`_move_token_delegates` and `_move_all_delegates` check `MAX_DELEGATES` on the destination: its
current ids and the ids moved in may number at most 1024. The write then goes to the slot
`_find_what_checkpoint_to_write` names, and is appended to what that slot already holds. That
slot is the latest one when its timestamp is the block's second. No write sets a timestamp
(`reachable_checkpoint_timestamp`), so this happens exactly in the blocks of second `0`, and there
a move writes the destination's current ids onto themselves: the check counts them once, the
checkpoint holds them twice.

Away from second 0 every write goes to the fresh slot at the count and stores what the check
counted, or a filter of a stored checkpoint, so in every run whose calls come at a nonzero second
every checkpoint holds at most 1024 ids (`delegateSets_bounded_away_from_zero`). At second 0 the
bound fails in a reachable state: `aliceKey` creates 513 locks and delegates them to `bobKey`,
then `carolKey`, who holds none, delegates to `bobKey` in the same block. The check passes
(`513 + 0 ≤ 1024`) and `bobKey`'s checkpoint holds 1026 ids (`delegate_overfills_checkpoint`).
-/

namespace VotingEscrow

/-! ## A move from the null key -/

section Moves

variable {env : Env} {s : VeState}

@[simp] theorem appendCheckpoint_nft {rep : Key} {ids : List Nat} :
    (appendCheckpoint env s rep ids).nft = s.nft := rfl

@[simp] theorem appendCheckpoint_delegates {rep : Key} {ids : List Nat} :
    (appendCheckpoint env s rep ids).delegates = s.delegates := rfl

/-! `set_delegate` writes no checkpoint. -/

@[simp] theorem getNumCheckpoints_setDelegate (a d b : Key) :
    getNumCheckpoints (setDelegate s a d) b = getNumCheckpoints s b := rfl

@[simp] theorem getCheckPoint_setDelegate (a d b : Key) (i : Nat) :
    getCheckPoint (setDelegate s a d) b i = getCheckPoint s b i := rfl

@[simp] theorem repOld_setDelegate (a d b : Key) : repOld (setDelegate s a d) b = repOld s b := rfl

/-- A write for `rep` leaves the current ids of an account that shares neither its key nor its
count. -/
theorem repOld_appendCheckpoint_of_ne {rep a : Key} {ids : List Nat} (h : a ≠ rep)
    (hk : keyToStr a ≠ keyToStr rep) :
    repOld (appendCheckpoint env s rep ids) a = repOld s a := by
  simp only [repOld, getNumCheckpoints_appendCheckpoint, if_neg hk,
    getCheckPoint_appendCheckpoint, h, false_and, if_false]

/-- `_move_all_delegates` from the null key, whose current checkpoint is empty: the null key's
empty write, then `dst`'s current ids and the owner's appended to `dst`'s slot, when the check
passes. -/
theorem moveAllDelegates_from_nullKey {owner dst : Key} (hdst : dst ≠ nullKey)
    (hk : keyToStr dst ≠ keyToStr nullKey) (hnull : (repOld s nullKey).tokenIds = [])
    (hbound : (repOld s dst).tokenIds.length + s.nft.balanceOf owner ≤ maxDelegates) :
    moveAllDelegates env s owner nullKey dst =
      .ok (appendCheckpoint env (appendCheckpoint env s nullKey []) dst
        ((repOld s dst).tokenIds ++ s.nft.ownedTokens owner)) := by
  unfold moveAllDelegates
  rw [if_neg (Ne.symm hdst)]
  simp [hnull, repOld_appendCheckpoint_of_ne hdst hk, hbound]

end Moves

/-! ## Away from second 0 -/

/-- The delegate checkpoints where a move writes a fresh slot: every count at least `k` writes
from wrapping with nothing at or above it, every timestamp `0`, every checkpoint within the
bound. -/
structure FreshSlots (k : Nat) (s : VeState) : Prop where
  unwritten : UnwrittenAbove k s
  timestamp : ∀ a i, (getCheckPoint s a i).timestamp = 0
  bounded : ∀ a i, (getCheckPoint s a i).tokenIds.length ≤ maxDelegates

namespace FreshSlots

variable {k : Nat} {s s' : VeState} {env : Env}

theorem of_same (h : FreshSlots k s) (hs : SameCheckpoints s s') : FreshSlots k s' :=
  ⟨UnwrittenAbove.of_writes (n := 0) (.keep hs) h.unwritten,
    (CheckpointWrites.keep (n := 0) hs).timestamp h.timestamp,
    fun a i => by simpa [getCheckPoint, hs.1] using h.bounded a i⟩

theorem mono {j : Nat} (h : FreshSlots (k + j) s) : FreshSlots k s :=
  ⟨h.unwritten.of_writes (.refl j s), h.timestamp, h.bounded⟩

theorem repOld_length (h : FreshSlots k s) (a : Key) :
    (repOld s a).tokenIds.length ≤ maxDelegates := by
  unfold repOld; dsimp only; split <;> exact h.bounded _ _

/-- A write outside second 0 stores its ids in the fresh slot at the count. -/
theorem appendCheckpoint (h : FreshSlots (k + 1) s) (hnow : currentBlockTimestampSeconds env ≠ 0)
    (rep : Key) (ids : List Nat) (hids : ids.length ≤ maxDelegates) :
    FreshSlots k (appendCheckpoint env s rep ids) := by
  refine ⟨h.unwritten.appendCheckpoint env rep ids,
    (CheckpointWrites.appendCheckpoint env s rep ids).timestamp h.timestamp, fun a i => ?_⟩
  have hnext : findWhatCheckpointToWrite env s rep = getNumCheckpoints s rep := by
    unfold findWhatCheckpointToWrite
    rw [if_neg fun hc => hnow (by rw [← hc.2, h.timestamp]; rfl)]
  rw [getCheckPoint_appendCheckpoint, hnext]
  split
  · rename_i hi
    obtain ⟨rfl, rfl⟩ := hi
    simpa [(h.unwritten a).2 _ le_rfl, Checkpoint.default] using hids
  · exact h.bounded a i

theorem moveTokenDelegates (h : FreshSlots (k + 2) s)
    (hnow : currentBlockTimestampSeconds env ≠ 0) {src dst : Key} {tokenId : Nat}
    (hmv : VotingEscrow.moveTokenDelegates env s src dst tokenId = .ok s') : FreshSlots k s' := by
  unfold VotingEscrow.moveTokenDelegates at hmv
  split at hmv
  · simp only [isNotNull_eq_true, if_true, require_bind_eq_ok, pure, Except.pure,
      Except.ok.injEq] at hmv
    have h₁ := h.appendCheckpoint hnow src ((repOld s src).tokenIds.filter (· != tokenId))
      ((List.length_filter_le _ _).trans (h.repOld_length src))
    rw [← hmv.2]
    exact h₁.appendCheckpoint hnow dst _ ((List.length_filter_le _ _).trans (h₁.repOld_length dst))
  · cases hmv
    exact h.mono

theorem moveAllDelegates (h : FreshSlots (k + 2) s)
    (hnow : currentBlockTimestampSeconds env ≠ 0) {owner src dst : Key}
    (hmv : VotingEscrow.moveAllDelegates env s owner src dst = .ok s') : FreshSlots k s' := by
  unfold VotingEscrow.moveAllDelegates at hmv
  simp only [isNotNull_eq_true, if_true] at hmv
  split_ifs at hmv
  · cases hmv
    exact h.mono
  · simp only [ok_bind, require_bind_eq_ok, decide_eq_true_eq, pure, Except.pure,
      Except.ok.injEq] at hmv
    have h₁ := h.appendCheckpoint hnow src
      ((repOld s src).tokenIds.filter fun tid => s.nft.ownerOf tid != some owner)
      ((List.length_filter_le _ _).trans (h.repOld_length src))
    rw [← hmv.2]
    refine h₁.appendCheckpoint hnow dst _ ?_
    rw [List.length_append]
    exact hmv.1
  · cases hmv

/-- **One call outside second 0 keeps every checkpoint within the bound.** -/
theorem step (h : FreshSlots 4 s) (hnow : currentBlockTimestampSeconds env ≠ 0) {c : Call}
    (hs : step env s c = .ok s') : FreshSlots 0 s' := by
  by_cases hc : ∃ a d r, c = .createLock a d ∨ c = .createLockFor a d r
  · have hcl : ∀ {amount d : Nat} {r : Key},
        Entry.createLockFor env s amount d r = .ok s' → FreshSlots 0 s' := fun hcl => by
      obtain ⟨-, r, hr, rfl⟩ := Entry.createLockFor_spec hcl
      obtain ⟨-, -, -, _, _, -, hmv, rfl⟩ := createLock_spec hr
      have h₁ : FreshSlots 2 _ := (h.of_same (by exact ⟨rfl, rfl⟩)).moveTokenDelegates hnow hmv
      exact ((h₁.of_same depositFor_sameCheckpoints).mono (j := 2)).of_same ⟨rfl, rfl⟩
    obtain ⟨a, d, r, rfl | rfl⟩ := hc <;> exact hcl hs
  by_cases hm : ∃ f t, c = .merge f t
  · obtain ⟨f, t, rfl⟩ := hm
    obtain ⟨-, -, -, s₁, hb, rfl⟩ := Entry.merge_spec hs
    obtain ⟨-, _, _, _, -, -, hmv, hmv'⟩ := burnNft_spec hb
    have h₁ : FreshSlots 2 _ :=
      (h.of_same (by simp [SameCheckpoints, checkPoint])).moveTokenDelegates hnow hmv
    exact (h₁.moveTokenDelegates hnow hmv').of_same depositFor_sameCheckpoints
  by_cases hd : ∃ d, c = .delegate d
  · obtain ⟨d, rfl⟩ := hd
    exact ((h.of_same (by exact ⟨rfl, rfl⟩)).moveAllDelegates hnow
      (Entry.delegate_spec hs)).mono (j := 2)
  push_neg at hc hm hd
  exact (h.mono (j := 4)).of_same (step_sameCheckpoints_of_no_move hs hc hm hd)

end FreshSlots

/-- The runs of this section: every call comes at a nonzero block second, with every checkpoint
count at least four writes from wrapping. -/
def AwayFromSecondZero (s : VeState) (env : Env) (c : Call) : Prop :=
  CountsBelowWrap s env c ∧ currentBlockTimestampSeconds env ≠ 0

/-- **Away from second 0 the delegate set bound holds.** In every run whose calls all come at a
nonzero block second, with every count at least four writes from wrapping, every delegate
checkpoint holds at most `MAX_DELEGATES` ids. -/
theorem delegateSets_bounded_away_from_zero {t : Nat} {s : VeState}
    (h : Reachable AwayFromSecondZero t s) (a : Key) (i : Nat) :
    (getCheckPoint s a i).tokenIds.length ≤ maxDelegates := by
  have : FreshSlots 0 s := by
    induction h with
    | genesis env =>
      exact ⟨fun a => by simp [getNumCheckpoints, getCheckPoint, genesis], fun _ _ => rfl,
        fun _ _ => by simp [getCheckPoint, genesis, Checkpoint.default, maxDelegates]⟩
    | step env c _ _ hallowed hstep ih =>
      exact FreshSlots.step ⟨fun a => ⟨hallowed.1 a, (ih.unwritten a).2⟩, ih.timestamp,
        ih.bounded⟩ hallowed.2 hstep
  exact this.bounded a i

theorem delegateSets_bounded_away_from_zero_delegated :
    Reachable AwayFromSecondZero week delegated ∧
      (getCheckPoint delegated bobKey 0).tokenIds.length ≤ maxDelegates :=
  have hone : Reachable AwayFromSecondZero week oneLock := .step (atTime aliceKey week) lockMaxtime
    (.genesis _) le_rfl ⟨fun _ => show 0 + 4 < 2 ^ 64 by decide, by decide⟩ rfl
  have h : Reachable AwayFromSecondZero week delegated := .step (atTime aliceKey week)
    (.delegate bobKey) hone le_rfl ⟨fun a => by rw [oneLock_numCheckpoints]; decide, by decide⟩ rfl
  ⟨h, delegateSets_bounded_away_from_zero h bobKey 0⟩

/-! ## Locks and delegations at second 0 -/

/-- An account key of 32 three-bytes. -/
def carolKey : Key := .account ⟨List.replicate 32 3, rfl⟩

/-- `create_lock` of `1` for a week. -/
def lockOneWeek : Call := .createLock ⟨1, by decide⟩ ⟨week, by decide⟩

/-- The contract installed at second 0, after `k` calls of `lockOneWeek` by `aliceKey` in that
block. -/
def locksAtZero : Nat → VeState
  | 0 => genesis (atTime aliceKey 0)
  | k + 1 => afterCall (atTime aliceKey 0) (locksAtZero k) lockOneWeek

/-- What `k` locks of `aliceKey` leave of the registry and of the delegation: the ids `1..k`,
all `aliceKey`'s, no stored delegate and no checkpoint. -/
structure OnlyAliceLocks (k : Nat) (s : VeState) : Prop where
  owned : s.nft.ownedTokens = Function.update (fun _ => []) aliceKey (List.range' 1 k)
  supply : s.nft.totalSupply = k
  free : ∀ i, k < i → s.nft.owners i = none
  delegates : s.delegates = fun _ => none
  checkpoints : s.checkpoints = fun _ _ => Checkpoint.default
  numCheckpoints : s.numCheckpoints = fun _ => 0
  unlocked : s.isLocked = false

namespace OnlyAliceLocks

variable {k : Nat} {s : VeState}

theorem genesis : OnlyAliceLocks 0 (genesis (atTime aliceKey 0)) :=
  ⟨(Function.update_eq_self aliceKey _).symm, rfl, fun _ _ => rfl, rfl, rfl, rfl, rfl⟩

/-- `lockOneWeek` at second 0 mints the next id to `aliceKey` and writes no checkpoint. -/
theorem succ (h : OnlyAliceLocks k s) :
    ∃ s', step (atTime aliceKey 0) s lockOneWeek = .ok s' ∧ OnlyAliceLocks (k + 1) s' := by
  have hts : currentBlockTimestampSeconds (atTime aliceKey 0) = 0 := rfl
  have hu : roundedUnlockTime 0 week = week := by decide
  have hc : (atTime aliceKey 0).caller = aliceKey := rfl
  set nft : Registry := ⟨Function.update s.nft.owners (k + 1) (some aliceKey),
    Function.update s.nft.ownedTokens aliceKey (s.nft.ownedTokens aliceKey ++ [k + 1]), k + 1⟩
  refine ⟨{ depositFor (atTime aliceKey 0) { s with isLocked := true, nft } (k + 1) 1 week
      (s.locked (k + 1)) with isLocked := false }, ?_, ?_⟩
  · simp [VotingEscrow.step, lockOneWeek, Entry.createLockFor, Entry.withLock, createLock,
      h.unlocked, Registry.mint, h.free, h.supply, moveTokenDelegates, delegates_eq_getDelegate,
      getDelegate, h.delegates, hts, hu, hc, wrapU64_of_lt (show maxtime < 2 ^ 64 by decide),
      show 0 < week by decide, show week ≤ maxtime by decide]
  · have hcp : SameCheckpoints { s with isLocked := true, nft } (depositFor (atTime aliceKey 0)
        { s with isLocked := true, nft } (k + 1) 1 week (s.locked (k + 1))) :=
      depositFor_sameCheckpoints
    refine ⟨?_, rfl, fun i hi => ?_, ?_, hcp.1.trans h.checkpoints, hcp.2.trans h.numCheckpoints,
      rfl⟩
    · simp [nft, h.owned, List.range'_concat, Nat.add_comm]
    · simp [nft, Function.update_noteq (show i ≠ k + 1 by omega), h.free i (by omega)]
    · simp [depositFor, checkPoint, h.delegates]

/-- `aliceKey`'s first delegation, to `bobKey` at second 0: the null key's empty write, then
`bobKey`'s first checkpoint, holding `aliceKey`'s ids. -/
theorem delegate (h : OnlyAliceLocks k s) (hk : k ≤ maxDelegates) :
    step (atTime aliceKey 0) s (.delegate bobKey) =
      .ok (appendCheckpoint (atTime aliceKey 0) (appendCheckpoint (atTime aliceKey 0)
        (setDelegate s aliceKey bobKey) nullKey []) bobKey (List.range' 1 k)) := by
  have hempty : ∀ a, repOld (setDelegate s aliceKey bobKey) a = Checkpoint.default := fun a => by
    simp [repOld, getNumCheckpoints, getCheckPoint, setDelegate, h.numCheckpoints, h.checkpoints]
  have howned : (setDelegate s aliceKey bobKey).nft.ownedTokens aliceKey = List.range' 1 k := by
    simp [setDelegate, h.owned]
  have hg : getDelegate s aliceKey = nullKey := by simp [getDelegate, h.delegates]
  show moveAllDelegates _ (setDelegate s aliceKey bobKey) aliceKey (getDelegate s aliceKey)
    bobKey = _
  rw [hg, moveAllDelegates_from_nullKey (by decide) (by decide) (by rw [hempty]; rfl)
    (by rw [hempty, Registry.balanceOf, howned, List.length_range']; show 0 + k ≤ _; omega),
    hempty, howned]
  rfl

/-- What `aliceKey`'s delegation leaves: `bobKey`'s one checkpoint, at slot 0, holds `aliceKey`'s
ids; the null key's current checkpoint is empty; `carolKey` has no delegate and no id. -/
theorem delegate_slots (h : OnlyAliceLocks k s) (hk : k ≤ maxDelegates) :
    getNumCheckpoints (afterCall (atTime aliceKey 0) s (.delegate bobKey)) bobKey = 1 ∧
      getCheckPoint (afterCall (atTime aliceKey 0) s (.delegate bobKey)) bobKey 0 =
        ⟨0, List.range' 1 k⟩ ∧
      repOld (afterCall (atTime aliceKey 0) s (.delegate bobKey)) nullKey = Checkpoint.default ∧
      getDelegate (afterCall (atTime aliceKey 0) s (.delegate bobKey)) carolKey = nullKey ∧
      (afterCall (atTime aliceKey 0) s (.delegate bobKey)).nft.ownedTokens carolKey = [] := by
  have hb : keyToStr bobKey ≠ keyToStr nullKey := by decide
  have hb' : bobKey ≠ nullKey := by decide
  have hw : wrapU64 1 = 1 := rfl
  rw [afterCall_of_ok (h.delegate hk)]
  simp [repOld, getNumCheckpoints, getCheckPoint, getDelegate, setDelegate, appendCheckpoint,
    setCheckPoint, setNumCheckpoints, findWhatCheckpointToWrite, Function.update_apply,
    h.checkpoints, h.numCheckpoints, h.delegates, h.owned, hb, hb', hb.symm, hb'.symm,
    Checkpoint.default, hw, show keyToStr carolKey ≠ keyToStr aliceKey by decide,
    show carolKey ≠ aliceKey by decide]

/-- Then `carolKey`, with no lock and no delegate, delegates to `bobKey` in the same block: the
check reads `bobKey`'s `k` ids, and the write appends them to the slot that holds them already. -/
theorem delegate_twice (h : OnlyAliceLocks k s) (hk : k ≤ maxDelegates) :
    ∃ s₂, step (atTime carolKey 0) (afterCall (atTime aliceKey 0) s (.delegate bobKey))
        (.delegate bobKey) = .ok s₂ ∧
      (getCheckPoint s₂ bobKey 0).tokenIds = List.range' 1 k ++ List.range' 1 k := by
  obtain ⟨hn, hslot, hnull, hg, hcarol⟩ := h.delegate_slots hk
  have hb : keyToStr bobKey ≠ keyToStr nullKey := by decide
  have hb' : bobKey ≠ nullKey := by decide
  set s₁ := afterCall (atTime aliceKey 0) s (.delegate bobKey)
  have hrep : repOld (setDelegate s₁ carolKey bobKey) bobKey = ⟨0, List.range' 1 k⟩ := by
    simp [repOld, hn, hslot]
  have hnext : findWhatCheckpointToWrite (atTime carolKey 0)
      (appendCheckpoint (atTime carolKey 0) (setDelegate s₁ carolKey bobKey) nullKey []) bobKey =
        0 := by
    simp only [findWhatCheckpointToWrite, getNumCheckpoints_appendCheckpoint,
      getCheckPoint_appendCheckpoint, hb, hb', false_and, if_false, getNumCheckpoints_setDelegate,
      getCheckPoint_setDelegate, hn, hslot]
    rfl
  refine ⟨_, show moveAllDelegates _ (setDelegate s₁ carolKey bobKey) carolKey
      (getDelegate s₁ carolKey) bobKey = _ by
    rw [hg, moveAllDelegates_from_nullKey hb' hb (by rw [repOld_setDelegate, hnull]; rfl)
      (by rw [hrep, Registry.balanceOf]; simp [setDelegate, hcarol]; exact hk)], ?_⟩
  rw [getCheckPoint_appendCheckpoint, if_pos ⟨rfl, hnext.symm⟩, getCheckPoint_appendCheckpoint,
    if_neg fun h' => hb' h'.1, getCheckPoint_setDelegate, hslot, hrep]
  simp [setDelegate, hcarol]

end OnlyAliceLocks

theorem locksAtZero_spec (k : Nat) :
    Reachable (fun _ _ _ => True) 0 (locksAtZero k) ∧ OnlyAliceLocks k (locksAtZero k) := by
  induction k with
  | zero => exact ⟨.genesis (atTime aliceKey 0), .genesis⟩
  | succ k ih =>
    obtain ⟨s', hs, h'⟩ := ih.2.succ
    rw [locksAtZero, afterCall_of_ok hs]
    exact ⟨.step (atTime aliceKey 0) lockOneWeek ih.1 le_rfl trivial hs, h'⟩

/-- `locksAtZero 513`, then `aliceKey` delegates to `bobKey` in the same block. -/
def aliceDelegated : VeState := afterCall (atTime aliceKey 0) (locksAtZero 513) (.delegate bobKey)

/-- `aliceDelegated`, then `carolKey`, who holds no lock, delegates to `bobKey` in the same
block. -/
def carolDelegated : VeState := afterCall (atTime carolKey 0) aliceDelegated (.delegate bobKey)

/-- **A delegation at second 0 overfills a checkpoint.** After 513 locks of `aliceKey` and their
delegation to `bobKey` at second 0, `bobKey`'s one checkpoint holds 513 ids. `carolKey`, who
holds no lock, then delegates to `bobKey` in the same block: the check `513 + 0 ≤ 1024` passes,
the call succeeds, and the checkpoint it writes holds 1026 ids. -/
theorem delegate_overfills_checkpoint :
    Reachable (fun _ _ _ => True) 0 carolDelegated ∧
      getNumCheckpoints aliceDelegated bobKey = 1 ∧
      (getCheckPoint aliceDelegated bobKey 0).tokenIds.length = 513 ∧
      aliceDelegated.nft.balanceOf carolKey = 0 ∧
      step (atTime carolKey 0) aliceDelegated (.delegate bobKey) = .ok carolDelegated ∧
      (getCheckPoint carolDelegated bobKey 0).tokenIds.length = 1026 := by
  obtain ⟨hr, h⟩ := locksAtZero_spec 513
  obtain ⟨hn, hslot, -, -, hcarol⟩ := h.delegate_slots (by decide)
  obtain ⟨s₂, hs₂, hcp⟩ := h.delegate_twice (by decide)
  have hc : carolDelegated = s₂ := afterCall_of_ok hs₂
  have h₁ := h.delegate (show 513 ≤ maxDelegates by decide)
  have hr₁ : Reachable (fun _ _ _ => True) 0 aliceDelegated := by
    rw [aliceDelegated, afterCall_of_ok h₁]
    exact .step (atTime aliceKey 0) (.delegate bobKey) hr le_rfl trivial h₁
  refine ⟨hc ▸ .step (atTime carolKey 0) (.delegate bobKey) hr₁ le_rfl trivial hs₂, hn, ?_,
    by simp [Registry.balanceOf, aliceDelegated, hcarol], hc ▸ hs₂, ?_⟩
  · simp [aliceDelegated, hslot]
  · rw [hc, hcp]; simp

end VotingEscrow
