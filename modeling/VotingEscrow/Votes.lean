import VotingEscrow.Contract

/-!
# Delegate checkpoints over runs

Every call writes the delegate checkpoints only through `appendCheckpoint`, at most four times
(`step_writes`: a merge burns one id, which is two moves of two writes each). A write goes to
the slot `count - 1` or `count` and raises the count by one, so in every reachable state the
slot at index `NUM_CHECKPOINTS` is empty (`reachable_unwrittenAbove`), as long as no count
comes within four of wrapping. `get_votes` reads exactly that slot: it is `0` for every account
in every such state, while `get_past_votes` at the same time reads the latest checkpoint.

Delegation itself starts from `_delegates`, which returns the stored delegate, and the null key
when none is stored, because `is_null` holds of no key; the `delegates` entry point reports its
argument instead (`delegates_misses_null_sentinel`). `_create_lock` moves the new id from the
null key to `_delegates(to)`; for a recipient that never delegated both are the null key, and
the move writes nothing.

No write sets a checkpoint's `timestamp`: a move copies the slot it writes and only appends ids,
so every checkpoint keeps the `0` of `Checkpoint::default()` (`reachable_checkpoint_timestamp`),
and `_get_past_votes_index` takes the latest checkpoint at every time. And the destination of
`_move_token_delegates` copies its current ids without the moved one, where it should add it.
-/

namespace VotingEscrow

/-! ## Calls write at most four checkpoints -/

section Writes

variable {env : Env} {s s' : VeState}

theorem createLockFor_writes {amount lockDuration : Nat} {recipient : Key}
    (h : Entry.createLockFor env s amount lockDuration recipient = .ok s') :
    CheckpointWrites 2 s s' := by
  obtain ⟨-, r, hr, rfl⟩ := Entry.createLockFor_spec h
  refine (CheckpointWrites.pre ?_ (createLock_writes hr)).frame ?_ <;> exact ⟨rfl, rfl⟩

theorem merge_writes {fromId toId : Nat} (h : Entry.merge env s fromId toId = .ok s') :
    CheckpointWrites 4 s s' := by
  obtain ⟨-, -, -, s₁, hb, rfl⟩ := Entry.merge_spec h
  refine (CheckpointWrites.pre ?_ (burnNft_writes hb)).frame depositFor_sameCheckpoints
  simp [SameCheckpoints, checkPoint]

/-- The calls other than create, merge and delegate keep the delegate checkpoints. -/
theorem step_sameCheckpoints_of_no_move {c : Call} (h : step env s c = .ok s')
    (hc : ∀ a d r, c ≠ .createLock a d ∧ c ≠ .createLockFor a d r)
    (hm : ∀ f t, c ≠ .merge f t)
    (hd : ∀ d, c ≠ .delegate d) : SameCheckpoints s s' := by
  cases c with
  | createLock a d => exact absurd rfl (hc a d env.caller).1
  | createLockFor a d r => exact absurd rfl (hc a d r).2
  | merge f t => exact absurd rfl (hm f t)
  | delegate d => exact absurd rfl (hd d)
  | depositFor id amount =>
    obtain ⟨-, -, -, rfl⟩ := Entry.depositFor_spec h
    exact depositFor_sameCheckpoints
  | increaseAmount id amount =>
    obtain ⟨-, -, -, -, -, rfl⟩ := Entry.increaseAmount_spec h
    simp [SameCheckpoints, VotingEscrow.depositFor, checkPoint]
  | increaseAmountFor id amount =>
    obtain ⟨-, -, -, -, rfl⟩ := Entry.increaseAmountFor_spec h
    exact depositFor_sameCheckpoints
  | increaseUnlockTime id d =>
    obtain ⟨-, -, -, -, -, -, rfl⟩ := Entry.increaseUnlockTime_spec h
    simp [SameCheckpoints, VotingEscrow.depositFor, checkPoint]
  | checkPoint =>
    cases h
    simp [SameCheckpoints, Entry.checkPoint, checkPoint]
  | voting id => obtain ⟨-, rfl⟩ := Entry.setVoted_spec h; exact ⟨rfl, rfl⟩
  | abstain id => obtain ⟨-, rfl⟩ := Entry.setVoted_spec h; exact ⟨rfl, rfl⟩
  | attach id => obtain ⟨-, rfl⟩ := Entry.attach_spec h; exact ⟨rfl, rfl⟩
  | detach id => obtain ⟨-, rfl⟩ := Entry.detach_spec h; exact ⟨rfl, rfl⟩
  | setVoter v => obtain ⟨-, rfl⟩ := Entry.setVoter_spec h; exact ⟨rfl, rfl⟩
  | setTeam t => obtain ⟨-, rfl⟩ := Entry.setTeam_spec h; exact ⟨rfl, rfl⟩
  | setArtProxy _ => obtain ⟨-, rfl⟩ := Entry.setArtProxy_spec h; exact ⟨rfl, rfl⟩

/-- One call makes at most four checkpoint writes. -/
theorem step_writes {c : Call} (h : step env s c = .ok s') : CheckpointWrites 4 s s' := by
  by_cases hc : ∃ a d r, c = .createLock a d ∨ c = .createLockFor a d r
  · obtain ⟨a, d, r, rfl | rfl⟩ := hc <;>
      exact (createLockFor_writes h).mono (show 2 ≤ 4 by omega)
  by_cases hm : ∃ f t, c = .merge f t
  · obtain ⟨f, t, rfl⟩ := hm
    exact merge_writes h
  by_cases hd : ∃ d, c = .delegate d
  · obtain ⟨d, rfl⟩ := hd
    refine .pre ?_ ((moveAllDelegates_writes (Entry.delegate_spec h)).mono (show 2 ≤ 4 by omega))
    exact ⟨rfl, rfl⟩
  push_neg at hc hm hd
  exact .keep (step_sameCheckpoints_of_no_move h hc hm hd)

end Writes

/-! ## The slot `get_votes` reads -/

/-- The runs this section covers: every call starts with each checkpoint count at least four
writes from wrapping at `2^64`. -/
def CountsBelowWrap (s : VeState) (_ : Env) (_ : Call) : Prop :=
  ∀ a, getNumCheckpoints s a + 4 < 2 ^ 64

theorem reachable_unwrittenAbove {t : Nat} {s : VeState} (h : Reachable CountsBelowWrap t s) :
    UnwrittenAbove 0 s := by
  induction h with
  | genesis env => intro a; simp [getNumCheckpoints, getCheckPoint, genesis]
  | step env c _ _ hallowed hstep ih =>
    exact UnwrittenAbove.of_writes (step_writes hstep) fun a => ⟨hallowed a, (ih a).2⟩

/-- `get_votes` reads the slot at index `NUM_CHECKPOINTS`, which no call has written: it returns
`0` for every account in every reachable state. -/
theorem getVotes_eq_zero {t : Nat} {s : VeState} (h : Reachable CountsBelowWrap t s) (env : Env)
    (a : Key) : getVotes env s a = 0 := by
  have hslot := (reachable_unwrittenAbove h a).2 _ le_rfl
  simp [getVotes, hslot, Checkpoint.default, sumBalances]

/-! ## Creating a lock for an account that never delegated -/

/-- `_create_lock` for a recipient with no stored delegate writes no delegate checkpoint: the id
moves from the null key to `_delegates(to)`, the null key again. -/
theorem createLock_sameCheckpoints_of_no_delegate {env : Env} {s : VeState}
    {value lockDuration : Nat} {recipient : Key} {r : VeState × Nat}
    (hd : s.delegates (keyToStr recipient) = none)
    (h : createLock env s value lockDuration recipient = .ok r) : SameCheckpoints s r.1 := by
  obtain ⟨-, -, -, nft, s₁, -, hmv, rfl⟩ := createLock_spec h
  have hnull : delegates { s with nft } recipient = nullKey := by
    simp [delegates_eq_getDelegate, getDelegate, hd]
  rw [hnull, moveTokenDelegates, if_neg (by simp)] at hmv
  cases hmv
  exact depositFor_sameCheckpoints

/-- `oneLock` holds no delegate checkpoint: its `create_lock` was for `aliceKey`, who had no
stored delegate. -/
theorem oneLock_numCheckpoints (a : Key) : getNumCheckpoints oneLock a = 0 := by
  have hs : step (atTime aliceKey week) (genesis (atTime aliceKey week)) lockMaxtime =
      .ok oneLock := rfl
  obtain ⟨-, r, hr, hone⟩ := Entry.createLockFor_spec hs
  rw [hone]
  exact congrFun (createLock_sameCheckpoints_of_no_delegate rfl hr).2 (keyToStr a)

/-- **A created lock is not in its owner's checkpoints.** In `oneLock`, `aliceKey` (not the null
key, with no stored delegate) owns the live id 1, yet has no delegate checkpoint at all. -/
theorem createLock_owner_has_no_checkpoint :
    Reachable (fun _ _ _ => True) week oneLock ∧ aliceKey ≠ nullKey ∧
      oneLock.nft.ownerOf 1 = some aliceKey ∧ oneLock.delegates (keyToStr aliceKey) = none ∧
      getNumCheckpoints oneLock aliceKey = 0 :=
  ⟨oneLock_reachable, by decide, by decide, by decide, oneLock_numCheckpoints aliceKey⟩

/-! ## `get_votes` after a delegation -/

/-- The state after `aliceKey` delegates to `bobKey` in `oneLock`, in the same block. -/
def delegated : VeState := afterCall (atTime aliceKey week) oneLock (.delegate bobKey)

/-- `delegated` is a run of this section. -/
theorem delegated_reachable_countsBelowWrap : Reachable CountsBelowWrap week delegated :=
  have hone : Reachable CountsBelowWrap week oneLock := .step (atTime aliceKey week) lockMaxtime
    (.genesis _) le_rfl (fun _ => show 0 + 4 < 2 ^ 64 by decide) rfl
  .step (atTime aliceKey week) (.delegate bobKey) hone le_rfl
    (fun a => by rw [oneLock_numCheckpoints]; decide) rfl

/-- **`get_votes` disagrees with `get_past_votes` at the current time.** After `aliceKey`
delegates its one lock to `bobKey`, `bobKey`'s latest checkpoint holds id 1 and
`get_past_votes(bobKey, now)` is the lock's `2 * WEEK`, while `get_votes(bobKey)` is `0`. -/
theorem getVotes_ne_getPastVotes_now :
    Reachable (fun _ _ _ => True) week delegated ∧
      (getCheckPoint delegated bobKey (getNumCheckpoints delegated bobKey - 1)).tokenIds = [1] ∧
      getVotes (atTime aliceKey week) delegated bobKey = 0 ∧
      getPastVotes delegated bobKey week = 2 * week :=
  ⟨.step (atTime aliceKey week) (.delegate bobKey) oneLock_reachable le_rfl trivial rfl,
    by decide, getVotes_eq_zero delegated_reachable_countsBelowWrap _ _, by decide⟩

/-! ## Checkpoint timestamps -/

/-- A write copies the slot it writes and appends ids to it: it keeps every timestamp `0`. -/
theorem CheckpointWrites.timestamp {n : Nat} {s s' : VeState} (hw : CheckpointWrites n s s')
    (h : ∀ a i, (getCheckPoint s a i).timestamp = 0) :
    ∀ a i, (getCheckPoint s' a i).timestamp = 0 := by
  induction hw with
  | keep hs => intro a i; simp only [getCheckPoint, hs.1]; exact h a i
  | append env rep ids _ ih =>
    intro a i
    rw [getCheckPoint_appendCheckpoint]
    split
    · exact ih h rep i
    · exact ih h a i
  | frame _ hs ih => intro a i; simp only [getCheckPoint, hs.1]; exact ih h a i

/-- In every reachable state every delegate checkpoint has timestamp `0`. -/
theorem reachable_checkpoint_timestamp {allowed : VeState → Env → Call → Prop} {t : Nat}
    {s : VeState} (h : Reachable allowed t s) : ∀ a i, (getCheckPoint s a i).timestamp = 0 := by
  induction h with
  | genesis env => intro a i; rfl
  | step env c _ _ _ hstep ih => exact (step_writes hstep).timestamp ih

/-- **Checkpoints carry no time.** `bobKey`'s one checkpoint in `delegated`, written at `WEEK`,
has timestamp `0`, as has every checkpoint. So `get_past_votes(bobKey, WEEK - 1)`, a second
before the delegation and before id 1 existed, counts id 1, at `2 * WEEK + 1`. -/
theorem getPastVotes_counts_token_before_delegation :
    Reachable (fun _ _ _ => True) week delegated ∧ getNumCheckpoints delegated bobKey = 1 ∧
      getCheckPoint delegated bobKey 0 = ⟨0, [1]⟩ ∧
      (∀ a i, (getCheckPoint delegated a i).timestamp = 0) ∧
      getPastVotesIndex delegated bobKey (week - 1) = 0 ∧
      getPastVotes delegated bobKey (week - 1) = 2 * week + 1 :=
  have h : Reachable (fun _ _ _ => True) week delegated :=
    .step (atTime aliceKey week) (.delegate bobKey) oneLock_reachable le_rfl trivial rfl
  ⟨h, by decide, by decide, reachable_checkpoint_timestamp h, by decide, by decide⟩

/-! ## A created lock moved to a delegate -/

/-- The contract installed at week 1, after `aliceKey`, holding no lock, delegates to `bobKey`. -/
def delegatedFirst : VeState :=
  afterCall (atTime aliceKey week) (genesis (atTime aliceKey week)) (.delegate bobKey)

/-- `delegatedFirst`, then `aliceKey` creates `lockMaxtime` (id 1) in the same block. -/
def lockAfterDelegate : VeState := afterCall (atTime aliceKey week) delegatedFirst lockMaxtime

/-- **A new lock is not added to its owner's delegate.** `_create_lock` moves id 1 from the null
key to `aliceKey`'s delegate `bobKey`, but writes `bobKey`'s current ids without id 1: its latest
checkpoint is empty while `aliceKey` owns id 1. -/
theorem createLock_leaves_token_out_of_delegate :
    Reachable (fun _ _ _ => True) week lockAfterDelegate ∧
      delegates delegatedFirst aliceKey = bobKey ∧
      lockAfterDelegate.nft.ownerOf 1 = some aliceKey ∧
      getNumCheckpoints lockAfterDelegate bobKey = 2 ∧
      (getCheckPoint lockAfterDelegate bobKey 1).tokenIds = [] :=
  ⟨.step (atTime aliceKey week) lockMaxtime
    (.step (atTime aliceKey week) (.delegate bobKey) (.genesis _) le_rfl trivial rfl)
    le_rfl trivial rfl, by decide, by decide, by decide, by decide⟩

/-! ## What `delegates` reports -/

/-- **The null-delegate sentinel is never recognised.** `is_null` compares a key's 33-byte
encoding with 32 zero bytes, so it holds of no key, `null_key()` included. `_delegates` returns
the stored delegate, and for an account with none the null key rather than the account; and the
`delegates` entry point returns its argument whatever is stored: after `aliceKey` delegates to
`bobKey` it reports `aliceKey`, where `_delegates` gives `bobKey`. -/
theorem delegates_misses_null_sentinel :
    (∀ k : Key, isNull k = false) ∧
      (∀ (s : VeState) (a : Key), s.delegates (keyToStr a) = none → delegates s a = nullKey) ∧
      (∀ (s : VeState) (a d : Key), s.delegates (keyToStr a) = some d → delegates s a = d) ∧
      delegates (genesis (atTime aliceKey week)) aliceKey ≠ aliceKey ∧
      Reachable (fun _ _ _ => True) week delegated ∧
      delegates delegated aliceKey = bobKey ∧ Entry.delegates aliceKey = aliceKey :=
  ⟨isNull_eq_false, fun s a h => by simp [delegates_eq_getDelegate, getDelegate, h],
    fun s a d h => by simp [delegates_eq_getDelegate, getDelegate, h], by decide,
    .step (atTime aliceKey week) (.delegate bobKey) oneLock_reachable le_rfl trivial rfl,
    by decide, rfl⟩

theorem delegates_misses_null_sentinel_samples :
    delegates (genesis (atTime aliceKey week)) bobKey = nullKey ∧
      delegates delegated aliceKey = bobKey :=
  ⟨delegates_misses_null_sentinel.2.1 _ bobKey rfl,
    delegates_misses_null_sentinel.2.2.1 _ aliceKey bobKey (by decide)⟩

end VotingEscrow
