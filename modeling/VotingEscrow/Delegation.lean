import VotingEscrow.State

/-!
# Delegate checkpoints

Each account has a sequence of checkpoints, each a list of token ids, and a count
(`NUM_CHECKPOINTS`). A move reads the account's current list (`repOld`: index `count - 1`, or
`0` for a fresh account), picks the slot `_find_what_checkpoint_to_write` names, appends the
new ids to whatever that slot already holds, and raises the count by one. The four moves of
`vedata.rs` differ only in which ids they append: `appendCheckpoint` is that shared write.
-/

namespace VotingEscrow

/-- `set_check_point`. -/
def setCheckPoint (s : VeState) (a : Key) (index : Nat) (cp : Checkpoint) : VeState :=
  { s with
    checkpoints := Function.update s.checkpoints a (Function.update (s.checkpoints a) index cp) }

/-- `set_num_checkpoints`. -/
def setNumCheckpoints (s : VeState) (a : Key) (n : Nat) : VeState :=
  { s with numCheckpoints := Function.update s.numCheckpoints (keyToStr a) n }

/-- `set_delegate`. -/
def setDelegate (s : VeState) (a d : Key) : VeState :=
  { s with delegates := Function.update s.delegates (keyToStr a) (some d) }

/-- `_delegates`: the stored delegate, or the delegator itself when that one is null. -/
def delegates (s : VeState) (delegator : Key) : Key :=
  let current := getDelegate s delegator
  if isNull current then delegator else current

/-- The checkpoint a move reads as the account's current ids (`src_rep_old`, `cp`). -/
def repOld (s : VeState) (a : Key) : Checkpoint :=
  let n := getNumCheckpoints s a
  if 0 < n then getCheckPoint s a (n - 1) else getCheckPoint s a 0

/-- `_find_what_checkpoint_to_write`: the latest slot if it carries the current time, else a
new one. -/
def findWhatCheckpointToWrite (env : Env) (s : VeState) (account : Key) : Nat :=
  let n := getNumCheckpoints s account
  if 0 < n ∧ wrapU64 (getCheckPoint s account (n - 1)).timestamp =
      currentBlockTimestampSeconds env then n - 1
  else n

/-- The write every move makes for `rep`: `ids` pushed onto the checkpoint at the chosen slot,
and `NUM_CHECKPOINTS` raised to `count + 1`. -/
def appendCheckpoint (env : Env) (s : VeState) (rep : Key) (ids : List Nat) : VeState :=
  let next := findWhatCheckpointToWrite env s rep
  let cpNew := getCheckPoint s rep next
  setNumCheckpoints (setCheckPoint s rep next { cpNew with tokenIds := cpNew.tokenIds ++ ids })
    rep (wrapU64 (getNumCheckpoints s rep + 1))

/-- `_move_token_delegates(src, dst, token_id)`. Both sides copy the current ids without
`token_id`; only the destination checks the `MAX_DELEGATES` bound. -/
def moveTokenDelegates (env : Env) (s : VeState) (src dst : Key) (tokenId : Nat) :
    Except VeError VeState :=
  if src ≠ dst ∧ 0 < tokenId then do
    let s := if isNotNull src then
        appendCheckpoint env s src ((repOld s src).tokenIds.filter (· != tokenId))
      else s
    if isNotNull dst then do
      require ((repOld s dst).tokenIds.length + 1 ≤ maxDelegates) .tooManyTokenIds
      pure (appendCheckpoint env s dst ((repOld s dst).tokenIds.filter (· != tokenId)))
    else pure s
  else pure s

/-- `_move_all_delegates(owner, src, dst)`. The source keeps the ids whose owner is not
`owner` (an `unwrap` of the owner of each, which panics on a burned id); the destination
appends every id `owner` holds. -/
def moveAllDelegates (env : Env) (s : VeState) (owner src dst : Key) :
    Except VeError VeState :=
  if src = dst then pure s else do
    let s ← if isNotNull src then
        if (repOld s src).tokenIds.all (fun tid => (s.nft.ownerOf tid).isSome) then
          pure (appendCheckpoint env s src
            ((repOld s src).tokenIds.filter (fun tid => s.nft.ownerOf tid != some owner)))
        else .error .unwrapNone
      else pure s
    if isNotNull dst then do
      require ((repOld s dst).tokenIds.length + s.nft.balanceOf owner ≤ maxDelegates)
        .tooManyTokenIds
      pure (appendCheckpoint env s dst ((repOld s dst).tokenIds ++ s.nft.ownedTokens owner))
    else pure s

/-- `is_null` holds of no key, so `_delegates` returns the stored delegate, and the null key for
an account that has none. -/
theorem delegates_eq_getDelegate (s : VeState) (delegator : Key) :
    delegates s delegator = getDelegate s delegator := by
  simp [delegates, isNull_eq_false]

/-! ## What one write changes -/

section Append

variable {env : Env} {s : VeState} {rep a : Key} {ids : List Nat}

theorem findWhatCheckpointToWrite_le (env : Env) (s : VeState) (a : Key) :
    findWhatCheckpointToWrite env s a ≤ getNumCheckpoints s a := by
  dsimp only [findWhatCheckpointToWrite]
  split <;> omega

/-- The count is shared by the keys of one text (`key_to_str`), the slots are per key. -/
theorem getNumCheckpoints_appendCheckpoint :
    getNumCheckpoints (appendCheckpoint env s rep ids) a =
      if keyToStr a = keyToStr rep then wrapU64 (getNumCheckpoints s rep + 1)
      else getNumCheckpoints s a := by
  simp only [getNumCheckpoints, appendCheckpoint, setNumCheckpoints, setCheckPoint,
    Function.update_apply]

theorem getCheckPoint_appendCheckpoint (i : Nat) :
    getCheckPoint (appendCheckpoint env s rep ids) a i =
      if a = rep ∧ i = findWhatCheckpointToWrite env s rep then
        { getCheckPoint s rep i with tokenIds := (getCheckPoint s rep i).tokenIds ++ ids }
      else getCheckPoint s a i := by
  unfold getCheckPoint appendCheckpoint setNumCheckpoints setCheckPoint
  by_cases ha : a = rep
  · subst ha
    by_cases hi : i = findWhatCheckpointToWrite env s a
    · subst hi
      simp [getCheckPoint]
    · simp [hi]
  · simp [ha]

end Append

/-! ## What a move writes -/

/-- `s'` differs from `s` at most in the delegate checkpoints and their counts. -/
def OnlyCheckpoints (s s' : VeState) : Prop :=
  ∃ cps nums, s' = { s with checkpoints := cps, numCheckpoints := nums }

theorem OnlyCheckpoints.rfl' (s : VeState) : OnlyCheckpoints s s := ⟨_, _, rfl⟩

theorem OnlyCheckpoints.trans {s₁ s₂ s₃ : VeState} (h₁ : OnlyCheckpoints s₁ s₂)
    (h₂ : OnlyCheckpoints s₂ s₃) : OnlyCheckpoints s₁ s₃ := by
  obtain ⟨_, _, rfl⟩ := h₁
  obtain ⟨_, _, rfl⟩ := h₂
  exact ⟨_, _, rfl⟩

theorem appendCheckpoint_onlyCheckpoints (env : Env) (s : VeState) (rep : Key) (ids : List Nat) :
    OnlyCheckpoints s (appendCheckpoint env s rep ids) := ⟨_, _, rfl⟩

theorem moveTokenDelegates_onlyCheckpoints {env : Env} {s s' : VeState} {src dst : Key}
    {tokenId : Nat} (h : moveTokenDelegates env s src dst tokenId = .ok s') :
    OnlyCheckpoints s s' := by
  unfold moveTokenDelegates at h
  split at h
  · simp only [isNotNull_eq_true, if_true, require_bind_eq_ok, pure, Except.pure,
      Except.ok.injEq] at h
    rw [← h.2]
    exact (appendCheckpoint_onlyCheckpoints ..).trans (appendCheckpoint_onlyCheckpoints ..)
  · cases h
    exact .rfl' s

theorem moveAllDelegates_onlyCheckpoints {env : Env} {s s' : VeState} {owner src dst : Key}
    (h : moveAllDelegates env s owner src dst = .ok s') : OnlyCheckpoints s s' := by
  unfold moveAllDelegates at h
  simp only [isNotNull_eq_true, if_true] at h
  split_ifs at h
  · cases h
    exact .rfl' s
  · simp only [ok_bind, require_bind_eq_ok, pure, Except.pure, Except.ok.injEq] at h
    rw [← h.2]
    exact (appendCheckpoint_onlyCheckpoints ..).trans (appendCheckpoint_onlyCheckpoints ..)
  · cases h

/-! ## Runs of writes

A call writes the delegate checkpoints only through `appendCheckpoint`, a bounded number of
times. `CheckpointWrites n s s'`: `s'` is `s` after at most `n` such writes, interleaved with
changes to the other fields. -/

/-- `s` and `s'` hold the same delegate checkpoints and counts. -/
def SameCheckpoints (s s' : VeState) : Prop :=
  s'.checkpoints = s.checkpoints ∧ s'.numCheckpoints = s.numCheckpoints

/-- At most `n` checkpoint writes lead from `s` to `s'`. -/
inductive CheckpointWrites : Nat → VeState → VeState → Prop
  | keep {n : Nat} {s s' : VeState} : SameCheckpoints s s' → CheckpointWrites n s s'
  | append {n : Nat} {s s₁ : VeState} (env : Env) (rep : Key) (ids : List Nat) :
      CheckpointWrites n s s₁ → CheckpointWrites (n + 1) s (appendCheckpoint env s₁ rep ids)
  | frame {n : Nat} {s s₁ s₂ : VeState} :
      CheckpointWrites n s s₁ → SameCheckpoints s₁ s₂ → CheckpointWrites n s s₂

namespace CheckpointWrites

theorem refl (n : Nat) (s : VeState) : CheckpointWrites n s s := .keep ⟨rfl, rfl⟩

theorem mono {m n : Nat} {s s₁ : VeState} (h : CheckpointWrites m s s₁) (hmn : m ≤ n) :
    CheckpointWrites n s s₁ := by
  induction h generalizing n with
  | keep h => exact .keep h
  | append env rep ids _ ih =>
    obtain ⟨n, rfl⟩ := Nat.exists_eq_add_of_lt hmn
    exact .append env rep ids (ih (by omega))
  | frame _ h ih => exact .frame (ih hmn) h

theorem trans {m n : Nat} {s s₁ s₂ : VeState} (h₁ : CheckpointWrites m s s₁)
    (h₂ : CheckpointWrites n s₁ s₂) : CheckpointWrites (m + n) s s₂ := by
  induction h₂ with
  | keep h => exact .frame (h₁.mono (Nat.le_add_right m _)) h
  | append env rep ids _ ih => exact .append env rep ids (ih h₁)
  | frame _ h ih => exact .frame (ih h₁) h

theorem pre {n : Nat} {s s₁ s₂ : VeState} (h : SameCheckpoints s s₁)
    (hw : CheckpointWrites n s₁ s₂) : CheckpointWrites n s s₂ :=
  Nat.zero_add n ▸ (keep h).trans hw

theorem appendCheckpoint (env : Env) (s : VeState) (rep : Key) (ids : List Nat) :
    CheckpointWrites 1 s (appendCheckpoint env s rep ids) := .append env rep ids (refl 0 s)

end CheckpointWrites

theorem moveTokenDelegates_writes {env : Env} {s s' : VeState} {src dst : Key}
    {tokenId : Nat} (h : moveTokenDelegates env s src dst tokenId = .ok s') :
    CheckpointWrites 2 s s' := by
  unfold moveTokenDelegates at h
  split at h
  · simp only [isNotNull_eq_true, if_true, require_bind_eq_ok, pure, Except.pure,
      Except.ok.injEq] at h
    rw [← h.2]
    exact (CheckpointWrites.appendCheckpoint ..).trans (CheckpointWrites.appendCheckpoint ..)
  · cases h
    exact .refl 2 s

theorem moveAllDelegates_writes {env : Env} {s s' : VeState} {owner src dst : Key}
    (h : moveAllDelegates env s owner src dst = .ok s') : CheckpointWrites 2 s s' := by
  unfold moveAllDelegates at h
  simp only [isNotNull_eq_true, if_true] at h
  split_ifs at h
  · cases h
    exact .refl 2 s
  · simp only [ok_bind, require_bind_eq_ok, pure, Except.pure, Except.ok.injEq] at h
    rw [← h.2]
    exact (CheckpointWrites.appendCheckpoint ..).trans (CheckpointWrites.appendCheckpoint ..)
  · cases h

/-! ## Slots above the count

A write goes to the slot `count - 1` or `count` and raises the count by one, so no slot at or
above an account's count is ever written, as long as no count wraps. -/

/-- Every count is at least `k` writes from wrapping, and every slot at or above an account's
count is empty. -/
def UnwrittenAbove (k : Nat) (s : VeState) : Prop :=
  ∀ a, getNumCheckpoints s a + k < 2 ^ 64 ∧
    ∀ i, getNumCheckpoints s a ≤ i → getCheckPoint s a i = Checkpoint.default

theorem UnwrittenAbove.appendCheckpoint {k : Nat} {s : VeState} (h : UnwrittenAbove (k + 1) s)
    (env : Env) (rep : Key) (ids : List Nat) :
    UnwrittenAbove k (appendCheckpoint env s rep ids) := by
  intro a
  obtain ⟨hbound, hslots⟩ := h a
  have hrep := (h rep).1
  have hnext := findWhatCheckpointToWrite_le env s rep
  rw [getNumCheckpoints_appendCheckpoint, wrapU64_succ_of_lt (by omega)]
  split
  · rename_i hkey
    have ha : getNumCheckpoints s a = getNumCheckpoints s rep := by simp [getNumCheckpoints, hkey]
    refine ⟨by omega, fun i hi => ?_⟩
    rw [getCheckPoint_appendCheckpoint, if_neg (by omega), hslots i (by omega)]
  · rename_i hkey
    refine ⟨by omega, fun i hi => ?_⟩
    rw [getCheckPoint_appendCheckpoint, if_neg (by rintro ⟨rfl, -⟩; exact hkey rfl),
      hslots i hi]

theorem UnwrittenAbove.of_writes {n k : Nat} {s s' : VeState} (hw : CheckpointWrites n s s')
    (h : UnwrittenAbove (k + n) s) : UnwrittenAbove k s' := by
  induction hw generalizing k with
  | keep hs =>
    intro a
    simp only [getNumCheckpoints, getCheckPoint, hs.1, hs.2]
    exact ⟨by have := (h a).1; simp only [getNumCheckpoints] at this; omega, (h a).2⟩
  | append env rep ids _ ih =>
    exact UnwrittenAbove.appendCheckpoint (ih (k := k + 1) (by rwa [Nat.add_right_comm]))
      env rep ids
  | frame _ hs ih =>
    intro a
    simp only [getNumCheckpoints, getCheckPoint, hs.1, hs.2]
    exact ih h a

/-- `_delegate`: store the new delegate, then move all of the delegator's ids from the
previously stored delegate to the new one. -/
def delegate (env : Env) (s : VeState) (delegator delegatee : Key) : Except VeError VeState :=
  moveAllDelegates env (setDelegate s delegator delegatee) delegator (getDelegate s delegator)
    delegatee

end VotingEscrow
