import VotingEscrow.Escrow
import VotingEscrow.Query

/-!
# Entry points and runs

Each mutating entry point of `vedata.rs` is a function `Env → VeState → Except VeError VeState`
under `Entry`; a revert leaves the storage as it was, so a run is the sequence of calls that
succeed. `step` dispatches a `Call`, and `Reachable allowed t s` says that `s` is reached from
the installed contract by successful calls at nondecreasing block times, the last at `t`, each
satisfying `allowed`. The empty entry points `withdraw` and `delegate_by_sig` change nothing and
are not calls here.
-/

namespace VotingEscrow

namespace Entry

/-- `when_not_locked(); lock_contract(); body; unlock_contract()`. -/
def withLock (s : VeState) (body : VeState → Except VeError VeState) :
    Except VeError VeState := do
  require (!s.isLocked) .contractLocked
  let s ← body { s with isLocked := true }
  pure { s with isLocked := false }

/-- `only_voter`. -/
def onlyVoter (env : Env) (s : VeState) : Except VeError Unit :=
  require (env.caller == s.voter) .notVoter

/-- `create_lock_for(amount, lock_duration, to)`; `create_lock` is the caller's own. -/
def createLockFor (env : Env) (s : VeState) (amount lockDuration : Nat) (recipient : Key) :
    Except VeError VeState :=
  withLock s fun s => do
    let (s, _) ← createLock env s amount lockDuration recipient
    pure s

/-- `deposit_for(token_id, amount)`: anyone may add to an existing, unexpired lock. -/
def depositFor (env : Env) (s : VeState) (tokenId amount : Nat) : Except VeError VeState := do
  let locked := s.locked tokenId
  require (0 < amount) .invalidAmount
  require (0 < locked.amount) .noExistingLock
  require (currentBlockTimestampSeconds env < locked.lockEnd) .cannotAddToExpiredLock
  pure (VotingEscrow.depositFor env s tokenId amount 0 locked)

/-- `increase_amount(amount, token_id)`. -/
def increaseAmount (env : Env) (s : VeState) (tokenId amount : Nat) : Except VeError VeState := do
  require (s.nft.isApprovedOrOwner tokenId env.caller) .notOwnerOrApproved
  withLock s fun s => do
    let locked := s.locked tokenId
    require (0 < amount) .invalidAmount
    require (0 < locked.amount) .noExistingLock
    require (currentBlockTimestampSeconds env < locked.lockEnd) .cannotAddToExpiredLock
    pure (VotingEscrow.depositFor env s tokenId amount 0 locked)

/-- `increase_amount_for(token_id, amount)`: the team's deposit into any unexpired lock. -/
def increaseAmountFor (env : Env) (s : VeState) (tokenId amount : Nat) :
    Except VeError VeState := do
  require (env.caller == s.team) .notTeam
  let locked := s.locked tokenId
  require (0 < amount) .invalidAmount
  require (0 < locked.amount) .noExistingLock
  require (currentBlockTimestampSeconds env < locked.lockEnd) .cannotAddToExpiredLock
  pure (VotingEscrow.depositFor env s tokenId amount 0 locked)

/-- `increase_unlock_time(lock_duration, token_id)`. -/
def increaseUnlockTime (env : Env) (s : VeState) (tokenId lockDuration : Nat) :
    Except VeError VeState := do
  require (s.nft.isApprovedOrOwner tokenId env.caller) .notOwnerOrApproved
  withLock s fun s => do
    let ts := currentBlockTimestampSeconds env
    let locked := s.locked tokenId
    let unlockTime := roundedUnlockTime ts lockDuration
    require (ts < locked.lockEnd) .cannotAddToExpiredLock
    require (0 < locked.amount) .noExistingLock
    require (locked.lockEnd < unlockTime) .canOnlyIncreaseLock
    require (unlockTime ≤ wrapU64 (ts + maxtime)) .votingLockMax26Weeks
    pure (VotingEscrow.depositFor env s tokenId 0 unlockTime locked)

/-- `merge(from, to)`: `from`'s amount moves into `to`, which keeps the later unlock time;
`from` is reset, checkpointed to zero and burned. -/
def merge (env : Env) (s : VeState) (fromId toId : Nat) : Except VeError VeState := do
  require (fromId != toId) .fromMustNotTo
  require (s.nft.isApprovedOrOwner fromId env.caller) .notOwnerOrApproved
  require (s.nft.isApprovedOrOwner toId env.caller) .notOwnerOrApproved
  let locked0 := s.locked fromId
  let locked1 := s.locked toId
  let unlock := if locked1.lockEnd ≤ locked0.lockEnd then locked0.lockEnd else locked1.lockEnd
  let s := VotingEscrow.checkPoint env
    { s with locked := Function.update s.locked fromId LockedBalance.default }
    fromId locked0 LockedBalance.default
  let s ← burnNft env s fromId
  pure (VotingEscrow.depositFor env s toId locked0.amount unlock locked1)

/-- `check_point()`: advance the global curve to now. -/
def checkPoint (env : Env) (s : VeState) : VeState :=
  VotingEscrow.checkPoint env s 0 LockedBalance.default LockedBalance.default

/-- `delegate(delegatee)`. -/
def delegate (env : Env) (s : VeState) (delegatee : Key) : Except VeError VeState :=
  VotingEscrow.delegate env s env.caller delegatee

/-- `voting(token_id)` and `abstain(token_id)`: the voter sets `VOTED`. -/
def setVoted (env : Env) (s : VeState) (tokenId : Nat) (v : Bool) : Except VeError VeState := do
  onlyVoter env s
  pure { s with voted := Function.update s.voted tokenId v }

/-- `attach(token_id)`: stores `token_id + 1`. -/
def attach (env : Env) (s : VeState) (tokenId : Nat) : Except VeError VeState := do
  onlyVoter env s
  pure { s with attachments := Function.update s.attachments tokenId (wrapU64 (tokenId + 1)) }

/-- `detach(token_id)`: stores `token_id - 1`. -/
def detach (env : Env) (s : VeState) (tokenId : Nat) : Except VeError VeState := do
  onlyVoter env s
  pure { s with
    attachments := Function.update s.attachments tokenId (wrapU64 ((tokenId : Int) - 1)) }

/-- `set_voter(voter)`. -/
def setVoter (env : Env) (s : VeState) (voter : Key) : Except VeError VeState := do
  onlyVoter env s
  pure { s with voter }

/-- `set_team(new_team)`. -/
def setTeam (env : Env) (s : VeState) (newTeam : Key) : Except VeError VeState := do
  require (env.caller == s.team) .notTeam
  pure { s with team := newTeam }

/-- `set_art_proxy(new_art_proxy)`: only its team check touches modelled state. -/
def setArtProxy (env : Env) (s : VeState) : Except VeError VeState := do
  require (env.caller == s.team) .notTeam
  pure s

/-! ## What each call does

One lemma per entry point: the checks a successful call passed and the state it left, in
terms of the internal functions. Invariants are proved from these, never by unfolding an entry
point again. -/

section Specs

variable {env : Env} {s s' : VeState}

theorem withLock_spec {body : VeState → Except VeError VeState} (h : withLock s body = .ok s') :
    s.isLocked = false ∧ ∃ s₁, body { s with isLocked := true } = .ok s₁ ∧
      s' = { s₁ with isLocked := false } := by
  simp only [withLock, require_bind_eq_ok, Bool.not_eq_true'] at h
  simp only [bind_eq_ok, pure, Except.pure, Except.ok.injEq] at h
  obtain ⟨hl, s₁, hb, rfl⟩ := h
  exact ⟨hl, s₁, hb, rfl⟩

theorem createLockFor_spec {amount lockDuration : Nat} {recipient : Key}
    (h : createLockFor env s amount lockDuration recipient = .ok s') :
    s.isLocked = false ∧ ∃ r, createLock env { s with isLocked := true } amount lockDuration
      recipient = .ok r ∧ s' = { r.1 with isLocked := false } := by
  obtain ⟨hl, s₁, hb, rfl⟩ := withLock_spec h
  simp only [bind_eq_ok, pure, Except.pure, Except.ok.injEq] at hb
  obtain ⟨r, hr, rfl⟩ := hb
  exact ⟨hl, r, hr, rfl⟩

theorem depositFor_spec {tokenId amount : Nat} (h : depositFor env s tokenId amount = .ok s') :
    0 < amount ∧ 0 < (s.locked tokenId).amount ∧
      currentBlockTimestampSeconds env < (s.locked tokenId).lockEnd ∧
      s' = VotingEscrow.depositFor env s tokenId amount 0 (s.locked tokenId) := by
  simp only [depositFor, require_bind_eq_ok, decide_eq_true_eq, pure, Except.pure,
    Except.ok.injEq] at h
  exact ⟨h.1, h.2.1, h.2.2.1, h.2.2.2.symm⟩

theorem increaseAmount_spec {tokenId amount : Nat}
    (h : increaseAmount env s tokenId amount = .ok s') :
    s.nft.isApprovedOrOwner tokenId env.caller = true ∧ s.isLocked = false ∧ 0 < amount ∧
      0 < (s.locked tokenId).amount ∧
      currentBlockTimestampSeconds env < (s.locked tokenId).lockEnd ∧
      s' = { VotingEscrow.depositFor env { s with isLocked := true } tokenId amount 0
        (s.locked tokenId) with isLocked := false } := by
  simp only [increaseAmount, require_bind_eq_ok] at h
  obtain ⟨happ, hw⟩ := h
  obtain ⟨hl, s₁, hb, rfl⟩ := withLock_spec hw
  simp only [require_bind_eq_ok, decide_eq_true_eq, pure, Except.pure, Except.ok.injEq] at hb
  exact ⟨happ, hl, hb.1, hb.2.1, hb.2.2.1, by rw [← hb.2.2.2]⟩

theorem increaseAmountFor_spec {tokenId amount : Nat}
    (h : increaseAmountFor env s tokenId amount = .ok s') :
    env.caller = s.team ∧ 0 < amount ∧ 0 < (s.locked tokenId).amount ∧
      currentBlockTimestampSeconds env < (s.locked tokenId).lockEnd ∧
      s' = VotingEscrow.depositFor env s tokenId amount 0 (s.locked tokenId) := by
  simp only [increaseAmountFor, require_bind_eq_ok, beq_iff_eq, decide_eq_true_eq, pure,
    Except.pure, Except.ok.injEq] at h
  exact ⟨h.1, h.2.1, h.2.2.1, h.2.2.2.1, h.2.2.2.2.symm⟩

theorem increaseUnlockTime_spec {tokenId lockDuration : Nat}
    (h : increaseUnlockTime env s tokenId lockDuration = .ok s') :
    let ts := currentBlockTimestampSeconds env
    let unlockTime := roundedUnlockTime ts lockDuration
    s.nft.isApprovedOrOwner tokenId env.caller = true ∧ s.isLocked = false ∧
      ts < (s.locked tokenId).lockEnd ∧ 0 < (s.locked tokenId).amount ∧
      (s.locked tokenId).lockEnd < unlockTime ∧ unlockTime ≤ wrapU64 (ts + maxtime) ∧
      s' = { VotingEscrow.depositFor env { s with isLocked := true } tokenId 0 unlockTime
        (s.locked tokenId) with isLocked := false } := by
  simp only [increaseUnlockTime, require_bind_eq_ok] at h
  obtain ⟨happ, hw⟩ := h
  obtain ⟨hl, s₁, hb, rfl⟩ := withLock_spec hw
  simp only [require_bind_eq_ok, decide_eq_true_eq, pure, Except.pure, Except.ok.injEq] at hb
  exact ⟨happ, hl, hb.1, hb.2.1, hb.2.2.1, hb.2.2.2.1, by rw [← hb.2.2.2.2]⟩

/-- A successful `merge`: `from` was reset and checkpointed to zero, then burned, then its
amount was deposited into `to` with the later of the two unlock times. -/
theorem merge_spec {fromId toId : Nat} (h : merge env s fromId toId = .ok s') :
    fromId ≠ toId ∧ s.nft.isApprovedOrOwner fromId env.caller = true ∧
      s.nft.isApprovedOrOwner toId env.caller = true ∧
      ∃ s₁, burnNft env (VotingEscrow.checkPoint env
          { s with locked := Function.update s.locked fromId LockedBalance.default }
          fromId (s.locked fromId) LockedBalance.default) fromId = .ok s₁ ∧
        s' = VotingEscrow.depositFor env s₁ toId (s.locked fromId).amount
          (if (s.locked toId).lockEnd ≤ (s.locked fromId).lockEnd then (s.locked fromId).lockEnd
            else (s.locked toId).lockEnd) (s.locked toId) := by
  simp only [merge, require_bind_eq_ok, bne_iff_ne, ne_eq] at h
  simp only [bind_eq_ok, pure, Except.pure, Except.ok.injEq] at h
  obtain ⟨hne, happ, happ', s₁, hb, rfl⟩ := h
  exact ⟨hne, happ, happ', s₁, hb, rfl⟩

theorem delegate_spec {delegatee : Key} (h : delegate env s delegatee = .ok s') :
    moveAllDelegates env (setDelegate s env.caller delegatee) env.caller
      (getDelegate s env.caller) delegatee = .ok s' := h

theorem setVoted_spec {tokenId : Nat} {v : Bool} (h : setVoted env s tokenId v = .ok s') :
    env.caller = s.voter ∧ s' = { s with voted := Function.update s.voted tokenId v } := by
  simp only [setVoted, onlyVoter, require_bind_eq_ok, beq_iff_eq, pure, Except.pure,
    Except.ok.injEq] at h
  exact ⟨h.1, h.2.symm⟩

theorem attach_spec {tokenId : Nat} (h : attach env s tokenId = .ok s') :
    env.caller = s.voter ∧ s' = { s with
      attachments := Function.update s.attachments tokenId (wrapU64 (tokenId + 1)) } := by
  simp only [attach, onlyVoter, require_bind_eq_ok, beq_iff_eq, pure, Except.pure,
    Except.ok.injEq] at h
  exact ⟨h.1, h.2.symm⟩

theorem detach_spec {tokenId : Nat} (h : detach env s tokenId = .ok s') :
    env.caller = s.voter ∧ s' = { s with
      attachments := Function.update s.attachments tokenId (wrapU64 ((tokenId : Int) - 1)) } := by
  simp only [detach, onlyVoter, require_bind_eq_ok, beq_iff_eq, pure, Except.pure,
    Except.ok.injEq] at h
  exact ⟨h.1, h.2.symm⟩

theorem setVoter_spec {voter : Key} (h : setVoter env s voter = .ok s') :
    env.caller = s.voter ∧ s' = { s with voter } := by
  simp only [setVoter, onlyVoter, require_bind_eq_ok, beq_iff_eq, pure, Except.pure,
    Except.ok.injEq] at h
  exact ⟨h.1, h.2.symm⟩

theorem setTeam_spec {newTeam : Key} (h : setTeam env s newTeam = .ok s') :
    env.caller = s.team ∧ s' = { s with team := newTeam } := by
  simp only [setTeam, require_bind_eq_ok, beq_iff_eq, pure, Except.pure, Except.ok.injEq] at h
  exact ⟨h.1, h.2.symm⟩

theorem setArtProxy_spec (h : setArtProxy env s = .ok s') : env.caller = s.team ∧ s' = s := by
  simp only [setArtProxy, require_bind_eq_ok, beq_iff_eq, pure, Except.pure,
    Except.ok.injEq] at h
  exact ⟨h.1, h.2.symm⟩

end Specs

end Entry

/-- A call to a mutating entry point, with its arguments at their source widths. -/
inductive Call where
  | createLock (amount : Fin (2 ^ 128)) (lockDuration : Fin (2 ^ 64))
  | createLockFor (amount : Fin (2 ^ 128)) (lockDuration : Fin (2 ^ 64)) (recipient : Key)
  | depositFor (tokenId : Fin (2 ^ 64)) (amount : Fin (2 ^ 128))
  | increaseAmount (tokenId : Fin (2 ^ 64)) (amount : Fin (2 ^ 128))
  | increaseAmountFor (tokenId : Fin (2 ^ 64)) (amount : Fin (2 ^ 128))
  | increaseUnlockTime (tokenId : Fin (2 ^ 64)) (lockDuration : Fin (2 ^ 64))
  | merge (fromId toId : Fin (2 ^ 64))
  | checkPoint
  | delegate (delegatee : Key)
  | voting (tokenId : Fin (2 ^ 64))
  | abstain (tokenId : Fin (2 ^ 64))
  | attach (tokenId : Fin (2 ^ 64))
  | detach (tokenId : Fin (2 ^ 64))
  | setVoter (voter : Key)
  | setTeam (newTeam : Key)
  | setArtProxy (newArtProxy : Key)

/-- One call, dispatched to its entry point. -/
def step (env : Env) (s : VeState) : Call → Except VeError VeState
  | .createLock amount d => Entry.createLockFor env s amount d env.caller
  | .createLockFor amount d recipient => Entry.createLockFor env s amount d recipient
  | .depositFor id amount => Entry.depositFor env s id amount
  | .increaseAmount id amount => Entry.increaseAmount env s id amount
  | .increaseAmountFor id amount => Entry.increaseAmountFor env s id amount
  | .increaseUnlockTime id d => Entry.increaseUnlockTime env s id d
  | .merge fromId toId => Entry.merge env s fromId toId
  | .checkPoint => pure (Entry.checkPoint env s)
  | .delegate d => Entry.delegate env s d
  | .voting id => Entry.setVoted env s id true
  | .abstain id => Entry.setVoted env s id false
  | .attach id => Entry.attach env s id
  | .detach id => Entry.detach env s id
  | .setVoter v => Entry.setVoter env s v
  | .setTeam t => Entry.setTeam env s t
  | .setArtProxy _ => Entry.setArtProxy env s

/-- The state after a call: its result, or the unchanged state when it reverts. -/
def afterCall (env : Env) (s : VeState) (c : Call) : VeState :=
  match step env s c with
  | .ok s' => s'
  | .error _ => s

theorem afterCall_of_ok {env : Env} {s s' : VeState} {c : Call} (h : step env s c = .ok s') :
    afterCall env s c = s' := by
  simp [afterCall, h]

/-- States reached from installation by successful calls at nondecreasing block times (in
seconds), each admitted by `allowed`; the index is the block time of the last call. -/
inductive Reachable (allowed : VeState → Env → Call → Prop) : Nat → VeState → Prop
  | genesis (env : Env) : Reachable allowed (currentBlockTimestampSeconds env) (genesis env)
  | step {t : Nat} {s s' : VeState} (env : Env) (c : Call) :
      Reachable allowed t s → t ≤ currentBlockTimestampSeconds env → allowed s env c →
      step env s c = .ok s' → Reachable allowed (currentBlockTimestampSeconds env) s'

/-- The state after a list of calls in one block, each skipped when it reverts. -/
def runCalls (env : Env) (s : VeState) (cs : List Call) : VeState := cs.foldl (afterCall env) s

/-- Without a restriction on calls, a call that may revert keeps its state reachable, at a time
no later than its own. -/
theorem Reachable.afterCall {t : Nat} {s : VeState} (h : Reachable (fun _ _ _ => True) t s)
    (env : Env) (ht : t ≤ currentBlockTimestampSeconds env) (c : Call) :
    ∃ t' ≤ currentBlockTimestampSeconds env,
      Reachable (fun _ _ _ => True) t' (afterCall env s c) := by
  cases hs : VotingEscrow.step env s c with
  | error e => exact ⟨t, ht, by simpa [VotingEscrow.afterCall, hs] using h⟩
  | ok s' =>
    exact ⟨_, le_rfl, by simpa [VotingEscrow.afterCall, hs] using .step env c h ht trivial hs⟩

theorem Reachable.runCalls {t : Nat} {s : VeState} (h : Reachable (fun _ _ _ => True) t s)
    (env : Env) (ht : t ≤ currentBlockTimestampSeconds env) (cs : List Call) :
    ∃ t' ≤ currentBlockTimestampSeconds env,
      Reachable (fun _ _ _ => True) t' (runCalls env s cs) := by
  induction cs generalizing s t with
  | nil => exact ⟨t, ht, h⟩
  | cons c cs ih =>
    obtain ⟨t', ht', h'⟩ := h.afterCall env ht c
    exact ih h' ht'

/-! ## Sample runs -/

/-- An account key of 32 one-bytes. -/
def aliceKey : Key := .account ⟨List.replicate 32 1, rfl⟩

/-- An account key of 32 two-bytes. -/
def bobKey : Key := .account ⟨List.replicate 32 2, rfl⟩

/-- A call by `caller` in the block of second `t`. -/
def atTime (caller : Key) (t : Nat) : Env := ⟨caller, t * 1000⟩

/-- `create_lock` of `MAXTIME` for two weeks. -/
def lockMaxtime : Call := .createLock ⟨maxtime, by decide⟩ ⟨2 * week, by decide⟩

/-- The contract installed at week 1, after `lockMaxtime` by `aliceKey`. -/
def oneLock : VeState :=
  afterCall (atTime aliceKey week) (genesis (atTime aliceKey week)) lockMaxtime

theorem oneLock_reachable : Reachable (fun _ _ _ => True) week oneLock :=
  .step (atTime aliceKey week) lockMaxtime (.genesis _) le_rfl trivial rfl

theorem oneLock_userPointEpoch : oneLock.userPointEpoch = Function.update (fun _ => 0) 1 1 := rfl

theorem oneLock_locked :
    oneLock.locked = Function.update (fun _ => LockedBalance.default) 1 ⟨maxtime, 3 * week⟩ := rfl

end VotingEscrow
