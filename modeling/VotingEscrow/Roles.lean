import VotingEscrow.Locks

/-!
# Roles and the reentrancy flag

Beside the locks the contract stores two roles, `TEAM` and `VOTER`, and the voter's marks on
positions, `VOTED` and `ATTACHMENTS`. Only `set_team` writes `TEAM`, and only when the team
calls it; `set_voter`, `voting`, `abstain`, `attach` and `detach` write the voter's state, each
only when the voter calls it; the lock calls write neither (`roles_guarded`).

`DELEGATES` is keyed by `key_to_str(caller)`, the 32 bytes of the key without its variant, and
only `delegate` writes it, the entry of its caller's text (`delegates_guarded`): an account and
a contract hash of the same bytes share one entry. Delegating again to the delegate stored there
moves nothing and leaves the state as it is.

`create_lock`, `create_lock_for`, `increase_amount` and `increase_unlock_time` set `IS_LOCKED`
for their body and clear it before they return, and a call that reverts leaves the state as it
was: so the flag is clear in every reachable state, and `when_not_locked` lets every call of a
run through (`isLocked_clear`).
-/

namespace VotingEscrow

/-- The voter's state: the role and its marks on positions. -/
def voterState (s : VeState) : Key × (Nat → Bool) × (Nat → Nat) :=
  (s.voter, s.voted, s.attachments)

/-- The calls that may write `TEAM` or the voter's state: `set_team` and the voter's calls.
The lock calls, `merge`, `check_point`, `delegate` and `set_art_proxy` are not among them. -/
def Call.writesRoles : Call → Bool
  | .setTeam _ | .setVoter _ | .voting _ | .abstain _ | .attach _ | .detach _ => true
  | _ => false

section Frame

variable {env : Env} {s s' : VeState}

/-- What a successful call may change, and who may change it: `TEAM` only by `set_team` from the
team, the voter's state only by the voter, the `DELEGATES` entry of a key text only by
`delegate` from a caller of that text, and neither `TEAM` nor the voter's state by any other
call; and a clear reentrancy flag stays clear. -/
structure Guarded (env : Env) (c : Call) (s s' : VeState) : Prop where
  team : s'.team ≠ s.team → env.caller = s.team ∧ c = .setTeam s'.team
  voter : voterState s' ≠ voterState s → env.caller = s.voter
  frame : c.writesRoles = false → s'.team = s.team ∧ voterState s' = voterState s
  delegates : ∀ k, s'.delegates k ≠ s.delegates k →
    ∃ d, c = .delegate d ∧ keyToStr env.caller = k ∧ s'.delegates k = some d
  isLocked : s.isLocked = false → s'.isLocked = false

/-- What a lock call leaves alone: the roles, the voter's marks, the stored delegates, and a
clear reentrancy flag. -/
structure KeepsRoles (s s' : VeState) : Prop where
  team : s'.team = s.team
  voter : voterState s' = voterState s
  delegates : s'.delegates = s.delegates
  isLocked : s.isLocked = false → s'.isLocked = false

/-- A call that keeps the roles changes none, whoever calls it. -/
theorem KeepsRoles.guarded (h : KeepsRoles s s') (c : Call) : Guarded env c s s' :=
  ⟨fun hne => absurd h.team hne, fun hne => absurd h.voter hne, fun _ => ⟨h.team, h.voter⟩,
    fun k hne => absurd (congrFun h.delegates k) hne, h.isLocked⟩

/-- A call of the voter that writes only the voter's state. -/
theorem Guarded.of_voter {c : Call} (hc : c.writesRoles = true) (hv : env.caller = s.voter)
    (ht : s'.team = s.team) (hd : s'.delegates = s.delegates) (hl : s'.isLocked = s.isLocked) :
    Guarded env c s s' :=
  ⟨fun hne => absurd ht hne, fun _ => hv, fun h => Bool.noConfusion (hc.symm.trans h),
    fun k hne => absurd (congrFun hd k) hne, fun h => hl.trans h⟩

theorem depositFor_keepsRoles {id value unlock : Nat} {lb : LockedBalance} :
    KeepsRoles s (VotingEscrow.depositFor env s id value unlock lb) :=
  ⟨by simp [depositFor, checkPoint], by simp [voterState, depositFor, checkPoint],
    by simp [depositFor, checkPoint], by simp [depositFor, checkPoint]⟩

/-- A body run under the reentrancy flag, which the call clears after it. -/
theorem keepsRoles_of_locked {s₁ : VeState} (h : KeepsRoles { s with isLocked := true } s₁) :
    KeepsRoles s { s₁ with isLocked := false } :=
  ⟨h.team, h.voter, h.delegates, fun _ => rfl⟩

theorem createLockFor_keepsRoles {amount d : Nat} {recipient : Key}
    (h : Entry.createLockFor env s amount d recipient = .ok s') : KeepsRoles s s' := by
  obtain ⟨-, r, hr, rfl⟩ := Entry.createLockFor_spec h
  obtain ⟨-, -, -, nft, s₁, -, hmv, rfl⟩ := createLock_spec hr
  obtain ⟨_, _, rfl⟩ := moveTokenDelegates_onlyCheckpoints hmv
  exact ⟨by simp [depositFor, checkPoint], by simp [voterState, depositFor, checkPoint],
    by simp [depositFor, checkPoint], fun _ => rfl⟩

theorem merge_keepsRoles {fromId toId : Nat} (h : Entry.merge env s fromId toId = .ok s') :
    KeepsRoles s s' := by
  obtain ⟨-, -, -, s₁, hb, rfl⟩ := Entry.merge_spec h
  obtain ⟨_, _, _, -, rfl⟩ := burnNft_eq hb
  exact ⟨by simp [depositFor, checkPoint], by simp [voterState, depositFor, checkPoint],
    by simp [depositFor, checkPoint], by simp [depositFor, checkPoint]⟩

/-- `delegate(d)` writes `d` to the entry of its caller's text, and nothing else of the roles. -/
theorem delegate_guarded {d : Key} (h : Entry.delegate env s d = .ok s') :
    Guarded env (.delegate d) s s' := by
  obtain ⟨_, _, rfl⟩ := moveAllDelegates_onlyCheckpoints (Entry.delegate_spec h)
  refine ⟨fun hne => absurd rfl hne, fun hne => absurd rfl hne, fun _ => ⟨rfl, rfl⟩,
    fun k hne => ?_, fun h => h⟩
  by_cases hk : keyToStr env.caller = k
  · exact ⟨d, rfl, hk, by simp [setDelegate, hk]⟩
  · exact absurd (by simp [setDelegate, Function.update_noteq (Ne.symm hk)]) hne

/-- What one call may do to the roles, the voter's marks, the stored delegates and the
reentrancy flag. -/
theorem step_roles {c : Call} (h : step env s c = .ok s') : Guarded env c s s' := by
  cases c with
  | createLock amount d | createLockFor amount d _ =>
    exact (createLockFor_keepsRoles h).guarded _
  | depositFor x amount =>
    obtain ⟨-, -, -, rfl⟩ := Entry.depositFor_spec h; exact depositFor_keepsRoles.guarded _
  | increaseAmount x amount =>
    obtain ⟨-, -, -, -, -, rfl⟩ := Entry.increaseAmount_spec h
    exact (keepsRoles_of_locked depositFor_keepsRoles).guarded _
  | increaseAmountFor x amount =>
    obtain ⟨-, -, -, -, rfl⟩ := Entry.increaseAmountFor_spec h
    exact depositFor_keepsRoles.guarded _
  | increaseUnlockTime x d =>
    obtain ⟨-, -, -, -, -, -, rfl⟩ := Entry.increaseUnlockTime_spec h
    exact (keepsRoles_of_locked depositFor_keepsRoles).guarded _
  | merge fromId toId => exact (merge_keepsRoles h).guarded _
  | checkPoint =>
    cases h
    exact KeepsRoles.guarded ⟨by simp [Entry.checkPoint, checkPoint],
      by simp [voterState, Entry.checkPoint, checkPoint],
      by simp [Entry.checkPoint, checkPoint], by simp [Entry.checkPoint, checkPoint]⟩ _
  | delegate d => exact delegate_guarded h
  | voting x | abstain x =>
    obtain ⟨hv, rfl⟩ := Entry.setVoted_spec h
    exact .of_voter rfl hv rfl rfl rfl
  | attach x =>
    obtain ⟨hv, rfl⟩ := Entry.attach_spec h
    exact .of_voter rfl hv rfl rfl rfl
  | detach x =>
    obtain ⟨hv, rfl⟩ := Entry.detach_spec h
    exact .of_voter rfl hv rfl rfl rfl
  | setVoter v =>
    obtain ⟨hv, rfl⟩ := Entry.setVoter_spec h
    exact .of_voter rfl hv rfl rfl rfl
  | setTeam v =>
    obtain ⟨ht, rfl⟩ := Entry.setTeam_spec h
    exact ⟨fun _ => ⟨ht, rfl⟩, fun hne => absurd rfl hne, fun h => Bool.noConfusion h,
      fun _ hne => absurd rfl hne, fun h => h⟩
  | setArtProxy v =>
    obtain ⟨-, rfl⟩ := Entry.setArtProxy_spec h
    exact KeepsRoles.guarded ⟨rfl, rfl, rfl, fun h => h⟩ _

end Frame

/-- **Only the team changes the team, only the voter the voter's state.** From any state, a
successful call that changes `TEAM` is `set_team` called by the current team, and one that
changes `VOTER`, `VOTED` or `ATTACHMENTS` is called by the current voter; the lock calls,
`merge`, `check_point`, `delegate` and `set_art_proxy` change none of them. -/
theorem roles_guarded {env : Env} {s s' : VeState} {c : Call} (h : step env s c = .ok s') :
    (s'.team ≠ s.team → env.caller = s.team ∧ c = .setTeam s'.team) ∧
      (voterState s' ≠ voterState s → env.caller = s.voter) ∧
      (c.writesRoles = false → s'.team = s.team ∧ voterState s' = voterState s) :=
  ⟨(step_roles h).team, (step_roles h).voter, (step_roles h).frame⟩

theorem roles_guarded_setTeam :
    step (atTime aliceKey week) oneLock (.setTeam bobKey) = .ok { oneLock with team := bobKey } ∧
      (({ oneLock with team := bobKey } : VeState).team ≠ oneLock.team →
        (atTime aliceKey week).caller = oneLock.team ∧
          Call.setTeam bobKey = .setTeam ({ oneLock with team := bobKey } : VeState).team) ∧
      (voterState { oneLock with team := bobKey } ≠ voterState oneLock →
        (atTime aliceKey week).caller = oneLock.voter) ∧
      ((Call.setTeam bobKey).writesRoles = false →
        ({ oneLock with team := bobKey } : VeState).team = oneLock.team ∧
          voterState { oneLock with team := bobKey } = voterState oneLock) :=
  have hs : step (atTime aliceKey week) oneLock (.setTeam bobKey) =
      .ok { oneLock with team := bobKey } := rfl
  ⟨hs, roles_guarded hs⟩

/-- `delegate(d)` by a caller whose text already stores `d` succeeds and changes nothing:
`_delegate` reads `d` back as the current delegate, and `_move_all_delegates(owner, d, d)` moves
nothing. -/
theorem step_delegate_of_stored {env : Env} {s : VeState} {d : Key}
    (hd : s.delegates (keyToStr env.caller) = some d) : step env s (.delegate d) = .ok s := by
  have hset : setDelegate s env.caller d = s := by
    rw [setDelegate, ← hd, Function.update_eq_self]
  show moveAllDelegates env _ env.caller (getDelegate s env.caller) d = _
  rw [hset, getDelegate, hd, Option.getD_some, moveAllDelegates, if_pos rfl]
  rfl

/-- **Only a caller's own `delegate` writes its delegate, and writing it again is a no-op.** From
any state, a successful call that changes the `DELEGATES` entry of a key text `k` is a
`delegate(d)` whose caller's `key_to_str` is `k`, and it stores `d` there. After it, `delegate(d)`
by any caller of the same text, in any block, succeeds and leaves the state as it is. -/
theorem delegates_guarded {env : Env} {s s' : VeState} {c : Call} (h : step env s c = .ok s') :
    (∀ k, s'.delegates k ≠ s.delegates k →
      ∃ d, c = .delegate d ∧ keyToStr env.caller = k ∧ s'.delegates k = some d) ∧
      ∀ d, c = .delegate d → ∀ env' : Env, keyToStr env'.caller = keyToStr env.caller →
        step env' s' (.delegate d) = .ok s' := by
  refine ⟨(step_roles h).delegates, fun d hc env' hk => step_delegate_of_stored ?_⟩
  subst hc
  obtain ⟨_, _, rfl⟩ := moveAllDelegates_onlyCheckpoints (Entry.delegate_spec h)
  simp [setDelegate, hk]

theorem delegates_guarded_oneLock :
    step (atTime aliceKey week) oneLock (.delegate bobKey) =
        .ok (afterCall (atTime aliceKey week) oneLock (.delegate bobKey)) ∧
      (∀ k, (afterCall (atTime aliceKey week) oneLock (.delegate bobKey)).delegates k ≠
          oneLock.delegates k →
        ∃ d, Call.delegate bobKey = .delegate d ∧ keyToStr (atTime aliceKey week).caller = k ∧
          (afterCall (atTime aliceKey week) oneLock (.delegate bobKey)).delegates k = some d) ∧
      ∀ d, Call.delegate bobKey = .delegate d → ∀ env' : Env,
        keyToStr env'.caller = keyToStr (atTime aliceKey week).caller →
          step env' (afterCall (atTime aliceKey week) oneLock (.delegate bobKey)) (.delegate d) =
            .ok (afterCall (atTime aliceKey week) oneLock (.delegate bobKey)) :=
  have hs : step (atTime aliceKey week) oneLock (.delegate bobKey) =
      .ok (afterCall (atTime aliceKey week) oneLock (.delegate bobKey)) := rfl
  ⟨hs, delegates_guarded hs⟩

/-- **The reentrancy flag is clear between calls.** In every run `IS_LOCKED` is false, so the
`when_not_locked` of `create_lock`, `create_lock_for`, `increase_amount` and
`increase_unlock_time` never refuses a call: the lock wrapper is its body, run with the flag
set and followed by its release. -/
theorem isLocked_clear {allowed : VeState → Env → Call → Prop} {t : Nat} {s : VeState}
    (h : Reachable allowed t s) :
    s.isLocked = false ∧ ∀ body : VeState → Except VeError VeState,
      Entry.withLock s body = (do
        let s ← body { s with isLocked := true }
        pure { s with isLocked := false }) := by
  have hl : s.isLocked = false := by
    induction h with
    | genesis env => rfl
    | step env c _ _ _ hs ih => exact (step_roles hs).isLocked ih
  exact ⟨hl, fun body => by simp [Entry.withLock, hl]⟩

theorem isLocked_clear_merged :
    Reachable (fun _ _ _ => True) week merged ∧
      (merged.isLocked = false ∧ ∀ body : VeState → Except VeError VeState,
        Entry.withLock merged body = (do
          let s ← body { merged with isLocked := true }
          pure { s with isLocked := false })) :=
  ⟨merged_reachable, isLocked_clear merged_reachable⟩

end VotingEscrow
