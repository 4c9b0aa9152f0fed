import VotingEscrow.Locks

/-!
# Who may change a position

Every entry point that lowers a lock or burns a position checks that the caller owns it:
`merge` checks both of its ids, `increase_amount` and `increase_unlock_time` the one they change.
The other calls only add: anyone may `deposit_for` into a live lock, the team may
`increase_amount_for`, and `create_lock` mints a fresh id. So no call by a caller who does not
own a live position shrinks or burns it (`stranger_cannot_shrink_lock`), in every run where no
deposit carries a lock past `u128`; a deposit that does wraps the amount to `0`, whoever makes it
(`strangerDeposit_wraps_lock`).

The voter's marks are not consulted by `merge`: a position marked voted and attached is merged
away like any other (`merge_burns_marked_token`). And `attach` and `detach` do not count: they
store `token_id + 1` and `token_id - 1`, whatever was stored before, so after any sequence of
them the stored value is decided by the last one (`attachments_of_last_call`).
-/

namespace VotingEscrow

/-! ## Locks of other callers -/

/-- **No one but the owner shrinks or burns a lock.** In every run where no deposit carries an
amount past `u128`, a call whose caller does not own the live id leaves it live, and its lock's
amount and end where they were or higher. -/
theorem stranger_cannot_shrink_lock {t : Nat} {s s' : VeState} {env : Env} {c : Call}
    (h : Reachable NoAmountWrap t s) (ht : t ≤ currentBlockTimestampSeconds env)
    (hw : NoAmountWrap s env c) (hstep : step env s c = .ok s') {id : Nat}
    (hlive : (s.nft.owners id).isSome) (hstranger : s.nft.isApprovedOrOwner id env.caller = false) :
    (s'.nft.owners id).isSome ∧ (s.locked id).amount ≤ (s'.locked id).amount ∧
      (s.locked id).lockEnd ≤ (s'.locked id).lockEnd := by
  have hi := reachable_lockInvariant h
  obtain ⟨hi', hlock⟩ := hi.step ht hw hstep
  rcases hlock id with ⟨fromId, toId, rfl, hfrom, -⟩ | ⟨hamount, hend, -⟩
  · obtain ⟨-, happ, -⟩ := Entry.merge_spec hstep
    rw [hfrom, hstranger] at happ
    cases happ
  · have hpos : 0 < (s'.locked id).amount := lt_of_lt_of_le (hi.amount_pos hlive) hamount
    refine ⟨(hi'.live id).2 fun h0 => ?_, hamount, hend⟩
    rw [h0, LockedBalance.default_amount] at hpos
    exact lt_irrefl 0 hpos

/-- `deposit_for(1, 1)`, a deposit anyone may make. -/
def strangerDeposit : Call := .depositFor 1 ⟨1, by decide⟩

/-- `oneLock`, then `bobKey` deposits into `aliceKey`'s id 1 in the same block. -/
def bobDeposit : VeState := afterCall (atTime bobKey week) oneLock strangerDeposit

theorem stranger_cannot_shrink_lock_oneLock :
    Reachable NoAmountWrap week oneLock ∧ week ≤ currentBlockTimestampSeconds (atTime bobKey week) ∧
      NoAmountWrap oneLock (atTime bobKey week) strangerDeposit ∧
      step (atTime bobKey week) oneLock strangerDeposit = .ok bobDeposit ∧
      (oneLock.nft.owners 1).isSome ∧ oneLock.nft.isApprovedOrOwner 1 bobKey = false ∧
      ((bobDeposit.nft.owners 1).isSome ∧ (oneLock.locked 1).amount ≤ (bobDeposit.locked 1).amount ∧
        (oneLock.locked 1).lockEnd ≤ (bobDeposit.locked 1).lockEnd) :=
  have hw : NoAmountWrap oneLock (atTime bobKey week) strangerDeposit := fun _ _ h => by
    cases h; decide
  ⟨oneLock_reachable_noAmountWrap, le_rfl, hw, rfl, by decide, by decide,
    stranger_cannot_shrink_lock oneLock_reachable_noAmountWrap
      (show week ≤ currentBlockTimestampSeconds (atTime bobKey week) from le_rfl) hw rfl
      (by decide) (by decide)⟩

/-- `fullLock`, then `bobKey` deposits `1` into `aliceKey`'s id 1 in the same block. -/
def strangerWrapped : VeState := afterCall (atTime bobKey week) fullLock strangerDeposit

/-- **A stranger's deposit can empty a lock.** `bobKey`, who does not own id 1, adds `1` to its
lock of `2^128 - 1`: the amount wraps to `0`. -/
theorem strangerDeposit_wraps_lock :
    Reachable (fun _ _ _ => True) week strangerWrapped ∧
      fullLock.nft.ownerOf 1 = some aliceKey ∧ fullLock.nft.isApprovedOrOwner 1 bobKey = false ∧
      fullLock.locked 1 = ⟨2 ^ 128 - 1, 3 * week⟩ ∧ strangerWrapped.locked 1 = ⟨0, 3 * week⟩ :=
  ⟨.step (atTime bobKey week) strangerDeposit
    (.step (atTime aliceKey week) lockFull (.genesis _) le_rfl trivial rfl) le_rfl trivial rfl,
    by decide, by decide, by decide, by decide⟩

/-! ## The voter's marks -/

/-- `twoLocks`, then the voter `aliceKey` marks id 1 as voted. -/
def votedTwoLocks : VeState := afterCall (atTime aliceKey week) twoLocks (.voting 1)

/-- `votedTwoLocks`, then the voter attaches id 1. -/
def markedTwoLocks : VeState := afterCall (atTime aliceKey week) votedTwoLocks (.attach 1)

/-- `markedTwoLocks`, then `aliceKey` merges id 1 into id 2. -/
def markedMerged : VeState := afterCall (atTime aliceKey week) markedTwoLocks (.merge 1 2)

/-- **A voted and attached position is merged away.** In `markedTwoLocks` id 1 is marked voted
and attached; `merge(1, 2)` succeeds all the same and burns it. -/
theorem merge_burns_marked_token :
    Reachable (fun _ _ _ => True) week markedMerged ∧
      markedTwoLocks.voted 1 = true ∧ markedTwoLocks.attachments 1 ≠ 0 ∧
      markedTwoLocks.nft.ownerOf 1 = some aliceKey ∧
      step (atTime aliceKey week) markedTwoLocks (.merge 1 2) = .ok markedMerged ∧
      markedMerged.nft.ownerOf 1 = none :=
  ⟨.step (atTime aliceKey week) (.merge 1 2)
    (.step (atTime aliceKey week) (.attach 1)
      (.step (atTime aliceKey week) (.voting 1)
        (.step (atTime aliceKey week) lockHundred oneLock_reachable le_rfl trivial rfl)
        le_rfl trivial rfl) le_rfl trivial rfl) le_rfl trivial rfl,
    by decide, by decide, by decide, rfl, by decide⟩

/-! ## Attachment counts -/

/-- `attach(t)` for `true`, `detach(t)` for `false`. -/
def attachCall (t : Fin (2 ^ 64)) : Bool → Call
  | true => .attach t
  | false => .detach t

/-- An `attach` or a `detach` keeps the voter. -/
theorem afterCall_attachCall_voter (env : Env) (s : VeState) (t : Fin (2 ^ 64)) (b : Bool) :
    (afterCall env s (attachCall t b)).voter = s.voter := by
  cases hs : step env s (attachCall t b) with
  | error => simp [afterCall, hs]
  | ok s' =>
    rw [afterCall_of_ok hs]
    cases b
    · obtain ⟨-, rfl⟩ := Entry.detach_spec hs; rfl
    · obtain ⟨-, rfl⟩ := Entry.attach_spec hs; rfl

/-- **Attachments are not counted.** After any sequence of `attach(t)` and `detach(t)` calls by
the voter, `attachments[t]` is `t + 1` if the last was an `attach` and `t - 1` (wrapped in
`u64`) if it was a `detach`, whatever came before. -/
theorem attachments_of_last_call (env : Env) (t : Fin (2 ^ 64)) (cs : List Bool) (b : Bool)
    (s : VeState) (hv : env.caller = s.voter) :
    (runCalls env s ((cs ++ [b]).map (attachCall t))).attachments t =
      if b then wrapU64 ((t : Nat) + 1) else wrapU64 ((t : Int) - 1) := by
  have hvoter : ∀ cs : List Bool, ∀ s : VeState,
      ((cs.map (attachCall t)).foldl (afterCall env) s).voter = s.voter := by
    intro cs
    induction cs with
    | nil => intro s; rfl
    | cons b cs ih => intro s; rw [List.map_cons, List.foldl_cons, ih, afterCall_attachCall_voter]
  simp only [runCalls, List.map_append, List.foldl_append, List.map_cons, List.map_nil,
    List.foldl_cons, List.foldl_nil]
  generalize hs' : (cs.map (attachCall t)).foldl (afterCall env) s = s'
  have hv' : env.caller = s'.voter := by rw [← hs', hvoter]; exact hv
  cases b
  · have hstep : step env s' (attachCall t false) = .ok
        { s' with attachments := Function.update s'.attachments t (wrapU64 ((t : Int) - 1)) } := by
      simp [attachCall, step, Entry.detach, Entry.onlyVoter, hv']
    simp [afterCall_of_ok hstep]
  · have hstep : step env s' (attachCall t true) = .ok
        { s' with attachments := Function.update s'.attachments t (wrapU64 ((t : Nat) + 1)) } := by
      simp [attachCall, step, Entry.attach, Entry.onlyVoter, hv']
    simp [afterCall_of_ok hstep]

/-- The contract installed at week 1, after the voter `aliceKey` attaches id 2. -/
def attachedTwo : VeState :=
  afterCall (atTime aliceKey week) (genesis (atTime aliceKey week)) (.attach 2)

/-- `attachedTwo`, then the voter detaches id 2. -/
def detachedTwo : VeState := afterCall (atTime aliceKey week) attachedTwo (.detach 2)

/-- **One attachment reads as three, and a detach does not undo it.** From the installed
contract, where id 2 was never attached, `attach(2)` stores `3` and the following `detach(2)`
stores `1`. -/
theorem attach_stores_token_id :
    Reachable (fun _ _ _ => True) week detachedTwo ∧
      (genesis (atTime aliceKey week)).attachments 2 = 0 ∧ attachedTwo.attachments 2 = 3 ∧
      detachedTwo.attachments 2 = 1 :=
  ⟨.step (atTime aliceKey week) (.detach 2)
    (.step (atTime aliceKey week) (.attach 2) (.genesis _) le_rfl trivial rfl) le_rfl trivial rfl,
    rfl,
    attachments_of_last_call (atTime aliceKey week) 2 [] true (genesis (atTime aliceKey week)) rfl,
    attachments_of_last_call _ 2 [true] false (genesis (atTime aliceKey week)) rfl⟩

end VotingEscrow
