import VotingEscrow.LockChanges

/-!
# Per-position voting power

`_balance_of_nft(id, t)` projects the token's latest user point, read under the key
`id.to_string() + &uepoch.to_string()`, to time `t`. Two things keep it from following the lock.
The key is a concatenation of two decimal texts, so `(1, 11)` and `(11, 1)` share the key
`"111"`: the first checkpoint of token 11 overwrites the eleventh point of token 1. And the
projection `slope * (t - ts)` is an `i128` product, which wraps for a large slope far enough in
the future.

Without either, it does follow the lock (`balanceOfNft_follows_lock`), and it computes
`max(0, bias - slope * (t - ts))` exactly, at any `t` (`balanceOfNft_exact`). Every call is a
list of lock changes of distinct ids (`step_lockChanges`), each writing the lock's point at the
call's time under the id's next key. So as long as no user epoch wraps and the latest keys of
distinct tokens stay distinct, the latest user point of every token is its current lock's point at its
last checkpoint (`reachable_userPointsFollowLocks`), and projecting that point gives
`amount / MAXTIME * (end - t)` while the product fits in `i128`.
-/

namespace VotingEscrow

/-! ## User-point keys -/

/-- `increase_amount` of `1` into id 1. -/
def bump : Call := .increaseAmount 1 ⟨1, by decide⟩

/-- `oneLock`, then ten `bump`s (token 1 reaches user epoch 11) and nine more locks of `100`
(ids 2 to 10), all by `aliceKey` in one block. -/
def tenLocks : VeState :=
  runCalls (atTime aliceKey week) oneLock (List.replicate 10 bump ++ List.replicate 9 lockHundred)

/-- `tenLocks`, then the lock that mints id 11. -/
def elevenLocks : VeState := afterCall (atTime aliceKey week) tenLocks lockHundred

set_option maxRecDepth 20000 in
/-- **Creating token 11 overwrites a point of token 1.** Token 1's point at user epoch 11 has
bias `2 * WEEK`; the checkpoint of the new token 11 at its user epoch 1 writes the same key, and
token 1's latest point then has the bias `0` of token 11's lock of `100`. -/
theorem checkPoint_clobbers_other_token :
    (∃ t, Reachable (fun _ _ _ => True) t elevenLocks) ∧
      userPointKey 1 11 = userPointKey 11 1 ∧
      tenLocks.userPointEpoch 1 = 11 ∧ elevenLocks.userPointEpoch 1 = 11 ∧
      (getUserPoint tenLocks 1 11).bias = 2 * week ∧
      (getUserPoint elevenLocks 1 11).bias = 0 := by
  obtain ⟨t, ht, h⟩ := oneLock_reachable.runCalls (atTime aliceKey week) le_rfl
    (List.replicate 10 bump ++ List.replicate 9 lockHundred)
  obtain ⟨t', -, h'⟩ := h.afterCall (atTime aliceKey week) ht lockHundred
  exact ⟨⟨t', h'⟩, rfl, by decide, by decide, by decide, by decide⟩

/-! ## The projection past the end of a lock -/

/-- `create_lock` of `MAXTIME * 2^70` for two weeks: a slope of `2^70`. -/
def lockBig : Call := .createLock ⟨maxtime * 2 ^ 70, by decide⟩ ⟨2 * week, by decide⟩

/-- The contract installed at week 1, after `lockBig` by `aliceKey`. -/
def bigLock : VeState :=
  afterCall (atTime aliceKey week) (genesis (atTime aliceKey week)) lockBig

section Writes

variable (env : Env)

/-- The key a lock change of `w` writes, read in the state before it. -/
def writeKey (s : VeState) (w : Nat × LockedBalance) : String :=
  userPointKey w.1 (wrapU64 (s.userPointEpoch w.1 + 1))

theorem writeKey_lockChange {s : VeState} {w w' : Nat × LockedBalance} (h : w'.1 ≠ w.1) :
    writeKey (lockChange env s w) w' = writeKey s w' := by
  simp only [writeKey, lockChange_userPointEpoch]
  split <;> simp [Function.update_noteq h]

/-- A token whose only lock changes are the token-0 ones, which store the lock it has, keeps
its lock and its user epoch. -/
theorem foldl_lockChange_of_unwritten {ws : List (Nat × LockedBalance)} {s : VeState} {id : Nat}
    (h : ∀ w ∈ ws, w.1 = id → w.1 = 0 ∧ w.2 = s.locked id) :
    (ws.foldl (lockChange env) s).locked id = s.locked id ∧
      (ws.foldl (lockChange env) s).userPointEpoch id = s.userPointEpoch id := by
  induction ws generalizing s with
  | nil => exact ⟨rfl, rfl⟩
  | cons w ws ih =>
    have hw := h w (List.mem_cons_self _ _)
    have hl : (lockChange env s w).locked id = s.locked id := by
      by_cases he : w.1 = id
      · simp [← he, (hw he).2]
      · simp [Function.update_noteq (Ne.symm he)]
    have he : (lockChange env s w).userPointEpoch id = s.userPointEpoch id := by
      rw [lockChange_userPointEpoch]
      split
      · rfl
      · exact Function.update_noteq (fun he => ‹¬_› (hw he.symm).1) _ _
    obtain ⟨hl', he'⟩ := ih (s := lockChange env s w) fun w' hw' h' =>
      hl ▸ h w' (List.mem_cons_of_mem _ hw') h'
    exact ⟨hl'.trans hl, he'.trans he⟩

theorem foldl_lockChange_of_mem {ws : List (Nat × LockedBalance)} {s : VeState}
    (hnd : (ws.map Prod.fst).Nodup) {w : Nat × LockedBalance} (hw : w ∈ ws) (h0 : w.1 ≠ 0) :
    (ws.foldl (lockChange env) s).locked w.1 = w.2 ∧
      (ws.foldl (lockChange env) s).userPointEpoch w.1 = wrapU64 (s.userPointEpoch w.1 + 1) := by
  induction ws generalizing s with
  | nil => cases hw
  | cons w' ws ih =>
    simp only [List.map_cons, List.nodup_cons] at hnd
    rcases List.mem_cons.1 hw with rfl | hw
    · obtain ⟨hl, he⟩ := foldl_lockChange_of_unwritten env (s := lockChange env s w)
        fun w' (hw' : w' ∈ ws) (h' : w'.1 = w.1) => absurd (h' ▸ List.mem_map_of_mem _ hw') hnd.1
      simp [hl, he, lockChange_userPointEpoch, h0]
    · have hne : w.1 ≠ w'.1 := fun h => hnd.1 (h ▸ List.mem_map_of_mem _ hw)
      obtain ⟨hl, he⟩ := ih (s := lockChange env s w') hnd.2 hw
      refine ⟨hl, he.trans ?_⟩
      rw [lockChange_userPointEpoch]
      split <;> simp [Function.update_noteq hne]

theorem foldl_lockChange_userPointHistory_of_ne {ws : List (Nat × LockedBalance)} {s : VeState}
    (hnd : (ws.map Prod.fst).Nodup) {k : String} (hk : ∀ w ∈ ws, w.1 ≠ 0 → writeKey s w ≠ k) :
    (ws.foldl (lockChange env) s).userPointHistory k = s.userPointHistory k := by
  induction ws generalizing s with
  | nil => rfl
  | cons w ws ih =>
    simp only [List.map_cons, List.nodup_cons] at hnd
    rw [List.foldl_cons, ih hnd.2 fun w' hw' h0 => ?_, lockChange_userPointHistory]
    · split
      · rfl
      · exact Function.update_noteq (hk w (List.mem_cons_self _ _) ‹_›).symm _ _
    · have hne : w'.1 ≠ w.1 := fun h => hnd.1 (h ▸ List.mem_map_of_mem _ hw')
      rw [writeKey_lockChange env hne]
      exact hk w' (List.mem_cons_of_mem _ hw') h0

theorem foldl_lockChange_userPointHistory_writeKey {ws : List (Nat × LockedBalance)}
    {s : VeState} (hnd : (ws.map Prod.fst).Nodup) {w : Nat × LockedBalance} (hw : w ∈ ws)
    (h0 : w.1 ≠ 0) (hk : ∀ w' ∈ ws, w'.1 ≠ 0 → w'.1 ≠ w.1 → writeKey s w' ≠ writeKey s w) :
    (ws.foldl (lockChange env) s).userPointHistory (writeKey s w) =
      { lockPoint w.2 (currentBlockTimestampSeconds env) with
        ts := currentBlockTimestampSeconds env, blk := currentBlockNumber } := by
  induction ws generalizing s with
  | nil => cases hw
  | cons w' ws ih =>
    simp only [List.map_cons, List.nodup_cons] at hnd
    rcases List.mem_cons.1 hw with rfl | hw
    · rw [List.foldl_cons,
        foldl_lockChange_userPointHistory_of_ne env hnd.2 fun w'' hw'' h0'' => ?_]
      · simp [lockChange_userPointHistory, h0, writeKey]
      · have hne : w''.1 ≠ w.1 := fun h => hnd.1 (h ▸ List.mem_map_of_mem _ hw'')
        rw [writeKey_lockChange env hne]
        exact hk w'' (List.mem_cons_of_mem _ hw'') h0'' hne
    · have hne : w.1 ≠ w'.1 := fun h => hnd.1 (h ▸ List.mem_map_of_mem _ hw)
      rw [List.foldl_cons, ← writeKey_lockChange env hne]
      refine ih hnd.2 hw fun w'' hw'' h0'' hne'' => ?_
      have hne' : w''.1 ≠ w'.1 := fun h => hnd.1 (h ▸ List.mem_map_of_mem _ hw'')
      rw [writeKey_lockChange env hne', writeKey_lockChange env hne]
      exact hk w'' (List.mem_cons_of_mem _ hw'') h0'' hne''

end Writes

/-- Distinct tokens' latest user points are stored under distinct keys. -/
def LatestKeysDistinct (s : VeState) : Prop :=
  ∀ id id', id ≠ id' → 0 < s.userPointEpoch id → 0 < s.userPointEpoch id' →
    userPointKey id (s.userPointEpoch id) ≠ userPointKey id' (s.userPointEpoch id')

/-- The runs of the balance law: no user epoch is about to wrap, and no call leaves the latest
user points of two tokens under one key. -/
def LatestKeysStayDistinct (s : VeState) (env : Env) (c : Call) : Prop :=
  (∀ id, s.userPointEpoch id + 1 < 2 ^ 64) ∧ ∀ s', step env s c = .ok s' → LatestKeysDistinct s'

/-- The latest user point of each token is its current lock's point at a checkpoint time at
most `t`; a token with no user point has no lock. -/
def UserPointsFollowLocks (t : Nat) (s : VeState) : Prop :=
  ∀ id, (s.userPointEpoch id = 0 ∧ s.locked id = LockedBalance.default) ∨
    (0 < s.userPointEpoch id ∧ ∃ tcp ≤ t, getUserPoint s id (s.userPointEpoch id) =
      { lockPoint (s.locked id) tcp with ts := tcp, blk := currentBlockNumber })

theorem genesis_userPointsFollowLocks (env : Env) :
    UserPointsFollowLocks (currentBlockTimestampSeconds env) (genesis env) :=
  fun _ => .inl ⟨rfl, rfl⟩

/-- One call keeps the latest user points on the locks, the ids it changes at its own time. -/
theorem UserPointsFollowLocks.step {t : Nat} {s s' : VeState} {env : Env} {c : Call}
    (hi : UserPointsFollowLocks t s) (hz : ZeroFree s) (ht : t ≤ currentBlockTimestampSeconds env)
    (hw : LatestKeysStayDistinct s env c) (h : step env s c = .ok s') :
    UserPointsFollowLocks (currentBlockTimestampSeconds env) s' := by
  obtain ⟨-, ws, hnd, hzero, hcore, -⟩ := step_lockChanges hz h
  have hdist := hw.2 s' h
  simp only [LatestKeysDistinct, hcore.userPointEpoch] at hdist
  intro id
  simp only [getUserPoint, hcore.locked, hcore.userPointEpoch, hcore.userPointHistory]
  set f := ws.foldl (lockChange env) s
  /- A changed id's write key is its latest key in the final state. -/
  have hkey {w} (hw' : w ∈ ws) (h0 : w.1 ≠ 0) :
      writeKey s w = userPointKey w.1 (f.userPointEpoch w.1) ∧ 0 < f.userPointEpoch w.1 := by
    rw [(foldl_lockChange_of_mem env hnd hw' h0).2, wrapU64_succ_of_lt (hw.1 w.1)]
    exact ⟨by rw [writeKey, wrapU64_succ_of_lt (hw.1 w.1)], Nat.succ_pos _⟩
  by_cases hwr : ∃ w ∈ ws, w.1 = id ∧ id ≠ 0
  · obtain ⟨w, hw', rfl, h0⟩ := hwr
    obtain ⟨hk, hpos⟩ := hkey hw' h0
    refine .inr ⟨hpos, _, le_rfl, ?_⟩
    rw [← hk, foldl_lockChange_userPointHistory_writeKey env hnd hw' h0 fun w' hw'' h0' hne => ?_,
      (foldl_lockChange_of_mem env hnd hw' h0).1]
    rw [(hkey hw'' h0').1, hk]
    exact hdist _ _ hne (hkey hw'' h0').2 hpos
  · push_neg at hwr
    obtain ⟨hl, he⟩ := foldl_lockChange_of_unwritten env (s := s) fun w hw' (h' : w.1 = id) =>
      ⟨h'.trans (hwr w hw' h'),
        by rw [hzero w hw' (h'.trans (hwr w hw' h')), hwr w hw' h', hz.locked]⟩
    rw [show f.locked id = s.locked id from hl,
      show f.userPointEpoch id = s.userPointEpoch id from he]
    refine (hi id).imp_right fun ⟨hpos, tcp, htcp, hpt⟩ => ⟨hpos, tcp, htcp.trans ht, ?_⟩
    rw [← hpt, getUserPoint, foldl_lockChange_userPointHistory_of_ne env hnd fun w hw' h0 => ?_]
    have hne : w.1 ≠ id := fun he' => h0 (he'.trans (hwr w hw' he'))
    rw [(hkey hw' h0).1, ← he]
    exact hdist _ _ hne (hkey hw' h0).2 (he ▸ hpos)

/-- The point of a lock at `tcp`, projected by `_balance_of_nft` to `t ≥ tcp`, is the lock's
decayed value at `t` while `slope * (max end t - tcp)` fits in `i128`: the bias is the decay
still ahead at `tcp`, the clamp cuts the projection past the end. -/
theorem project_lockPoint {l : LockedBalance} {tcp t : Nat} (ht : tcp ≤ t)
    (hfit : l.amount / maxtime * (max l.lockEnd t - tcp) < 2 ^ 127) :
    (clampNonNegative (wrapI128
      (({ lockPoint l tcp with ts := tcp, blk := currentBlockNumber } : Point).bias -
        wrapI128 (({ lockPoint l tcp with ts := tcp, blk := currentBlockNumber } : Point).slope *
          ((t : Int) - tcp))))).toNat = l.amount / maxtime * (l.lockEnd - t) := by
  unfold lockPoint
  split
  · set S := l.amount / maxtime
    have hE : S * (l.lockEnd - tcp) < 2 ^ 127 :=
      lt_of_le_of_lt (Nat.mul_le_mul_left _ (by omega)) hfit
    have hT : S * (t - tcp) < 2 ^ 127 :=
      lt_of_le_of_lt (Nat.mul_le_mul_left _ (by omega)) hfit
    have hx : (S : Int) * ((t : Int) - tcp) = ((S * (t - tcp) : Nat) : Int) := by
      rw [Nat.cast_mul, Nat.cast_sub ht]
    simp only
    rw [← Nat.cast_mul, wrapI128_natCast_of_lt hE, hx, wrapI128_natCast_of_lt hT,
      wrapI128_of_mem (by omega) (by omega)]
    by_cases hle : t ≤ l.lockEnd
    · have hsplit : S * (l.lockEnd - tcp) = S * (l.lockEnd - t) + S * (t - tcp) := by
        rw [← Nat.mul_add]; congr 1; omega
      rw [hsplit, Nat.cast_add, add_sub_cancel_right, clampNonNegative_of_nonneg (by omega)]
      rfl
    · have hmono : S * (l.lockEnd - tcp) ≤ S * (t - tcp) := Nat.mul_le_mul_left _ (by omega)
      rw [Nat.sub_eq_zero_of_le (by omega : l.lockEnd ≤ t), Nat.mul_zero]
      simp only [clampNonNegative]
      split <;> omega
  · rename_i hdead
    simp only [Point.default, Int.zero_mul, wrapI128_zero, sub_zero, clampNonNegative,
      lt_irrefl, if_false, Int.toNat_zero]
    rcases not_and_or.1 hdead with h | h
    · rw [Nat.sub_eq_zero_of_le (by omega), Nat.mul_zero]
    · rw [Nat.eq_zero_of_not_pos h, Nat.zero_div, Nat.zero_mul]

theorem reachable_userPointsFollowLocks {t : Nat} {s : VeState}
    (h : Reachable LatestKeysStayDistinct t s) : ZeroFree s ∧ UserPointsFollowLocks t s := by
  induction h with
  | genesis env => exact ⟨genesis_zeroFree env, genesis_userPointsFollowLocks env⟩
  | step env c _ ht hallowed hstep ih =>
    exact ⟨(step_lockChanges ih.1 hstep).1, ih.2.step ih.1 ht hallowed hstep⟩

/-- `_balance_of_nft` of a latest user point that is the lock's point at `tcp`, at a time
`t ≥ tcp` where the decay since `tcp` fits in `i128`, is the lock's decayed value. -/
theorem balanceOfNft_of_follows {t : Nat} {s : VeState} (hi : UserPointsFollowLocks t s)
    (id : Nat) {t' : Nat} (ht' : (getUserPoint s id (s.userPointEpoch id)).ts ≤ t')
    (hfit : (s.locked id).amount / maxtime *
      (max (s.locked id).lockEnd t' - (getUserPoint s id (s.userPointEpoch id)).ts) < 2 ^ 127) :
    balanceOfNft s id t' = (s.locked id).amount / maxtime * ((s.locked id).lockEnd - t') := by
  rcases hi id with ⟨he, hl⟩ | ⟨hpos, tcp, -, hpt⟩
  · rw [balanceOfNft_of_userPointEpoch_eq_zero t' he, hl]
    simp
  · rw [hpt] at ht' hfit
    rw [balanceOfNft, if_neg hpos.ne', hpt]
    exact project_lockPoint ht' hfit

/-- `oneLock` is a run of the balance law: its one call writes the single user point of id 1. -/
theorem oneLock_reachable_keysDistinct : Reachable LatestKeysStayDistinct week oneLock := by
  refine .step (atTime aliceKey week) lockMaxtime (.genesis _) le_rfl
    ⟨fun _ => show 0 + 1 < 2 ^ 64 by decide, fun s' hs => ?_⟩ rfl
  obtain rfl : s' = oneLock := Except.ok.inj (hs.symm.trans rfl)
  have hone (i : Nat) (hi : 0 < oneLock.userPointEpoch i) : i = 1 := by_contra fun hne => by
    rw [oneLock_userPointEpoch, Function.update_noteq hne] at hi
    exact lt_irrefl 0 hi
  exact fun id id' hne h h' => absurd ((hone id h).trans (hone id' h').symm) hne

/-- The projection of a lock's point at `tcp` to any time `q` wraps nowhere while the lock's slope
times the span from `min tcp q` to `max end q` fits in `i128`: it is
`max(0, bias - slope * (q - tcp))` in the integers. -/
theorem lockPoint_projection_exact {l : LockedBalance} {tcp q : Nat}
    (hfit : l.amount / maxtime * (max l.lockEnd q - min tcp q) < 2 ^ 127) :
    clampNonNegative (wrapI128
      (({ lockPoint l tcp with ts := tcp, blk := currentBlockNumber } : Point).bias -
        wrapI128 (({ lockPoint l tcp with ts := tcp, blk := currentBlockNumber } : Point).slope *
          ((q : Int) - tcp)))) =
      max 0 (({ lockPoint l tcp with ts := tcp, blk := currentBlockNumber } : Point).bias -
        ({ lockPoint l tcp with ts := tcp, blk := currentBlockNumber } : Point).slope *
          ((q : Int) - tcp)) := by
  rw [clampNonNegative_eq_max]
  unfold lockPoint
  split
  · rename_i hlive
    set S := l.amount / maxtime
    -- every value the projection computes is a difference of `S * end`, `S * tcp`, `S * q`
    have hspan : max (S * l.lockEnd) (S * q) - min (S * tcp) (S * q) < 2 ^ 127 := by
      rwa [Nat.mul_max_mul_left, Nat.mul_min_mul_left, ← Nat.mul_sub]
    have ht : S * tcp ≤ S * l.lockEnd := Nat.mul_le_mul_left S (le_of_lt hlive.1)
    have hbias : ((S : Nat) : Int) * ((l.lockEnd - tcp : Nat) : Int) =
        ((S * l.lockEnd : Nat) : Int) - ((S * tcp : Nat) : Int) := by
      rw [Nat.cast_sub (le_of_lt hlive.1), mul_sub, Nat.cast_mul, Nat.cast_mul]
    have hprod : ((S : Nat) : Int) * ((q : Int) - tcp) =
        ((S * q : Nat) : Int) - ((S * tcp : Nat) : Int) := by
      rw [mul_sub, Nat.cast_mul, Nat.cast_mul]
    dsimp only
    rw [hbias, wrapI128_of_mem (x := ((S * l.lockEnd : Nat) : Int) - ((S * tcp : Nat) : Int))
      (by omega) (by omega), hprod,
      wrapI128_of_mem (x := ((S * q : Nat) : Int) - ((S * tcp : Nat) : Int)) (by omega) (by omega),
      wrapI128_of_mem (by omega) (by omega)]
  · simp [Point.default]

/-- **`_balance_of_nft` does not overflow while the decay fits.** In every run of the balance
law, for every token and every query time `q`, while `amount / MAXTIME` times the span from
`min ts q` to `max end q` fits in `i128` (`ts` the time of the token's latest point),
`_balance_of_nft` is exactly `max(0, bias - slope * (q - ts))` of that point, computed in the
integers. -/
theorem balanceOfNft_exact {t : Nat} {s : VeState} (h : Reachable LatestKeysStayDistinct t s)
    (id q : Nat) (hfit : (s.locked id).amount / maxtime * (max (s.locked id).lockEnd q -
      min (getUserPoint s id (s.userPointEpoch id)).ts q) < 2 ^ 127) :
    balanceOfNft s id q = if s.userPointEpoch id = 0 then 0 else
      (max 0 ((getUserPoint s id (s.userPointEpoch id)).bias -
        (getUserPoint s id (s.userPointEpoch id)).slope *
          ((q : Int) - (getUserPoint s id (s.userPointEpoch id)).ts))).toNat := by
  rcases (reachable_userPointsFollowLocks h).2 id with ⟨he, -⟩ | ⟨hpos, tcp, -, hpt⟩
  · rw [balanceOfNft_of_userPointEpoch_eq_zero q he, if_pos he]
  · rw [hpt] at hfit
    rw [balanceOfNft, if_neg hpos.ne', if_neg hpos.ne', hpt]
    exact congrArg Int.toNat (lockPoint_projection_exact hfit)

theorem balanceOfNft_exact_oneLock :
    Reachable LatestKeysStayDistinct week oneLock ∧
      (oneLock.locked 1).amount / maxtime * (max (oneLock.locked 1).lockEnd (4 * week) -
        min (getUserPoint oneLock 1 (oneLock.userPointEpoch 1)).ts (4 * week)) < 2 ^ 127 ∧
      balanceOfNft oneLock 1 (4 * week) = if oneLock.userPointEpoch 1 = 0 then 0 else
        (max 0 ((getUserPoint oneLock 1 (oneLock.userPointEpoch 1)).bias -
          (getUserPoint oneLock 1 (oneLock.userPointEpoch 1)).slope *
            (((4 * week : Nat) : Int) -
              (getUserPoint oneLock 1 (oneLock.userPointEpoch 1)).ts))).toNat :=
  ⟨oneLock_reachable_keysDistinct, by decide,
    balanceOfNft_exact oneLock_reachable_keysDistinct 1 (4 * week) (by decide)⟩

/-- **The projection overflows for a large lock.** `fullLock` holds `2^128 - 1`, a slope of
`(2^128 - 1) / MAXTIME`. `2^24` seconds after its checkpoint, past its end at week 3,
`slope * (t - ts)` is at least `2^127`: the exact `max(0, bias - slope * (t - ts))` is `0`, but
`_balance_of_nft` returns a wrapped positive value. -/
theorem balanceOfNft_overflows_past_end :
    Reachable (fun _ _ _ => True) week fullLock ∧ fullLock.userPointEpoch 1 = 1 ∧
      getUserPoint fullLock 1 1 = ⟨(((2 ^ 128 - 1) / maxtime * (2 * week) : Nat) : Int),
        (((2 ^ 128 - 1) / maxtime : Nat) : Int), week, currentBlockNumber⟩ ∧
      2 ^ 127 ≤ (2 ^ 128 - 1) / maxtime * 2 ^ 24 ∧
      max 0 ((getUserPoint fullLock 1 1).bias - (getUserPoint fullLock 1 1).slope *
        (((week + 2 ^ 24 : Nat) : Int) - (getUserPoint fullLock 1 1).ts)) = 0 ∧
      balanceOfNft fullLock 1 (week + 2 ^ 24) = 3401438718591065796768612274542013696 :=
  ⟨.step (atTime aliceKey week) lockFull (.genesis _) le_rfl trivial rfl, by decide, by decide,
    by decide, by decide, by decide⟩

end VotingEscrow
