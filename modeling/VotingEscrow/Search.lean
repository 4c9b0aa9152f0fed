import VotingEscrow.Query

/-!
# The binary searches of the queries

`_find_block_epoch` and the search `_balance_of_at_nft` inlines over a token's history are one
loop (`blockSearch`): at most 128 iterations on the window `[_min, _max]`, each keeping the upper
part from the midpoint `(_min + _max + 1) / 2` when the block there is at most the target, and
the part below the midpoint otherwise. `_get_past_votes_index` searches an account's checkpoints
by timestamp with a `while` loop (`pastVotesSearch`) that moves the lower end to the center, or
lowers the upper end by one, or returns the center when its timestamp is the target.

Both return the greatest index at or below their bound whose key is at most the target, or `0`
when there is none (`IsLastAtMost`), and both are proved with one invariant on the window
(`Window`). The block search needs its blocks nondecreasing and its bound below `2^63`: every
window it visits then lies below the bound, so `_min + _max + 1` fits in `u64`, and each
iteration halves the window, so the loop breaks after at most 63 iterations, before its cap. The
checkpoint search needs its timestamps strictly increasing, since it returns the first center
whose timestamp equals the target.

## Main results

* `blockSearch_finds_last_block` — `_find_block_epoch` and the search over a token's history.
* `getPastVotesIndex_finds_last_checkpoint` — `_get_past_votes_index`.
-/

namespace VotingEscrow

/-- `r` is the greatest index `e ≤ m` with `key e ≤ target` when there is one, and `0` when there
is none. -/
def IsLastAtMost (key : Nat → Nat) (target m r : Nat) : Prop :=
  ((∃ e ≤ m, key e ≤ target) → r ≤ m ∧ key r ≤ target ∧ ∀ e, r < e → e ≤ m → target < key e) ∧
    ((∀ e ≤ m, target < key e) → r = 0)

/-- `key` does not decrease over the indices `0..m`. -/
def NondecreasingTo (key : Nat → Nat) (m : Nat) : Prop := ∀ j ≤ m, ∀ i ≤ j, key i ≤ key j

instance (key : Nat → Nat) (m : Nat) : Decidable (NondecreasingTo key m) :=
  inferInstanceAs (Decidable (∀ j ≤ m, ∀ i ≤ j, _))

/-- The window `[lo, hi]` of a search for the last index `e ≤ m` with `key e ≤ target`: `lo` is
`0` or has a key at most the target, and every index above `hi` has a larger key. -/
structure Window (key : Nat → Nat) (target m lo hi : Nat) : Prop where
  le : lo ≤ hi
  le_bound : hi ≤ m
  low : key lo ≤ target ∨ lo = 0
  above : ∀ e, hi < e → e ≤ m → target < key e

namespace Window

variable {key : Nat → Nat} {target m lo hi : Nat}

theorem init (key : Nat → Nat) (target m : Nat) : Window key target m 0 m :=
  ⟨Nat.zero_le m, le_rfl, .inr rfl, fun _ h₁ h₂ => absurd h₂ (by omega)⟩

/-- A window closed to one index holds the answer. -/
theorem isLastAtMost (hw : Window key target m lo lo) : IsLastAtMost key target m lo := by
  refine ⟨fun ⟨e, he, hk⟩ => ⟨hw.le_bound, ?_, hw.above⟩, fun hnone => ?_⟩
  · rcases hw.low with h | rfl
    · exact h
    · rcases Nat.eq_zero_or_pos e with rfl | hpos
      · exact hk
      · exact absurd hk (not_le.2 (hw.above e hpos he))
  · exact hw.low.resolve_left (not_le.2 (hnone lo hw.le_bound))

/-- An index at most `hi` whose key is at most the target becomes the lower end. -/
theorem up (hw : Window key target m lo hi) {c : Nat} (hc : c ≤ hi) (hk : key c ≤ target) :
    Window key target m c hi :=
  ⟨hc, hw.le_bound, .inl hk, hw.above⟩

/-- An index whose key is past the target has every later key past it too: the upper end drops
to any `hi'` from just below it. -/
theorem down (hw : Window key target m lo hi) (hs : NondecreasingTo key m) {c hi' : Nat}
    (hk : target < key c) (hc : c ≤ hi' + 1) (hlo : lo ≤ hi') (hhi : hi' ≤ hi) :
    Window key target m lo hi' :=
  ⟨hlo, hhi.trans hw.le_bound, hw.low, fun e he hem => hk.trans_le (hs e hem c (by omega))⟩

end Window

/-! ## The block search -/

section BlockSearch

variable {key : Nat → Nat} {target m lo hi : Nat}

/-- The loop of `blockSearch` from the window `[0, m]` runs its body `searchStep` some `n ≤ 63`
times, each on a window with `_min < _max` and `_min + _max + 1` within `u64`; it breaks on the
window after them, and returns its `_min`. -/
def SearchFitsU64 (blkAt : Nat → Nat) (block m : Nat) : Prop :=
  ∃ n ≤ 63, (∀ i < n,
      ((searchStep blkAt block)^[i] (0, m)).1 < ((searchStep blkAt block)^[i] (0, m)).2 ∧
      ((searchStep blkAt block)^[i] (0, m)).1 + ((searchStep blkAt block)^[i] (0, m)).2 + 1 <
        2 ^ 64) ∧
    ((searchStep blkAt block)^[n] (0, m)).2 ≤ ((searchStep blkAt block)^[n] (0, m)).1 ∧
    blockSearch blkAt block 128 0 m = ((searchStep blkAt block)^[n] (0, m)).1

/-- Below `2^63` the midpoint `(_min + _max + 1) / 2` does not wrap, and neither does the
`_mid - 1` of the lower branch. -/
theorem searchStep_of_lt (h : lo < hi) (hhi : hi < 2 ^ 63) :
    searchStep key target (lo, hi) = if key ((lo + hi + 1) / 2) ≤ target
      then ((lo + hi + 1) / 2, hi) else (lo, (lo + hi + 1) / 2 - 1) := by
  have hsum : wrapU64 ((lo : Int) + hi + 1) = lo + hi + 1 := by
    rw [← wrapU64_of_lt (n := lo + hi + 1) (by omega)]; push_cast; rfl
  have hmid : wrapU64 ((((lo + hi + 1) / 2 : Nat) : Int) - 1) = (lo + hi + 1) / 2 - 1 := by
    rw [show (((lo + hi + 1) / 2 : Nat) : Int) - 1 = (((lo + hi + 1) / 2 - 1 : Nat) : Int) by
      omega]
    exact wrapU64_of_lt (by omega)
  simp only [searchStep, hsum, hmid]

/-- On a window closed to one index the loop breaks at once. -/
theorem blockSearch_self (fuel : Nat) : blockSearch key target fuel lo lo = lo := by
  cases fuel <;> simp [blockSearch]

theorem blockSearch_succ_of_lt {fuel : Nat} (h : lo < hi) :
    blockSearch key target (fuel + 1) lo hi = blockSearch key target fuel
      (searchStep key target (lo, hi)).1 (searchStep key target (lo, hi)).2 := by
  rw [blockSearch, if_neg (not_le.2 h)]

namespace Window

/-- From a window of width below `2^k`, `n ≥ k` iterations find the answer: the loop runs its
body `j ≤ k` times, each on a window `lo < hi ≤ m`, and breaks on the window after them. -/
theorem blockSearch (hw : Window key target m lo hi) (hs : NondecreasingTo key m)
    (hm : m < 2 ^ 63) {k n : Nat} (hk : hi - lo < 2 ^ k) (hn : k ≤ n) :
    IsLastAtMost key target m (blockSearch key target n lo hi) ∧ ∃ j ≤ k,
      (∀ i < j,
        ((searchStep key target)^[i] (lo, hi)).1 < ((searchStep key target)^[i] (lo, hi)).2 ∧
        ((searchStep key target)^[i] (lo, hi)).2 ≤ m) ∧
      ((searchStep key target)^[j] (lo, hi)).2 ≤ ((searchStep key target)^[j] (lo, hi)).1 ∧
      VotingEscrow.blockSearch key target n lo hi = ((searchStep key target)^[j] (lo, hi)).1 := by
  induction n generalizing lo hi k with
  | zero =>
    obtain rfl : k = 0 := by omega
    obtain rfl : hi = lo := by have := hw.le; rw [pow_zero] at hk; omega
    exact ⟨blockSearch_self 0 ▸ hw.isLastAtMost, 0, le_rfl,
      fun _ h => absurd h (Nat.not_lt_zero _), le_rfl, blockSearch_self 0⟩
  | succ n ih =>
    rcases Nat.lt_or_ge lo hi with h | h
    · obtain _ | k := k
      · rw [pow_zero] at hk; omega
      have hhi : hi < 2 ^ 63 := by have := hw.le_bound; omega
      rw [pow_succ] at hk
      /- One iteration keeps a window of the answer and halves its width. -/
      have hw' : Window key target m (searchStep key target (lo, hi)).1
          (searchStep key target (lo, hi)).2 ∧
          (searchStep key target (lo, hi)).2 - (searchStep key target (lo, hi)).1 < 2 ^ k := by
        rw [searchStep_of_lt h hhi]
        split <;> rename_i hmid
        · exact ⟨hw.up (by omega) hmid, by dsimp only; omega⟩
        · exact ⟨hw.down hs (not_le.1 hmid) (by omega) (by omega) (by omega), by dsimp only; omega⟩
      obtain ⟨hr, j, hj, hfit, hbreak, heq⟩ := ih hw'.1 hw'.2 (by omega)
      rw [blockSearch_succ_of_lt h]
      refine ⟨hr, j + 1, by omega, fun i hi' => ?_, by rwa [Function.iterate_succ_apply],
        by rw [heq, Function.iterate_succ_apply]⟩
      rcases i with _ | i
      · exact ⟨h, hw.le_bound⟩
      · rw [Function.iterate_succ_apply]; exact hfit i (by omega)
    · obtain rfl : hi = lo := le_antisymm h hw.le
      exact ⟨blockSearch_self (n + 1) ▸ hw.isLastAtMost, 0, Nat.zero_le _,
        fun _ h => absurd h (Nat.not_lt_zero _), le_rfl, blockSearch_self (n + 1)⟩

end Window

/-- The 128 iterations from `[0, m]` over nondecreasing blocks, with `m < 2^63`. -/
theorem blockSearch_spec (hs : NondecreasingTo key m) (hm : m < 2 ^ 63) :
    IsLastAtMost key target m (blockSearch key target 128 0 m) ∧ SearchFitsU64 key target m := by
  obtain ⟨hr, j, hj, hfit, hbreak, heq⟩ :=
    (Window.init key target m).blockSearch hs hm (k := 63) (n := 128) (by omega) (by omega)
  exact ⟨hr, j, hj, fun i hi => ⟨(hfit i hi).1, by have := hfit i hi; omega⟩, hbreak, heq⟩

/-- **The block searches find the last point at or before the block.** Over point histories
whose blocks do not decrease on `0..m`, `m < 2^63`, `_find_block_epoch(block, m)` is the greatest
epoch `e ≤ m` whose block is at most `block`, or `0` when there is none; and the point
`_balance_of_at_nft` projects is the token's user point at the greatest epoch
`e ≤ USER_POINT_EPOCH` whose block is at most `block`, or at `0`. Both loops break after at most
63 iterations, with `_min + _max + 1` in `u64` at each. -/
theorem blockSearch_finds_last_block :
    (∀ (s : VeState) (block m : Nat), NondecreasingTo (fun e => (s.pointHistory e).blk) m →
      m < 2 ^ 63 →
        IsLastAtMost (fun e => (s.pointHistory e).blk) block m (findBlockEpoch s block m) ∧
          SearchFitsU64 (fun e => (s.pointHistory e).blk) block m) ∧
    ∀ (env : Env) (s : VeState) (tokenId block : Nat),
      NondecreasingTo (fun e => (getUserPoint s tokenId e).blk) (s.userPointEpoch tokenId) →
      s.userPointEpoch tokenId < 2 ^ 63 →
        ∃ e, IsLastAtMost (fun e => (getUserPoint s tokenId e).blk) block
            (s.userPointEpoch tokenId) e ∧
          balanceOfAtNft env s tokenId block =
            balanceOfPointAtBlock env s (getUserPoint s tokenId e) block ∧
          SearchFitsU64 (fun e => (getUserPoint s tokenId e).blk) block
            (s.userPointEpoch tokenId) :=
  ⟨fun _ _ _ hs hm => blockSearch_spec hs hm, fun _ _ _ _ hs hm =>
    ⟨_, (blockSearch_spec hs hm).1, rfl, (blockSearch_spec hs hm).2⟩⟩

/-- Global point `e` at block `10 * e`, and token 1 with three points, all at block `0`. -/
def tenBlocks : VeState :=
  { genesis ⟨nullKey, 0⟩ with
    pointHistory := fun e => ⟨0, 0, 0, 10 * e⟩
    userPointEpoch := fun _ => 3 }

theorem blockSearch_finds_last_block_tenBlocks :
    findBlockEpoch tenBlocks 35 7 = 3 ∧
      IsLastAtMost (fun e => (tenBlocks.pointHistory e).blk) 35 7 (findBlockEpoch tenBlocks 35 7) ∧
      ∃ e, IsLastAtMost (fun e => (getUserPoint tenBlocks 1 e).blk) 35 3 e ∧
        balanceOfAtNft ⟨nullKey, 0⟩ tenBlocks 1 35 =
          balanceOfPointAtBlock ⟨nullKey, 0⟩ tenBlocks (getUserPoint tenBlocks 1 e) 35 ∧
        SearchFitsU64 (fun e => (getUserPoint tenBlocks 1 e).blk) 35 3 :=
  ⟨by decide, (blockSearch_finds_last_block.1 tenBlocks 35 7 (by decide) (by decide)).1,
    blockSearch_finds_last_block.2 ⟨nullKey, 0⟩ tenBlocks 1 35 (by decide) (by decide)⟩

end BlockSearch

/-! ## The checkpoint search -/

section PastVotes

variable {key : Nat → Nat} {target m : Nat}

/-- `key` strictly increases over the indices below `n`. -/
def IncreasingBelow (key : Nat → Nat) (n : Nat) : Prop := ∀ j < n, ∀ i < j, key i < key j

instance (key : Nat → Nat) (n : Nat) : Decidable (IncreasingBelow key n) :=
  inferInstanceAs (Decidable (∀ j < n, ∀ i < j, _))

theorem IncreasingBelow.nondecreasingTo (hinc : IncreasingBelow key (m + 1)) :
    NondecreasingTo key m := fun j hj i hi =>
  (Nat.eq_or_lt_of_le hi).elim (fun h => h ▸ le_rfl) fun h => (hinc j (by omega) i h).le

/-- With strictly increasing keys, an index whose key is the target is the answer. -/
theorem isLastAtMost_of_eq (hinc : IncreasingBelow key (m + 1)) {c : Nat} (hc : c ≤ m)
    (heq : key c = target) : IsLastAtMost key target m c :=
  ⟨fun _ => ⟨hc, heq.le, fun e he hem => heq ▸ hinc e (by omega) c he⟩,
    fun hnone => absurd heq (hnone c hc).ne'⟩

variable {s : VeState} {account : Key} {t : Nat}

/-- The `while` loop of `_get_past_votes_index`, from a window of its answer, returns the answer. -/
theorem Window.pastVotesSearch {lower upper : Nat}
    (hinc : IncreasingBelow (fun i => (getCheckPoint s account i).timestamp) (m + 1))
    (hw : Window (fun i => (getCheckPoint s account i).timestamp) t m lower upper) :
    IsLastAtMost (fun i => (getCheckPoint s account i).timestamp) t m
      (pastVotesSearch s account t lower upper) := by
  induction lower, upper using pastVotesSearch.induct s account t with
  | case1 lower upper h center cp heq =>
    simp only [cp, center] at heq
    rw [VotingEscrow.pastVotesSearch, if_pos h]
    simp only [if_pos heq]
    exact isLastAtMost_of_eq hinc (by have := hw.le_bound; omega) heq
  | case2 lower upper h center cp hne hlt ih =>
    simp only [cp, center] at hne hlt ih
    rw [VotingEscrow.pastVotesSearch, if_pos h]
    simp only [if_neg hne, if_pos hlt]
    exact ih (hw.up (by omega) hlt.le)
  | case3 lower upper h center cp hne hgt ih =>
    simp only [cp, center] at hne hgt ih
    rw [VotingEscrow.pastVotesSearch, if_pos h]
    simp only [if_neg hne, if_neg hgt]
    exact ih (hw.down hinc.nondecreasingTo (lt_of_le_of_ne (not_lt.1 hgt) (Ne.symm hne))
      (by omega) (by omega) (by omega))
  | case4 lower upper h =>
    rw [VotingEscrow.pastVotesSearch, if_neg h]
    obtain rfl : upper = lower := by have := hw.le; omega
    exact hw.isLastAtMost

/-- **`_get_past_votes_index` finds the last checkpoint at or before the time.** For an account
whose checkpoints `0..n-1` have strictly increasing timestamps, the result is `0` when `n = 0` or
the first timestamp is after `t`, and otherwise the greatest index `i < n` whose timestamp is at
most `t`, or `0` when there is none. The loop recurses on `upper - lower`, which each iteration
lowers, so it ends on every input. -/
theorem getPastVotesIndex_finds_last_checkpoint (s : VeState) (account : Key) (t : Nat)
    (hinc : IncreasingBelow (fun i => (getCheckPoint s account i).timestamp)
      (getNumCheckpoints s account)) :
    (getNumCheckpoints s account = 0 ∨ t < (getCheckPoint s account 0).timestamp →
        getPastVotesIndex s account t = 0) ∧
      (0 < getNumCheckpoints s account →
        IsLastAtMost (fun i => (getCheckPoint s account i).timestamp) t
          (getNumCheckpoints s account - 1) (getPastVotesIndex s account t)) := by
  have hspec (hn : 0 < getNumCheckpoints s account) :
      IsLastAtMost (fun i => (getCheckPoint s account i).timestamp) t
        (getNumCheckpoints s account - 1) (getPastVotesIndex s account t) := by
    have hinc' : IncreasingBelow (fun i => (getCheckPoint s account i).timestamp)
        (getNumCheckpoints s account - 1 + 1) := by rwa [Nat.sub_add_cancel hn]
    dsimp only [getPastVotesIndex]
    rw [if_neg hn.ne']
    split_ifs with hlast hfirst
    · exact (Window.mk le_rfl le_rfl (.inl hlast) fun e h₁ h₂ => absurd h₂ (by omega)).isLastAtMost
    · exact (Window.mk le_rfl (Nat.zero_le _) (.inr rfl) fun e he hem =>
        hfirst.trans (hinc' e (by omega) 0 he)).isLastAtMost
    · exact (Window.init _ t _).pastVotesSearch hinc'
  refine ⟨fun h => ?_, hspec⟩
  rcases Nat.eq_zero_or_pos (getNumCheckpoints s account) with hn | hn
  · simp [getPastVotesIndex, hn]
  · have h0 := h.resolve_left hn.ne'
    refine (hspec hn).2 fun e he => ?_
    rcases Nat.eq_zero_or_pos e with rfl | he0
    · exact h0
    · exact h0.trans (hinc e (by omega) 0 he0)

/-- Three checkpoints of the null key, at seconds `10`, `20` and `30`. -/
def threeCheckpoints : VeState :=
  { genesis ⟨nullKey, 0⟩ with
    checkpoints := fun _ i => ⟨10 * (i + 1), []⟩
    numCheckpoints := fun _ => 3 }

theorem getPastVotesIndex_finds_last_checkpoint_three :
    getPastVotesIndex threeCheckpoints nullKey 25 = 1 ∧
      IsLastAtMost (fun i => (getCheckPoint threeCheckpoints nullKey i).timestamp) 25 2
        (getPastVotesIndex threeCheckpoints nullKey 25) :=
  ⟨by simp [getPastVotesIndex, pastVotesSearch, threeCheckpoints, getNumCheckpoints,
      getCheckPoint],
    (getPastVotesIndex_finds_last_checkpoint threeCheckpoints nullKey 25 (by decide)).2
      (by decide)⟩

end PastVotes

end VotingEscrow
