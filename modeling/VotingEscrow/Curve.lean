import VotingEscrow.Balance
import Mathlib.Algebra.BigOperators.Ring

/-!
# The global curve follows the locks

The global point history and the slope-change schedule are a running sum of the locks: the
latest global point, at `T`, carries the slope `amount / MAXTIME` of every lock still running
at `T` and the bias each has left, and each week-aligned `w` after `T` is scheduled to lose the
slope of the locks ending at `w`. This module states that curve over a finite set of ids
holding every lock (`CurveFollowsLocks`) and proves that every call keeps it.

The replay loop of `_check_point` moves from one week boundary to the next. Since every lock
ends on a week boundary, no lock ends strictly inside a week, so decaying the bias by the slope
over a partial week and then subtracting the slope scheduled at the boundary is exact
(`replay_replayed`), and no value it computes is negative, so no clamp changes one
(`replay_clamp`). The loop has 255 iterations, counted from the week of `T`: a call at most 255
week boundaries past that week is replayed to its own time, a later one stops a week boundary
short of it and applies its lock's change at the wrong time.

## Main results

* `CurveInvariant.lockChanged` — one checkpointed lock change keeps the curve, clamp-free.
* `curve_follows_locks` — the curve in every run whose calls stay within the replay horizon.
* `checkPoint_stops_short_of_now` — a run whose checkpoints are less than 255 weeks apart
  where the curve fails.
-/

namespace VotingEscrow

/-! ## The curve of a set of locks -/

/-- The slope of a lock, `amount / MAXTIME`. -/
def lockSlope (l : LockedBalance) : Nat := l.amount / maxtime

/-- `f` summed over the locks of `ids`. -/
def lockSum (f : LockedBalance → Nat) (L : Nat → LockedBalance) (ids : Finset Nat) : Nat :=
  ∑ id ∈ ids, f (L id)

/-- The slope at `t` of the locks of `ids`: that of the locks still running at `t`. -/
def slopeAt (L : Nat → LockedBalance) (ids : Finset Nat) (t : Nat) : Nat :=
  lockSum (fun l => if t < l.lockEnd then lockSlope l else 0) L ids

/-- The bias at `t` of the locks of `ids`: each slope times the time its lock has left. -/
def biasAt (L : Nat → LockedBalance) (ids : Finset Nat) (t : Nat) : Nat :=
  lockSum (fun l => lockSlope l * (l.lockEnd - t)) L ids

/-- The slope of the locks of `ids` that end at `w`. -/
def slopeDue (L : Nat → LockedBalance) (ids : Finset Nat) (w : Nat) : Nat :=
  lockSum (fun l => if l.lockEnd = w then lockSlope l else 0) L ids

/-- The amount locked in `ids`. -/
def lockedTotal (L : Nat → LockedBalance) (ids : Finset Nat) : Nat :=
  lockSum LockedBalance.amount L ids

section Sums

variable {f g : LockedBalance → Nat} {L : Nat → LockedBalance} {ids : Finset Nat}

theorem lockSum_le (h : ∀ id ∈ ids, f (L id) ≤ g (L id)) : lockSum f L ids ≤ lockSum g L ids :=
  Finset.sum_le_sum h

theorem lockSum_congr (h : ∀ id ∈ ids, f (L id) = g (L id)) :
    lockSum f L ids = lockSum g L ids :=
  Finset.sum_congr rfl h

/-- Storing `l` under an id of `ids` trades its old lock's term for `l`'s. -/
theorem lockSum_update {i : Nat} (hi : i ∈ ids) (l : LockedBalance) :
    lockSum f (Function.update L i l) ids + f (L i) = lockSum f L ids + f l := by
  unfold lockSum
  rw [← Finset.add_sum_erase ids _ hi, ← Finset.add_sum_erase ids _ hi, Function.update_same,
    Finset.sum_congr rfl fun j hj =>
      congrArg f (Function.update_noteq (Finset.ne_of_mem_erase hj) l L)]
  omega

/-- Ids holding the empty lock add nothing when the empty lock counts `0`. -/
theorem lockSum_superset {ids' : Finset Nat} (hsub : ids ⊆ ids')
    (hf : f LockedBalance.default = 0) (h : ∀ id ∈ ids', id ∉ ids → L id = LockedBalance.default) :
    lockSum f L ids' = lockSum f L ids :=
  (Finset.sum_subset hsub fun id hid hn => by rw [h id hid hn, hf]).symm

theorem lockSum_of_default (hf : f LockedBalance.default = 0)
    (h : ∀ id, L id = LockedBalance.default) : lockSum f L ids = 0 :=
  Finset.sum_eq_zero fun id _ => by rw [h, hf]

/-- One lock's term is at most the sum. -/
theorem le_lockSum {i : Nat} (hi : i ∈ ids) : f (L i) ≤ lockSum f L ids :=
  Finset.single_le_sum (f := fun id => f (L id)) (fun _ _ => Nat.zero_le _) hi

end Sums

theorem lockSlope_le_amount (l : LockedBalance) : lockSlope l ≤ l.amount := Nat.div_le_self _ _

/-- A lock ending at most `MAXTIME` after `t` has a bias at `t` of at most its amount. -/
theorem lockSlope_mul_le_amount {l : LockedBalance} {t : Nat} (h : l.lockEnd ≤ t + maxtime) :
    lockSlope l * (l.lockEnd - t) ≤ l.amount :=
  calc lockSlope l * (l.lockEnd - t) ≤ lockSlope l * maxtime := Nat.mul_le_mul_left _ (by omega)
    _ ≤ l.amount := Nat.div_mul_le_self _ _

section Bounds

variable {L : Nat → LockedBalance} {ids : Finset Nat}

theorem slopeAt_le_lockedTotal (t : Nat) : slopeAt L ids t ≤ lockedTotal L ids :=
  lockSum_le fun id _ => by split <;> simp [lockSlope_le_amount]

theorem slopeDue_le_lockedTotal (w : Nat) : slopeDue L ids w ≤ lockedTotal L ids :=
  lockSum_le fun id _ => by split <;> simp [lockSlope_le_amount]

theorem biasAt_le_lockedTotal {t : Nat} (h : ∀ id ∈ ids, (L id).lockEnd ≤ t + maxtime) :
    biasAt L ids t ≤ lockedTotal L ids :=
  lockSum_le fun id hid => lockSlope_mul_le_amount (h id hid)

end Bounds

/-! ## Advancing the curve

Between two times with no lock ending strictly between them, the bias falls by the slope times
the time passed; at a time where locks end, the slope falls by theirs. -/

section Advance

variable {L : Nat → LockedBalance} {ids : Finset Nat} {lc t : Nat}

theorem biasAt_advance (hle : lc ≤ t)
    (hgap : ∀ id ∈ ids, (L id).lockEnd ≤ lc ∨ t ≤ (L id).lockEnd) :
    biasAt L ids t + slopeAt L ids lc * (t - lc) = biasAt L ids lc := by
  unfold biasAt slopeAt lockSum
  rw [Finset.sum_mul, ← Finset.sum_add_distrib]
  refine Finset.sum_congr rfl fun id hid => ?_
  dsimp only
  by_cases hlt : lc < (L id).lockEnd
  · have := (hgap id hid).resolve_left (by omega)
    rw [if_pos hlt, ← Nat.mul_add]
    congr 1
    omega
  · rw [if_neg hlt, Nat.sub_eq_zero_of_le (show (L id).lockEnd ≤ t by omega),
      Nat.sub_eq_zero_of_le (show (L id).lockEnd ≤ lc by omega)]
    simp

theorem slopeAt_advance (hlt : lc < t)
    (hgap : ∀ id ∈ ids, (L id).lockEnd ≤ lc ∨ t ≤ (L id).lockEnd) :
    slopeAt L ids t + slopeDue L ids t = slopeAt L ids lc := by
  unfold slopeAt slopeDue lockSum
  rw [← Finset.sum_add_distrib]
  refine Finset.sum_congr rfl fun id hid => ?_
  have := hgap id hid
  dsimp only
  split_ifs <;> omega

theorem slopeAt_eq_of_gap (hle : lc ≤ t)
    (hgap : ∀ id ∈ ids, (L id).lockEnd ≤ lc ∨ t < (L id).lockEnd) :
    slopeAt L ids t = slopeAt L ids lc :=
  lockSum_congr fun id hid => by have := hgap id hid; split_ifs <;> omega

end Advance

/-- Week boundaries are a week apart: none lies strictly inside the week after `a`. -/
theorem aligned_outside {a e : Nat} (ha : week ∣ a) (he : week ∣ e) : e ≤ a ∨ a + week ≤ e := by
  obtain ⟨j, rfl⟩ := ha
  obtain ⟨k, rfl⟩ := he
  rcases Nat.lt_or_ge k (j + 1) with h | h
  · exact .inl (Nat.mul_le_mul_left _ (by omega))
  · exact .inr (by rw [← Nat.mul_succ]; exact Nat.mul_le_mul_left _ h)

/-! ## The replay loop -/

/-- `t_i` moved a week on, to `ts` at most: the time of the replay's next point. -/
def nextTI (ts : Nat) (r : Replay) : Nat := if ts < r.tI + week then ts else r.tI + week

theorem replayPoint_eq_nextTI (clamp : Int → Int) (sc : Nat → Int) (ts blockSlope : Nat)
    (initial : Point) (r : Replay) :
    replayPoint clamp sc ts blockSlope initial r =
      { bias := clamp (wrapI128 (r.lastPoint.bias - wrapI128 (r.lastPoint.slope *
          wrapI128 (wrapU128 ((nextTI ts r : Int) - r.lastCheckpoint)))))
        slope := clamp (wrapI128 (r.lastPoint.slope +
          if ts < r.tI + week then 0 else sc (nextTI ts r)))
        ts := wrapU64 (nextTI ts r)
        blk := wrapU64 (initial.blk + wrapU64 (wrapU128 (blockSlope *
          wrapU128 ((nextTI ts r : Int) - initial.ts)) / multiplier)) } := rfl

/-- What the replay is run against: locks of `ids` ending on week boundaries at most `MAXTIME`
after `T`, a schedule that matches them after `T`, and amounts that fit in `i128`. -/
structure ReplayContext (L : Nat → LockedBalance) (ids : Finset Nat) (T ts : Nat)
    (sc : Nat → Int) : Prop where
  ends : ∀ id ∈ ids, week ∣ (L id).lockEnd ∧ (L id).lockEnd ≤ T + maxtime
  schedule : ∀ w, week ∣ w → T < w → sc w = -(slopeDue L ids w : Int)
  total : lockedTotal L ids < 2 ^ 127
  ts_lt : ts < 2 ^ 64

/-- The loop at a week boundary (or at its start), its last point the curve at
`last_checkpoint`. -/
structure Tracks (L : Nat → LockedBalance) (ids : Finset Nat) (T ts : Nat) (r : Replay) :
    Prop where
  aligned : week ∣ r.tI
  tI_le : r.tI ≤ r.lastCheckpoint
  lt_next : r.lastCheckpoint < r.tI + week
  le_ts : r.lastCheckpoint ≤ ts
  start : T ≤ r.lastCheckpoint
  slope : r.lastPoint.slope = slopeAt L ids r.lastCheckpoint
  bias : r.lastPoint.bias = biasAt L ids r.lastCheckpoint

/-- What `fuel` replayed weeks from `r` leave: `t_i` is `fuel` weeks on (or at `ts`), the last
point is the curve there, and each replayed week raised the epoch by one. -/
structure Replayed (L : Nat → LockedBalance) (ids : Finset Nat) (ts fuel : Nat) (r R : Replay) :
    Prop where
  tI : R.tI = min ts (r.tI + fuel * week)
  bias : R.lastPoint.bias = biasAt L ids R.tI
  slope : R.lastPoint.slope = slopeAt L ids R.tI
  ts_eq : R.lastPoint.ts = R.tI
  blk : R.tI = ts → R.lastPoint.blk = currentBlockNumber
  epoch_lt : r.epoch < R.epoch
  epoch_le : R.epoch ≤ r.epoch + fuel

theorem replay_succ (clamp : Int → Int) (sc : Nat → Int) (ts blockSlope : Nat) (initial : Point)
    (fuel : Nat) (r : Replay) :
    replay clamp sc ts blockSlope initial (fuel + 1) r =
      if nextTI ts r = ts then
        { r with
          lastPoint :=
            { replayPoint clamp sc ts blockSlope initial r with blk := currentBlockNumber }
          lastCheckpoint := wrapU64 (nextTI ts r), tI := nextTI ts r, epoch := r.epoch + 1 }
      else
        replay clamp sc ts blockSlope initial fuel
          { lastPoint := replayPoint clamp sc ts blockSlope initial r,
            lastCheckpoint := wrapU64 (nextTI ts r), tI := nextTI ts r, epoch := r.epoch + 1,
            history := Function.update r.history (r.epoch + 1)
              (replayPoint clamp sc ts blockSlope initial r) } := rfl

section Replay

variable {L : Nat → LockedBalance} {ids : Finset Nat} {T ts : Nat} {sc : Nat → Int}
  {clamp : Int → Int} {blockSlope : Nat} {initial : Point} {r : Replay}

/-- No lock ends strictly between `last_checkpoint` and the next point's time. -/
theorem Tracks.gap (hx : ReplayContext L ids T ts sc) (h : Tracks L ids T ts r) :
    ∀ id ∈ ids, (L id).lockEnd ≤ r.lastCheckpoint ∨ r.tI + week ≤ (L id).lockEnd :=
  fun id hid => (aligned_outside h.aligned (hx.ends id hid).1).imp_left fun he =>
    le_trans he h.tI_le

theorem Tracks.le_nextTI (h : Tracks L ids T ts r) :
    r.lastCheckpoint ≤ nextTI ts r ∧ nextTI ts r ≤ ts := by
  have := h.lt_next; have := h.le_ts
  unfold nextTI; split <;> omega

/-- The decayed bias of one replayed week, for a clamp that keeps what is not negative. -/
theorem Tracks.decay (hc : ∀ x, 0 ≤ x → clamp x = x) (hx : ReplayContext L ids T ts sc)
    (h : Tracks L ids T ts r) :
    clamp (wrapI128 (r.lastPoint.bias - wrapI128 (r.lastPoint.slope *
      wrapI128 (wrapU128 ((nextTI ts r : Int) - r.lastCheckpoint))))) =
        biasAt L ids (nextTI ts r) := by
  obtain ⟨hle, hts⟩ := h.le_nextTI
  have hgap : ∀ id ∈ ids, (L id).lockEnd ≤ r.lastCheckpoint ∨ nextTI ts r ≤ (L id).lockEnd :=
    fun id hid => (h.gap hx id hid).imp_right fun he => by unfold nextTI; split <;> omega
  have hadv := biasAt_advance hle hgap
  have hbound : biasAt L ids r.lastCheckpoint < 2 ^ 127 :=
    lt_of_le_of_lt (biasAt_le_lockedTotal fun id hid => by
      have := (hx.ends id hid).2; have := h.start; omega) hx.total
  have := hx.ts_lt
  rw [h.slope, h.bias, show (nextTI ts r : Int) - r.lastCheckpoint =
      ((nextTI ts r - r.lastCheckpoint : Nat) : Int) by omega, wrapU128_of_lt (by omega),
    wrapI128_natCast_of_lt (by omega), ← Nat.cast_mul, wrapI128_natCast_of_lt (by omega),
    show (biasAt L ids r.lastCheckpoint : Int) -
        ((slopeAt L ids r.lastCheckpoint * (nextTI ts r - r.lastCheckpoint) : Nat) : Int) =
      (biasAt L ids (nextTI ts r) : Int) by omega,
    wrapI128_natCast_of_lt (by omega), hc _ (Int.natCast_nonneg _)]

/-- The slope of one replayed week: the scheduled change applies at a week boundary. -/
theorem Tracks.slopeStep (hc : ∀ x, 0 ≤ x → clamp x = x) (hx : ReplayContext L ids T ts sc)
    (h : Tracks L ids T ts r) :
    clamp (wrapI128 (r.lastPoint.slope + if ts < r.tI + week then 0 else sc (nextTI ts r))) =
      slopeAt L ids (nextTI ts r) := by
  have hbound : slopeAt L ids (nextTI ts r) < 2 ^ 127 :=
    lt_of_le_of_lt (slopeAt_le_lockedTotal _) hx.total
  have hgap := h.gap hx
  have := h.lt_next; have := h.tI_le; have := h.le_ts
  rw [h.slope]
  by_cases hlt : ts < r.tI + week
  · have hnext : nextTI ts r = ts := if_pos hlt
    rw [hnext] at hbound ⊢
    rw [if_pos hlt, add_zero, ← slopeAt_eq_of_gap h.le_ts fun id hid =>
      (hgap id hid).imp_right fun he => by omega, wrapI128_natCast_of_lt hbound,
      hc _ (Int.natCast_nonneg _)]
  · have hnext : nextTI ts r = r.tI + week := if_neg hlt
    have hadv : slopeAt L ids (r.tI + week) + slopeDue L ids (r.tI + week) =
        slopeAt L ids r.lastCheckpoint := slopeAt_advance (by omega) hgap
    rw [if_neg hlt, hnext,
      hx.schedule _ (Nat.dvd_add h.aligned dvd_rfl) (by have := h.start; omega),
      show (slopeAt L ids r.lastCheckpoint : Int) + -(slopeDue L ids (r.tI + week) : Int) =
        (slopeAt L ids (r.tI + week) : Int) by omega,
      wrapI128_natCast_of_lt (by rwa [hnext] at hbound), hc _ (Int.natCast_nonneg _)]

/-- The point of one replayed week is the curve at its time. -/
theorem Tracks.point (h : Tracks L ids T ts r) (blockSlope : Nat) (initial : Point)
    (hc : ∀ x, 0 ≤ x → clamp x = x) (hx : ReplayContext L ids T ts sc) :
    (replayPoint clamp sc ts blockSlope initial r).bias = biasAt L ids (nextTI ts r) ∧
      (replayPoint clamp sc ts blockSlope initial r).slope = slopeAt L ids (nextTI ts r) ∧
      (replayPoint clamp sc ts blockSlope initial r).ts = nextTI ts r := by
  rw [replayPoint_eq_nextTI]
  exact ⟨h.decay hc hx, h.slopeStep hc hx, wrapU64_of_lt (by
    have := h.le_nextTI.2; have := hx.ts_lt; omega)⟩

/-- No clamp of a replayed week changes a value. -/
theorem Tracks.point_clamp (hc : ∀ x, 0 ≤ x → clamp x = x)
    (hx : ReplayContext L ids T ts sc) (h : Tracks L ids T ts r) :
    replayPoint clamp sc ts blockSlope initial r =
      replayPoint (fun x => x) sc ts blockSlope initial r := by
  obtain ⟨hb, hs, -⟩ := h.point blockSlope initial hc hx
  obtain ⟨hb', hs', -⟩ := h.point blockSlope initial (fun _ _ => rfl) hx
  exact Point.ext (hb.trans hb'.symm) (hs.trans hs'.symm) rfl rfl

/-- A replayed week that stops short of `ts` leaves the loop at the next week boundary. -/
theorem Tracks.next (hc : ∀ x, 0 ≤ x → clamp x = x) (hx : ReplayContext L ids T ts sc)
    (h : Tracks L ids T ts r) (hne : nextTI ts r ≠ ts) (history : Nat → Point) :
    Tracks L ids T ts
      { lastPoint := replayPoint clamp sc ts blockSlope initial r,
        lastCheckpoint := wrapU64 (nextTI ts r), tI := nextTI ts r, epoch := r.epoch + 1,
        history } := by
  obtain ⟨hle, hts⟩ := h.le_nextTI
  obtain ⟨hb, hs, -⟩ := h.point blockSlope initial hc hx
  have hnext : nextTI ts r = r.tI + week := by unfold nextTI at hne ⊢; split <;> simp_all
  have hw : wrapU64 (nextTI ts r) = nextTI ts r := wrapU64_of_lt (by have := hx.ts_lt; omega)
  have := h.start
  rw [hw]
  exact ⟨hnext ▸ Nat.dvd_add h.aligned dvd_rfl, le_rfl, by dsimp only; unfold week; omega, hts,
    by dsimp only; omega, hs, hb⟩

/-- The replayed week that reaches `ts` ends the loop there. -/
theorem Tracks.stop (hc : ∀ x, 0 ≤ x → clamp x = x) (hx : ReplayContext L ids T ts sc)
    (h : Tracks L ids T ts r) (hs : nextTI ts r = ts) (fuel : Nat) :
    Replayed L ids ts (fuel + 1) r
      { r with
        lastPoint :=
          { replayPoint clamp sc ts blockSlope initial r with blk := currentBlockNumber }
        lastCheckpoint := wrapU64 (nextTI ts r), tI := nextTI ts r, epoch := r.epoch + 1 } := by
  have hle : ts ≤ r.tI + week := by unfold nextTI at hs; split at hs <;> omega
  have hmul : week ≤ (fuel + 1) * week := Nat.le_mul_of_pos_left _ (Nat.succ_pos _)
  obtain ⟨hb, hsl, hts⟩ := h.point blockSlope initial hc hx
  exact ⟨by simp only [hs]; omega, hb, hsl, hts, fun _ => rfl, Nat.lt_succ_self _,
    show r.epoch + 1 ≤ r.epoch + (fuel + 1) by omega⟩

/-- A replayed week short of `ts` is one week of the replay. -/
theorem Tracks.next_replayed (hc : ∀ x, 0 ≤ x → clamp x = x) (hx : ReplayContext L ids T ts sc)
    (h : Tracks L ids T ts r) (hne : nextTI ts r ≠ ts) (history : Nat → Point) :
    Replayed L ids ts 1 r
      { lastPoint := replayPoint clamp sc ts blockSlope initial r,
        lastCheckpoint := wrapU64 (nextTI ts r), tI := nextTI ts r, epoch := r.epoch + 1,
        history } := by
  have hnext : nextTI ts r = r.tI + week ∧ r.tI + week < ts := by
    unfold nextTI at hne ⊢; split at hne <;> simp_all; omega
  obtain ⟨hb, hs, hts⟩ := h.point blockSlope initial hc hx
  exact ⟨by simp only [hnext.1]; omega, hb, hs, hts, fun h' => absurd h' hne, Nat.lt_succ_self _,
    le_rfl⟩

/-- A week, then `fuel + 1` more. -/
theorem Replayed.cons {fuel : Nat} {r r' R : Replay} (h₁ : Replayed L ids ts 1 r r')
    (h₂ : Replayed L ids ts (fuel + 1) r' R) :
    Replayed L ids ts (fuel + 1 + 1) r R := by
  have hmul : (fuel + 1 + 1) * week = (fuel + 1) * week + week := by rw [add_mul, one_mul]
  have := h₁.tI; have := h₁.epoch_lt; have := h₂.epoch_le
  rw [one_mul] at *
  exact ⟨by rw [h₂.tI, hmul]; omega, h₂.bias, h₂.slope, h₂.ts_eq, h₂.blk,
    h₁.epoch_lt.trans h₂.epoch_lt, by have := h₁.epoch_le; omega⟩

/-- **The replay loop computes the curve.** From a tracked state, `fuel + 1` iterations end at
`ts` or `fuel + 1` weeks on, whichever comes first, with the curve of the locks there. -/
theorem Tracks.replayed (hc : ∀ x, 0 ≤ x → clamp x = x) (hx : ReplayContext L ids T ts sc)
    (fuel : Nat) : ∀ {r : Replay}, Tracks L ids T ts r →
      Replayed L ids ts (fuel + 1) r (replay clamp sc ts blockSlope initial (fuel + 1) r) := by
  induction fuel with
  | zero =>
    intro r h
    rw [replay_succ]
    split
    · exact h.stop hc hx ‹_› 0
    · exact h.next_replayed hc hx ‹_› _
  | succ fuel ih =>
    intro r h
    rw [replay_succ]
    split
    · exact h.stop hc hx ‹_› _
    · exact (h.next_replayed hc hx ‹_› _).cons (ih (h.next hc hx ‹_› _))

/-- **No clamp of the replay changes a value.** -/
theorem Tracks.replay_clamp (hc : ∀ x, 0 ≤ x → clamp x = x) (hx : ReplayContext L ids T ts sc)
    (fuel : Nat) : ∀ {r : Replay}, Tracks L ids T ts r →
      replay clamp sc ts blockSlope initial fuel r =
        replay (fun x => x) sc ts blockSlope initial fuel r := by
  induction fuel with
  | zero => intro r _; rfl
  | succ fuel ih =>
    intro r h
    rw [replay_succ, replay_succ, h.point_clamp hc hx]
    split
    · rfl
    · exact ih (h.next (fun _ _ => rfl) hx ‹_› _)

end Replay

/-! ## One lock change -/

theorem lockPoint_slope (l : LockedBalance) (t : Nat) :
    (lockPoint l t).slope = ((if t < l.lockEnd then lockSlope l else 0 : Nat) : Int) := by
  unfold lockPoint lockSlope
  split_ifs with h₁ h₂ <;> simp_all [Point.default]

theorem lockPoint_bias {l : LockedBalance} {t : Nat} (h : lockSlope l * (l.lockEnd - t) < 2 ^ 127) :
    (lockPoint l t).bias = ((lockSlope l * (l.lockEnd - t) : Nat) : Int) := by
  unfold lockPoint
  split_ifs with h'
  · exact wrapI128_natCast_of_lt h
  · rcases not_and_or.1 h' with h' | h'
    · rw [Nat.sub_eq_zero_of_le (by omega), Nat.mul_zero]; rfl
    · rw [lockSlope, Nat.eq_zero_of_not_pos h', Nat.zero_div, Nat.zero_mul]; rfl

section Update

variable {L : Nat → LockedBalance} {ids : Finset Nat} {i : Nat} (hi : i ∈ ids) (l : LockedBalance)
include hi

theorem slopeAt_update (t : Nat) :
    slopeAt (Function.update L i l) ids t + (if t < (L i).lockEnd then lockSlope (L i) else 0) =
      slopeAt L ids t + if t < l.lockEnd then lockSlope l else 0 :=
  lockSum_update hi l

theorem biasAt_update (t : Nat) :
    biasAt (Function.update L i l) ids t + lockSlope (L i) * ((L i).lockEnd - t) =
      biasAt L ids t + lockSlope l * (l.lockEnd - t) :=
  lockSum_update hi l

theorem slopeDue_update (w : Nat) :
    slopeDue (Function.update L i l) ids w + (if (L i).lockEnd = w then lockSlope (L i) else 0) =
      slopeDue L ids w + if l.lockEnd = w then lockSlope l else 0 :=
  lockSum_update hi l

theorem lockedTotal_update :
    lockedTotal (Function.update L i l) ids + (L i).amount = lockedTotal L ids + l.amount :=
  lockSum_update hi l

end Update

section Change

variable {L : Nat → LockedBalance} {ids : Finset Nat} {i : Nat} {l : LockedBalance} {t : Nat}

/-- The point `_check_point` records after a lock change is the curve of the changed locks, and
its clamps change nothing. -/
theorem applyLockChange_follows {clamp : Int → Int} (hc : ∀ x, 0 ≤ x → clamp x = x)
    (hi : i ∈ ids) (hends : ∀ id ∈ ids, (L id).lockEnd ≤ t + maxtime)
    (hl : l.lockEnd ≤ t + maxtime) (htot : lockedTotal L ids + l.amount < 2 ^ 127) (b : Nat) :
    applyLockChange clamp ⟨biasAt L ids t, slopeAt L ids t, t, b⟩ (lockPoint (L i) t)
        (lockPoint l t) =
      ⟨biasAt (Function.update L i l) ids t, slopeAt (Function.update L i l) ids t, t, b⟩ := by
  have hB := biasAt_le_lockedTotal hends
  have hS : slopeAt L ids t ≤ lockedTotal L ids := slopeAt_le_lockedTotal t
  have hbo := lockSlope_mul_le_amount (hends i hi)
  have hbn := lockSlope_mul_le_amount hl
  have hamt := le_lockSum (f := LockedBalance.amount) (L := L) hi
  have hB' := biasAt_update (L := L) hi l t
  have hS' := slopeAt_update (L := L) hi l t
  simp only [applyLockChange, lockPoint_slope,
    lockPoint_bias (show lockSlope (L i) * ((L i).lockEnd - t) < 2 ^ 127 by
      unfold lockedTotal at *; omega),
    lockPoint_bias (show lockSlope l * (l.lockEnd - t) < 2 ^ 127 by omega)]
  have hso : (if t < (L i).lockEnd then lockSlope (L i) else 0) ≤ (L i).amount := by
    split <;> simp [lockSlope_le_amount]
  have hsn : (if t < l.lockEnd then lockSlope l else 0) ≤ l.amount := by
    split <;> simp [lockSlope_le_amount]
  set so := if t < (L i).lockEnd then lockSlope (L i) else 0
  set sn := if t < l.lockEnd then lockSlope l else 0
  unfold lockedTotal at *
  rw [wrapI128_of_mem (x := (slopeAt L ids t : Int) + sn) (by omega) (by omega),
    wrapI128_of_mem (x := (biasAt L ids t : Int) + ((lockSlope l * (l.lockEnd - t) : Nat) : Int))
      (by omega) (by omega),
    wrapI128_of_mem (by omega) (by omega), wrapI128_of_mem (by omega) (by omega), hc _ (by omega),
    hc _ (by omega)]
  exact Point.ext (by dsimp only; omega) (by dsimp only; omega) rfl rfl

/-- The schedule `_check_point` writes after a lock change is the slope due of the changed
locks, at every week boundary after the change, as long as the lock's end does not move earlier
(or the lock is emptied). -/
theorem scheduleSlopeChanges_follows {sc : Nat → Int}
    (hsched : ∀ w, week ∣ w → t < w → sc w = -(slopeDue L ids w : Int)) (hi : i ∈ ids)
    (hendn : week ∣ l.lockEnd)
    (hgrow : l = LockedBalance.default ∨ (L i).lockEnd ≤ l.lockEnd)
    (htot : lockedTotal L ids + l.amount < 2 ^ 127) :
    ∀ w, week ∣ w → t < w →
      scheduleSlopeChanges sc t (L i) l (lockPoint (L i) t) (lockPoint l t) w =
        -(slopeDue (Function.update L i l) ids w : Int) := by
  have hdue (w : Nat) : slopeDue L ids w ≤ lockedTotal L ids := slopeDue_le_lockedTotal w
  have hso : lockSlope (L i) ≤ slopeDue L ids (L i).lockEnd := by
    have h := le_lockSum (L := L)
      (f := fun l' => if l'.lockEnd = (L i).lockEnd then lockSlope l' else 0) hi
    simp only [if_pos rfl] at h
    exact h
  have hsn := lockSlope_le_amount l
  /- Away from the new end, or where it is not rescheduled, the old end's write decides. -/
  have old (w : Nat) (hw : week ∣ w) (htw : t < w)
      (hne : ¬((t < l.lockEnd ∧ (L i).lockEnd < l.lockEnd) ∧ w = l.lockEnd)) :
      (if t < (L i).lockEnd then Function.update sc (L i).lockEnd
          (if l.lockEnd = (L i).lockEnd then
            wrapI128 (wrapI128 (sc (L i).lockEnd + (lockPoint (L i) t).slope) -
              (lockPoint l t).slope)
          else wrapI128 (sc (L i).lockEnd + (lockPoint (L i) t).slope))
        else sc) w = -(slopeDue (Function.update L i l) ids w : Int) := by
    have hD := slopeDue_update (L := L) hi l w
    by_cases hwo : w = (L i).lockEnd
    · subst hwo
      rw [if_pos htw, Function.update_same, lockPoint_slope, lockPoint_slope, if_pos htw,
        hsched _ hw htw]
      have := hdue (L i).lockEnd
      split_ifs at hD ⊢ with h₁ h₂ <;>
        simp (disch := omega) only [wrapI128_of_mem] <;> omega
    · have hsn0 : (if l.lockEnd = w then lockSlope l else 0) = 0 := by
        split_ifs with h
        · rcases hgrow with rfl | hg
          · rfl
          · exact absurd ⟨⟨h ▸ htw, lt_of_le_of_ne (h ▸ hg) (h ▸ Ne.symm hwo)⟩, h.symm⟩ hne
        · rfl
      rw [if_neg (Ne.symm hwo), hsn0] at hD
      split <;> simp only [Function.update_noteq hwo, hsched w hw htw] <;> omega
  intro w hw htw
  unfold scheduleSlopeChanges
  by_cases hA : (t < l.lockEnd ∧ (L i).lockEnd < l.lockEnd) ∧ w = l.lockEnd
  · obtain ⟨⟨hlt, hgt⟩, rfl⟩ := hA
    have hD := slopeDue_update (L := L) hi l l.lockEnd
    rw [if_pos ⟨hlt, hgt⟩, Function.update_same, if_neg (by omega), if_neg (by omega),
      lockPoint_slope, if_pos hlt, hsched _ hendn hlt]
    have := hdue l.lockEnd
    rw [if_neg (by omega), if_pos rfl] at hD
    simp (disch := omega) only [wrapI128_of_mem]
    omega
  · rw [← old w hw htw hA]
    by_cases h : t < l.lockEnd ∧ (L i).lockEnd < l.lockEnd
    · rw [if_pos h]
      exact Function.update_noteq (fun he => hA ⟨h, he⟩) _ _
    · rw [if_neg h]

end Change

/-! ## The curve of the contract -/

/-- `point_history[EPOCH]`, the latest global point. -/
def latestPoint (s : VeState) : Point := s.pointHistory s.epoch

/-- **The global curve follows the locks**, `ids` holding every lock. The latest global point,
at `T`, has the slope of the locks running at `T` and the bias they have left; at each week
boundary after `T` the schedule takes off the slope of the locks ending there. -/
structure CurveFollowsLocks (ids : Finset Nat) (s : VeState) : Prop where
  support : ∀ id ∉ ids, s.locked id = LockedBalance.default
  slope : (latestPoint s).slope = slopeAt s.locked ids (latestPoint s).ts
  bias : (latestPoint s).bias = biasAt s.locked ids (latestPoint s).ts
  schedule : ∀ w, week ∣ w → (latestPoint s).ts < w →
    s.slopeChanges w = -(slopeDue s.locked ids w : Int)

/-- The curve with what its proof needs: every lock ends on a week boundary at most `MAXTIME`
after `T`, and there is no lock before the first checkpoint. -/
structure CurveInvariant (ids : Finset Nat) (s : VeState) extends CurveFollowsLocks ids s :
    Prop where
  wellFormed : ∀ id, LockWellFormed (latestPoint s).ts (s.locked id)
  empty : s.epoch = 0 → ∀ id, s.locked id = LockedBalance.default

/-- The last call of the replay loop: at most 255 week boundaries past the week of `T`. -/
def replayHorizon (T : Nat) : Nat := T / week * week + 255 * week

section Checkpoint

variable {ids : Finset Nat} {s : VeState} {ts : Nat}

/-- The replay starts from the curve: from `point_history[EPOCH]`, or before the first
checkpoint from a zero point at `ts`, with no lock. -/
theorem CurveInvariant.tracks (hi : CurveInvariant ids s) (hT : (latestPoint s).ts ≤ ts) :
    Tracks s.locked ids (latestPoint s).ts ts
      ⟨startPoint s ts, (startPoint s ts).ts, (startPoint s ts).ts / week * week, s.epoch,
        s.pointHistory⟩ := by
  have hdiv := Nat.div_mul_le_self (startPoint s ts).ts week
  have hlt := Nat.lt_div_mul_add (a := (startPoint s ts).ts) (show 0 < week by decide)
  by_cases he : 0 < s.epoch
  · have hp : startPoint s ts = latestPoint s := if_pos he
    rw [hp] at hdiv hlt ⊢
    exact ⟨Nat.dvd_mul_left _ _, hdiv, hlt, hT, le_rfl, hi.slope, hi.bias⟩
  · have hp : startPoint s ts = ⟨0, 0, ts, currentBlockNumber⟩ := if_neg he
    have hnone := hi.empty (by omega)
    rw [hp] at hdiv hlt ⊢
    exact ⟨Nat.dvd_mul_left _ _, hdiv, hlt, le_rfl, hT,
      by simp [slopeAt, lockSum_of_default (f := fun l => if ts < l.lockEnd then lockSlope l else 0)
        rfl hnone],
      by simp [biasAt, lockSum_of_default (f := fun l => lockSlope l * (l.lockEnd - ts))
        (by simp [lockSlope]) hnone]⟩

/-- A call within the replay horizon is at most 255 week boundaries past the week the replay
starts in. -/
theorem startPoint_horizon (hH : ts ≤ replayHorizon (latestPoint s).ts) :
    ts ≤ (startPoint s ts).ts / week * week + 255 * week := by
  unfold startPoint
  split
  · exact hH
  · have := Nat.lt_div_mul_add (a := ts) (show 0 < week by decide)
    simp only [week] at *
    omega

/-- The replay of `_check_point` from the curve: 255 weeks of it, from the week of its start. -/
theorem CurveInvariant.replayed {clamp : Int → Int} (hc : ∀ x, 0 ≤ x → clamp x = x)
    (hi : CurveInvariant ids s) (hT : (latestPoint s).ts ≤ ts)
    (htot : lockedTotal s.locked ids < 2 ^ 127) (hts : ts < 2 ^ 64) :
    Replayed s.locked ids ts 255
        ⟨startPoint s ts, (startPoint s ts).ts, (startPoint s ts).ts / week * week, s.epoch,
          s.pointHistory⟩ (replayFrom clamp s ts) ∧
      replayFrom clamp s ts = replayFrom (fun x => x) s ts :=
  have hx : ReplayContext s.locked ids (latestPoint s).ts ts s.slopeChanges :=
    ⟨fun id _ => (hi.wellFormed id).lockEnd, hi.schedule, htot, hts⟩
  ⟨(hi.tracks hT).replayed hc hx 254, (hi.tracks hT).replay_clamp hc hx 255⟩

/-- **The replay of `_check_point` within its horizon reaches the call's time** with the curve
of the locks there, raising the epoch by at most 255, with no clamp changing a value. -/
theorem CurveInvariant.replay {clamp : Int → Int} (hc : ∀ x, 0 ≤ x → clamp x = x)
    (hi : CurveInvariant ids s) (hT : (latestPoint s).ts ≤ ts)
    (hH : ts ≤ replayHorizon (latestPoint s).ts) (htot : lockedTotal s.locked ids < 2 ^ 127)
    (hts : ts < 2 ^ 64) :
    (replayFrom clamp s ts).lastPoint =
        ⟨biasAt s.locked ids ts, slopeAt s.locked ids ts, ts, currentBlockNumber⟩ ∧
      s.epoch < (replayFrom clamp s ts).epoch ∧ (replayFrom clamp s ts).epoch ≤ s.epoch + 255 ∧
      replayFrom clamp s ts = replayFrom (fun x => x) s ts := by
  obtain ⟨hR, hclamp⟩ := hi.replayed hc hT htot hts
  have htI : (replayFrom clamp s ts).tI = ts := by
    rw [hR.tI]; exact min_eq_left (startPoint_horizon hH)
  refine ⟨Point.ext ?_ ?_ ?_ (hR.blk htI), hR.epoch_lt, hR.epoch_le, hclamp⟩
  · rw [hR.bias, htI]
  · rw [hR.slope, htI]
  · rw [hR.ts_eq, htI]

/-- The replay reads the global curve only, not the locks. -/
@[simp] theorem replayFrom_with_locked (clamp : Int → Int) (L : Nat → LockedBalance) :
    replayFrom clamp { s with locked := L } ts = replayFrom clamp s ts := rfl

/-- `_check_point` with two clamps that agree on its replay and on its fold is one
computation. -/
theorem checkPointWith_congr_clamp {clamp clamp' : Int → Int} {env : Env} {tokenId : Nat}
    {o n : LockedBalance}
    (hr : replayFrom clamp s (currentBlockTimestampSeconds env) =
      replayFrom clamp' s (currentBlockTimestampSeconds env))
    (ha : applyLockChange clamp (replayFrom clamp' s (currentBlockTimestampSeconds env)).lastPoint
        (lockPoint o (currentBlockTimestampSeconds env))
        (lockPoint n (currentBlockTimestampSeconds env)) =
      applyLockChange clamp' (replayFrom clamp' s (currentBlockTimestampSeconds env)).lastPoint
        (lockPoint o (currentBlockTimestampSeconds env))
        (lockPoint n (currentBlockTimestampSeconds env))) :
    checkPointWith clamp env s tokenId o n = checkPointWith clamp' env s tokenId o n := by
  simp only [checkPointWith, hr, ha]

end Checkpoint

/-- A lock change with `clamp` for the clamps of its checkpoint. -/
def lockChangeWith (clamp : Int → Int) (env : Env) (s : VeState) (w : Nat × LockedBalance) :
    VeState :=
  checkPointWith clamp env { s with locked := Function.update s.locked w.1 w.2 } w.1
    (s.locked w.1) w.2

theorem lockChange_eq_lockChangeWith (env : Env) (s : VeState) (w : Nat × LockedBalance) :
    lockChange env s w = lockChangeWith clampNonNegative env s w := rfl

section LockChange

variable {ids : Finset Nat} {s : VeState} {env : Env} {w : Nat × LockedBalance}

/-- The global curve a lock change writes: the replay's epoch, its point with the change applied
(none for id 0), and the schedule with the change's slopes moved. -/
theorem lockChange_curve
    (hep : (replayFrom clampNonNegative s (currentBlockTimestampSeconds env)).epoch < 2 ^ 64) :
    (lockChange env s w).epoch =
        (replayFrom clampNonNegative s (currentBlockTimestampSeconds env)).epoch ∧
      latestPoint (lockChange env s w) =
        (if w.1 = 0 then
          (replayFrom clampNonNegative s (currentBlockTimestampSeconds env)).lastPoint
        else applyLockChange clampNonNegative
          (replayFrom clampNonNegative s (currentBlockTimestampSeconds env)).lastPoint
          (lockPoint (s.locked w.1) (currentBlockTimestampSeconds env))
          (lockPoint w.2 (currentBlockTimestampSeconds env))) ∧
      (lockChange env s w).slopeChanges =
        if w.1 = 0 then s.slopeChanges
        else scheduleSlopeChanges s.slopeChanges (currentBlockTimestampSeconds env) (s.locked w.1)
          w.2 (lockPoint (s.locked w.1) (currentBlockTimestampSeconds env))
          (lockPoint w.2 (currentBlockTimestampSeconds env)) := by
  have hepoch : (lockChange env s w).epoch =
      (replayFrom clampNonNegative s (currentBlockTimestampSeconds env)).epoch := by
    rw [lockChange_eq_lockChangeWith, lockChangeWith, checkPointWith_epoch]; exact wrapU64_of_lt hep
  refine ⟨hepoch, ?_, ?_⟩ <;> rw [lockChange_eq_lockChangeWith, lockChangeWith]
  · rw [latestPoint, ← lockChangeWith, ← lockChange_eq_lockChangeWith, hepoch,
      lockChange_eq_lockChangeWith, lockChangeWith, checkPointWith_pointHistory,
      replayFrom_with_locked, Function.update_same]
  · rw [checkPointWith_slopeChanges]

/-- **One checkpointed lock change keeps the curve**, without a clamp changing a value, when it
is within the replay horizon, keeps the epoch below `2^64`, fits in `i128`, moves no end earlier
(unless it empties the lock), and leaves a well-formed lock; the token-0 checkpoint changes the
empty lock of id 0. -/
theorem CurveInvariant.lockChanged (hi : CurveInvariant ids s) (hid : w.1 ∈ ids)
    (hT : (latestPoint s).ts ≤ currentBlockTimestampSeconds env)
    (hH : currentBlockTimestampSeconds env ≤ replayHorizon (latestPoint s).ts)
    (hep : s.epoch + 255 < 2 ^ 64) (htot : lockedTotal s.locked ids + w.2.amount < 2 ^ 127)
    (hgrow : w.2 = LockedBalance.default ∨ (s.locked w.1).lockEnd ≤ w.2.lockEnd)
    (hwf : LockWellFormed (currentBlockTimestampSeconds env) w.2)
    (h0 : w.1 = 0 → s.locked w.1 = LockedBalance.default ∧ w.2 = LockedBalance.default) :
    CurveInvariant ids (lockChange env s w) ∧
      (latestPoint (lockChange env s w)).ts = currentBlockTimestampSeconds env ∧
      (lockChange env s w).epoch ≤ s.epoch + 255 ∧
      lockChange env s w = lockChangeWith (fun x => x) env s w := by
  have hts := currentBlockTimestampSeconds_lt env
  have hc : ∀ x, 0 ≤ x → clampNonNegative x = x := fun _ hx => clampNonNegative_of_nonneg hx
  obtain ⟨hlast, hlt, hle, hclamp⟩ := hi.replay hc hT hH (by omega) (by omega)
  obtain ⟨hlast', -, -, -⟩ := hi.replay (fun _ _ => rfl) hT hH (by omega) (by omega)
  have hends : ∀ id ∈ ids, (s.locked id).lockEnd ≤ currentBlockTimestampSeconds env + maxtime :=
    fun id _ => by have := (hi.wellFormed id).lockEnd.2; omega
  have hR : (replayFrom clampNonNegative s (currentBlockTimestampSeconds env)).epoch < 2 ^ 64 := by
    omega
  obtain ⟨hepoch, hlatest, hsc⟩ := lockChange_curve (w := w) hR
  have hwf' : ∀ id, LockWellFormed (currentBlockTimestampSeconds env)
      (Function.update s.locked w.1 w.2 id) := fun id => by
    by_cases h : id = w.1
    · rw [h, Function.update_same]; exact hwf
    · rw [Function.update_noteq h]; exact (hi.wellFormed id).mono hT
  have hfold := applyLockChange_follows hc hid hends hwf.lockEnd.2 htot currentBlockNumber
  have hfold' := applyLockChange_follows (fun _ _ => rfl) hid hends hwf.lockEnd.2 htot
    currentBlockNumber
  have hsame : lockChange env s w = lockChangeWith (fun x => x) env s w :=
    checkPointWith_congr_clamp (by simpa only [replayFrom_with_locked] using hclamp)
      (by rw [replayFrom_with_locked, hlast']; exact hfold.trans hfold'.symm)
  by_cases hz : w.1 = 0
  · obtain ⟨hl0, hw0⟩ := h0 hz
    have hL : (lockChange env s w).locked = s.locked := by
      rw [lockChange_locked, hw0, ← hl0, Function.update_eq_self]
    rw [if_pos hz, hlast] at hlatest
    rw [if_pos hz] at hsc
    refine ⟨⟨⟨fun id hn => hL ▸ hi.support id hn, ?_, ?_, ?_⟩, ?_, ?_⟩, by rw [hlatest],
      by omega, hsame⟩
    · rw [hlatest, hL]
    · rw [hlatest, hL]
    · rw [hlatest, hsc, hL]; exact fun w hw htw => hi.schedule w hw (by simp only at htw; omega)
    · rw [hlatest, hL]; exact fun id => (hi.wellFormed id).mono hT
    · rw [hepoch]; omega
  · rw [if_neg hz, hlast, hfold] at hlatest
    rw [if_neg hz] at hsc
    refine ⟨⟨⟨fun id hn => ?_, ?_, ?_, ?_⟩, ?_, ?_⟩, by rw [hlatest], by omega, hsame⟩
    · rw [lockChange_locked, Function.update_noteq (fun h : id = w.1 => hn (h.symm ▸ hid)),
        hi.support id hn]
    · rw [hlatest, lockChange_locked]
    · rw [hlatest, lockChange_locked]
    · rw [hlatest, hsc, lockChange_locked]
      exact scheduleSlopeChanges_follows
        (fun w hw (htw : currentBlockTimestampSeconds env < w) => hi.schedule w hw (by omega)) hid
        hwf.lockEnd.1 hgrow htot
    · rw [hlatest, lockChange_locked]; exact hwf'
    · rw [hepoch]; omega

end LockChange

theorem le_replayHorizon (t : Nat) : t ≤ replayHorizon t := by
  have := Nat.lt_div_mul_add (a := t) (show 0 < week by decide)
  unfold replayHorizon week at *
  omega

/-- **A call's lock changes keep the curve**, clamp-free, when each is allowed and the call
stays within the replay horizon, the epoch and the amounts. -/
theorem CurveInvariant.lockChanges {ids : Finset Nat} {env : Env}
    {ws : List (Nat × LockedBalance)} (hnd : (ws.map Prod.fst).Nodup) :
    ∀ {s : VeState}, CurveInvariant ids s → (latestPoint s).ts ≤ currentBlockTimestampSeconds env →
      currentBlockTimestampSeconds env ≤ replayHorizon (latestPoint s).ts →
      s.epoch + 255 * ws.length < 2 ^ 64 →
      lockedTotal s.locked ids + (ws.map fun w => w.2.amount).sum < 2 ^ 127 →
      (∀ w ∈ ws, w.1 ∈ ids ∧ (w.2 = LockedBalance.default ∨ (s.locked w.1).lockEnd ≤ w.2.lockEnd) ∧
        LockWellFormed (currentBlockTimestampSeconds env) w.2 ∧
        (w.1 = 0 → s.locked w.1 = LockedBalance.default ∧ w.2 = LockedBalance.default)) →
      CurveInvariant ids (ws.foldl (lockChange env) s) ∧
        (latestPoint (ws.foldl (lockChange env) s)).ts ≤ currentBlockTimestampSeconds env ∧
        ws.foldl (lockChange env) s = ws.foldl (lockChangeWith (fun x => x) env) s := by
  induction ws with
  | nil => exact fun hi hT _ _ _ _ => ⟨hi, hT, by rw [List.foldl_nil, List.foldl_nil]⟩
  | cons w ws ih =>
    intro s hi hT hH hep htot hw
    simp only [List.map_cons, List.nodup_cons] at hnd
    simp only [List.length_cons, List.map_cons, List.sum_cons] at hep htot
    obtain ⟨hid, hgrow, hwf, h0⟩ := hw w (List.mem_cons_self _ _)
    obtain ⟨hi', hts', hep', hsame⟩ :=
      hi.lockChanged hid hT hH (by omega) (by omega) hgrow hwf h0
    have hL := lockedTotal_update (L := s.locked) hid w.2
    /- The later changes are of other ids, whose locks this one leaves. -/
    have hother {w'} (hw' : w' ∈ ws) : (lockChange env s w).locked w'.1 = s.locked w'.1 := by
      rw [lockChange_locked, Function.update_noteq fun h : w'.1 = w.1 =>
        hnd.1 (h ▸ List.mem_map_of_mem Prod.fst hw')]
    obtain ⟨h₁, h₂, h₃⟩ := ih hnd.2 hi' hts'.le (hts' ▸ le_replayHorizon _)
      (by rw [Nat.mul_succ] at hep; omega) (by rw [lockChange_locked]; omega)
      fun w' hw' => by rw [hother hw']; exact hw w' (List.mem_cons_of_mem _ hw')
    refine ⟨h₁, h₂, ?_⟩
    rw [List.foldl_cons, List.foldl_cons, h₃, hsame]

/-- Ids holding the empty lock can be added to the set. -/
theorem CurveInvariant.superset {ids ids' : Finset Nat} {s : VeState} (hi : CurveInvariant ids s)
    (hsub : ids ⊆ ids') : CurveInvariant ids' s := by
  have h : ∀ id ∈ ids', id ∉ ids → s.locked id = LockedBalance.default :=
    fun id _ hn => hi.support id hn
  refine ⟨⟨fun id hn => hi.support id (fun h => hn (hsub h)), ?_, ?_, ?_⟩, hi.wellFormed, hi.empty⟩
  · rw [hi.slope, slopeAt, slopeAt, lockSum_superset hsub (by simp) h]
  · rw [hi.bias, biasAt, biasAt, lockSum_superset hsub (by simp [lockSlope]) h]
  · intro w hw htw
    rw [hi.schedule w hw htw, slopeDue, slopeDue, lockSum_superset hsub (by simp [lockSlope]) h]

/-- The curve is a property of the core of the state. -/
theorem CurveInvariant.of_sameCore {ids : Finset Nat} {s s' : VeState} (hi : CurveInvariant ids s)
    (h : SameCore s s') : CurveInvariant ids s' ∧ latestPoint s' = latestPoint s := by
  have hp : latestPoint s' = latestPoint s := by
    rw [latestPoint, latestPoint, h.epoch, h.pointHistory]
  refine ⟨⟨⟨?_, ?_, ?_, ?_⟩, ?_, ?_⟩, hp⟩ <;> rw [h.locked] <;> try rw [hp]
  · exact hi.support
  · exact hi.slope
  · exact hi.bias
  · rw [h.slopeChanges]; exact hi.schedule
  · exact hi.wellFormed
  · rw [h.epoch]; exact hi.empty

/-! ## Runs -/

/-- The runs of the curve: no deposit carries a lock past `u128`, each call is within `horizon`
of the latest global point, the epoch is at least two replays from wrapping, and the locks
after the call hold less than `2^126` in all. -/
def CurveRun (horizon : Nat → Nat) (s : VeState) (env : Env) (c : Call) : Prop :=
  NoAmountWrap s env c ∧ currentBlockTimestampSeconds env ≤ horizon (latestPoint s).ts ∧
    s.epoch + 2 * 255 < 2 ^ 64 ∧
    ∀ s', step env s c = .ok s' → ∀ ids, lockedTotal s'.locked ids < 2 ^ 126

/-- The invariant of the runs of the curve at time `t`. -/
structure CurveRunInvariant (t : Nat) (s : VeState) : Prop where
  curve : ∃ ids, CurveInvariant ids s
  locks : LockInvariant t s
  zero : ZeroFree s
  latest : (latestPoint s).ts ≤ t
  total : ∀ ids, lockedTotal s.locked ids < 2 ^ 126

theorem genesis_curveRunInvariant (env : Env) :
    CurveRunInvariant (currentBlockTimestampSeconds env) (genesis env) :=
  ⟨⟨∅, ⟨⟨fun _ _ => rfl, by simp [slopeAt, lockSum, latestPoint, genesis],
      by simp [biasAt, lockSum, latestPoint, genesis],
      fun _ _ _ => by simp [slopeDue, lockSum, genesis]⟩, fun _ => .inl rfl, fun _ _ => rfl⟩⟩,
    genesis_lockInvariant env, genesis_zeroFree env, le_of_eq rfl,
    fun _ => by simp [lockedTotal, lockSum, genesis]⟩

/-- A call's lock changes are each allowed by the lock-state step: an emptied lock, or an end
that does not move earlier, and a well-formed lock at the call's time. -/
theorem lockChanges_allowed {s s' : VeState} {env : Env} {c : Call} {ids : Finset Nat}
    (hi : CurveInvariant ids s) (hz : ZeroFree s) (hz' : ZeroFree s')
    (hT : (latestPoint s).ts ≤ currentBlockTimestampSeconds env)
    (hstep : ∀ id, LockStep (currentBlockTimestampSeconds env) c id (s.locked id) (s'.locked id))
    {ws : List (Nat × LockedBalance)} (hnd : (ws.map Prod.fst).Nodup)
    (hzero : ∀ w ∈ ws, w.1 = 0 → w.2 = LockedBalance.default)
    (hcore : SameCore (ws.foldl (lockChange env) s) s') :
    ∀ w ∈ ws, w.2 = s'.locked w.1 ∧
      (w.2 = LockedBalance.default ∨ (s.locked w.1).lockEnd ≤ w.2.lockEnd) ∧
      LockWellFormed (currentBlockTimestampSeconds env) w.2 ∧
      (w.1 = 0 → s.locked w.1 = LockedBalance.default ∧ w.2 = LockedBalance.default) := by
  intro w hw
  have hnew : w.2 = s'.locked w.1 := by
    by_cases h0 : w.1 = 0
    · rw [hzero w hw h0, h0, hz'.locked]
    · rw [hcore.locked, (foldl_lockChange_of_mem env hnd hw h0).1]
  refine ⟨hnew, ?_, ?_, fun h0 => ⟨h0 ▸ hz.locked, hzero w hw h0⟩⟩ <;> rw [hnew] <;>
    rcases hstep w.1 with ⟨-, -, -, -, hd⟩ | ⟨-, hend, hwf⟩
  · exact .inl hd
  · exact .inr hend
  · exact hd ▸ .inl rfl
  · by_cases he : s'.locked w.1 = s.locked w.1
    · rw [he]; exact (hi.wellFormed w.1).mono hT
    · exact hwf he

/-- **One call of a run keeps the curve**, and its lock changes are clamp-free. -/
theorem CurveRunInvariant.step {t : Nat} {s s' : VeState} {env : Env} {c : Call}
    (hinv : CurveRunInvariant t s) (ht : t ≤ currentBlockTimestampSeconds env)
    (hrun : CurveRun replayHorizon s env c) (h : step env s c = .ok s') :
    CurveRunInvariant (currentBlockTimestampSeconds env) s' ∧
      ∃ ws : List (Nat × LockedBalance), SameCore (ws.foldl (lockChange env) s) s' ∧
        ws.foldl (lockChange env) s = ws.foldl (lockChangeWith (fun x => x) env) s := by
  obtain ⟨ids, hi⟩ := hinv.curve
  obtain ⟨hz', ws, hnd, hzero, hcore, hlen⟩ := step_lockChanges hinv.zero h
  obtain ⟨hl', hstep⟩ := hinv.locks.step ht hrun.1 h
  have hT := hinv.latest.trans ht
  have hallowed := lockChanges_allowed hi hinv.zero hz' hT hstep hnd hzero hcore
  /- The amounts the call stores are those of its lock changes' ids after the call. -/
  have hsum : (ws.map fun w => w.2.amount).sum =
      lockedTotal s'.locked (ws.map Prod.fst).toFinset := by
    rw [lockedTotal, lockSum, List.sum_toFinset _ hnd, List.map_map]
    exact congrArg List.sum (List.map_congr_left fun w hw => by rw [(hallowed w hw).1]; rfl)
  obtain ⟨hi', hlatest, hsame⟩ := (hi.superset Finset.subset_union_left).lockChanges hnd hT
    hrun.2.1 (by have := hrun.2.2.1; omega)
    (by have := hinv.total (ids ∪ (ws.map Prod.fst).toFinset)
        have := hrun.2.2.2 s' h (ws.map Prod.fst).toFinset; omega)
    fun w hw => ⟨Finset.mem_union_right _ (List.mem_toFinset.2 (List.mem_map_of_mem _ hw)),
      (hallowed w hw).2⟩
  obtain ⟨hi'', hp⟩ := hi'.of_sameCore hcore
  exact ⟨⟨⟨_, hi''⟩, hl', hz', hp ▸ hlatest, hrun.2.2.2 s' h⟩, ws, hcore, hsame⟩

theorem reachable_curveRunInvariant {t : Nat} {s : VeState}
    (h : Reachable (CurveRun replayHorizon) t s) : CurveRunInvariant t s := by
  induction h with
  | genesis env => exact genesis_curveRunInvariant env
  | step env c _ ht hrun hstep ih => exact (ih.step ht hrun hstep).1

/-- **The global curve follows the locks.** In every run where no deposit carries a lock past
`u128`, each call comes at most 255 week boundaries after the week of the latest global point,
the epoch stays below `2^64` and the locks hold less than `2^126` in all, the latest global
point and the schedule are the curve of the locks; and every further such call is a sequence
of checkpointed lock changes none of whose clamps to `0` changes a value. -/
theorem curve_follows_locks {t : Nat} {s : VeState} (h : Reachable (CurveRun replayHorizon) t s) :
    (∃ ids, CurveFollowsLocks ids s) ∧
      ∀ env c s', t ≤ currentBlockTimestampSeconds env → CurveRun replayHorizon s env c →
        step env s c = .ok s' → ∃ ws : List (Nat × LockedBalance),
          SameCore (ws.foldl (lockChange env) s) s' ∧
            ws.foldl (lockChange env) s = ws.foldl (lockChangeWith (fun x => x) env) s := by
  have hinv := reachable_curveRunInvariant h
  obtain ⟨ids, hi⟩ := hinv.curve
  exact ⟨⟨ids, hi.toCurveFollowsLocks⟩, fun _ _ _ ht hrun hstep => (hinv.step ht hrun hstep).2⟩

/-- Storing a lock adds at most its amount to the total. -/
theorem lockedTotal_update_le (L : Nat → LockedBalance) (ids : Finset Nat) (i : Nat)
    (l : LockedBalance) :
    lockedTotal (Function.update L i l) ids ≤ lockedTotal L ids + l.amount := by
  by_cases hi : i ∈ ids
  · have := lockedTotal_update (L := L) hi l; omega
  · have : lockedTotal (Function.update L i l) ids = lockedTotal L ids :=
      Finset.sum_congr rfl fun j hj => by rw [Function.update_noteq (ne_of_mem_of_not_mem hj hi)]
    omega

/-- A single lock on an empty contract holds its amount at most. -/
theorem lockedTotal_single_le (ids : Finset Nat) (i : Nat) (l : LockedBalance) :
    lockedTotal (Function.update (fun _ => LockedBalance.default) i l) ids ≤ l.amount := by
  have := lockedTotal_update_le (fun _ => LockedBalance.default) ids i l
  have h0 : lockedTotal (fun _ => LockedBalance.default) ids = 0 :=
    lockSum_of_default rfl fun _ => rfl
  omega

theorem oneLock_curveRun : Reachable (CurveRun replayHorizon) week oneLock := by
  refine .step (atTime aliceKey week) lockMaxtime (.genesis _) le_rfl
    ⟨fun _ _ h => by cases h; decide, by decide, by decide, fun s' hs ids => ?_⟩ rfl
  obtain rfl : s' = oneLock := Except.ok.inj (hs.symm.trans rfl)
  rw [oneLock_locked]
  exact lt_of_le_of_lt (lockedTotal_single_le ids 1 _) (by decide)

theorem curve_follows_locks_oneLock :
    Reachable (CurveRun replayHorizon) week oneLock ∧
      ((∃ ids, CurveFollowsLocks ids oneLock) ∧
        ∀ env c s', week ≤ currentBlockTimestampSeconds env → CurveRun replayHorizon oneLock env c →
          step env oneLock c = .ok s' → ∃ ws : List (Nat × LockedBalance),
            SameCore (ws.foldl (lockChange env) oneLock) s' ∧
              ws.foldl (lockChange env) oneLock =
                ws.foldl (lockChangeWith (fun x => x) env) oneLock) :=
  ⟨oneLock_curveRun, curve_follows_locks oneLock_curveRun⟩

/-! ## A checkpoint past the replay horizon

A `check_point` at week 1 plus two seconds, then a `create_lock` 255 weeks minus one second
later: the two checkpoints are less than 255 weeks apart, but the replay starts from week 1 and
needs 256 iterations to reach the call's time. Its 255 stop at week 256; the lock's point, a
bias of `2 * WEEK - 1` at the call's time, is applied there, where the lock has `2 * WEEK`
left. -/

/-- The block of the early checkpoint: week 1 plus two seconds. -/
def earlyEnv : Env := atTime aliceKey (week + 2)

/-- The block of the late lock: 255 weeks minus one second after `earlyEnv`. -/
def lateEnv : Env := atTime aliceKey (256 * week + 1)

/-- The contract installed at `earlyEnv`, after a `check_point` in the same block. -/
def checkedEarly : VeState := afterCall earlyEnv (genesis earlyEnv) .checkPoint

/-- `checkedEarly` after `lockMaxtime` at `lateEnv`: id 1, locked until week 258. -/
def lateLock : VeState := afterCall lateEnv checkedEarly lockMaxtime

theorem checkedEarly_locked : checkedEarly.locked = fun _ => LockedBalance.default := rfl

theorem checkedEarly_nft : checkedEarly.nft = Registry.empty := rfl

theorem checkedEarly_reachable (horizon : Nat → Nat) (hH : week + 2 ≤ horizon (week + 2)) :
    Reachable (CurveRun horizon) (week + 2) checkedEarly := by
  refine .step earlyEnv .checkPoint (.genesis _) le_rfl
    ⟨fun _ _ h => (by cases h), hH, by decide, fun s' hs ids => ?_⟩ rfl
  obtain rfl : s' = checkedEarly := Except.ok.inj (hs.symm.trans rfl)
  rw [checkedEarly_locked, lockedTotal, lockSum_of_default rfl fun _ => rfl]
  decide

/-- The replay of `lateEnv` from `checkedEarly` stops at week 256 with no slope and no bias. -/
theorem checkedEarly_replay :
    (replayFrom clampNonNegative checkedEarly (currentBlockTimestampSeconds lateEnv)).lastPoint =
        ⟨0, 0, 256 * week, (replayFrom clampNonNegative checkedEarly
          (currentBlockTimestampSeconds lateEnv)).lastPoint.blk⟩ ∧
      (replayFrom clampNonNegative checkedEarly (currentBlockTimestampSeconds lateEnv)).epoch <
        2 ^ 64 := by
  obtain ⟨ids, hi⟩ := (reachable_curveRunInvariant
    (checkedEarly_reachable replayHorizon (le_replayHorizon _))).curve
  have hts : currentBlockTimestampSeconds lateEnv = 256 * week + 1 := by decide
  have hT : (latestPoint checkedEarly).ts = week + 2 := by decide
  have hnone : ∀ id, checkedEarly.locked id = LockedBalance.default := congrFun checkedEarly_locked
  obtain ⟨hR, -⟩ := hi.replayed (fun _ => clampNonNegative_of_nonneg)
    (show (latestPoint checkedEarly).ts ≤ currentBlockTimestampSeconds lateEnv by
      rw [hT, hts]; decide)
    (by rw [lockedTotal, lockSum_of_default rfl hnone]; decide) (by rw [hts]; decide)
  have hstart : (startPoint checkedEarly (currentBlockTimestampSeconds lateEnv)).ts = week + 2 := by
    decide
  have htI : (replayFrom clampNonNegative checkedEarly
      (currentBlockTimestampSeconds lateEnv)).tI = 256 * week := by
    rw [hR.tI]; dsimp only; rw [hstart, hts]; unfold week; omega
  refine ⟨Point.ext ?_ ?_ ?_ (by dsimp only), ?_⟩
  · rw [hR.bias, biasAt, lockSum_of_default (by simp [lockSlope]) hnone]; rfl
  · rw [hR.slope, slopeAt, lockSum_of_default (by simp) hnone]; rfl
  · rw [hR.ts_eq, htI]
  · have := hR.epoch_le
    have he : checkedEarly.epoch = 1 := by decide
    simp only at this
    omega

/-- **The checkpoint past the horizon misplaces the lock.** In a run whose two checkpoints are
less than 255 weeks apart, the latest global point after `lateLock` is at week 256 with a bias
of `2 * WEEK - 1`, where the only lock has `2 * WEEK` left: the curve does not follow the
locks. -/
theorem checkPoint_stops_short_of_now :
    Reachable (CurveRun fun T => T + 255 * week - 1) (256 * week + 1) lateLock ∧
      lateLock.locked = Function.update (fun _ => LockedBalance.default) 1 ⟨maxtime, 258 * week⟩ ∧
      (latestPoint lateLock).ts = 256 * week ∧ (latestPoint lateLock).bias = 2 * week - 1 ∧
      ¬∃ ids, CurveFollowsLocks ids lateLock := by
  have hlocked : lateLock.locked =
      Function.update (fun _ => LockedBalance.default) 1 ⟨maxtime, 258 * week⟩ := rfl
  have hstep : step lateEnv checkedEarly lockMaxtime = .ok lateLock := rfl
  have hcore := createLockFor_sameCore hstep
  rw [checkedEarly_nft, checkedEarly_locked, show (Registry.empty.totalSupply + 1,
      depositedLock LockedBalance.default maxtime (roundedUnlockTime
        (currentBlockTimestampSeconds lateEnv) (2 * week))) = (1, ⟨maxtime, 258 * week⟩)
    by decide] at hcore
  obtain ⟨hlast, hep⟩ := checkedEarly_replay
  obtain ⟨-, hlatest, -⟩ := lockChange_curve (w := (1, ⟨maxtime, 258 * week⟩)) hep
  have hp : latestPoint lateLock =
      latestPoint (lockChange lateEnv checkedEarly (1, ⟨maxtime, 258 * week⟩)) := by
    rw [latestPoint, latestPoint, hcore.epoch, hcore.pointHistory]
  rw [if_neg one_ne_zero, hlast] at hlatest
  have hts : (latestPoint lateLock).ts = 256 * week := by rw [hp, hlatest]; rfl
  have hbias : (latestPoint lateLock).bias = (2 * week - 1 : Nat) := by rw [hp, hlatest]; rfl
  refine ⟨.step lateEnv lockMaxtime (checkedEarly_reachable _ (by decide)) (by decide)
      ⟨fun _ _ h => by cases h; decide,
        by rw [show (latestPoint checkedEarly).ts = week + 2 by decide]; decide,
        by decide, fun s' hs ids => ?_⟩ hstep, hlocked, hts, hbias, ?_⟩
  · obtain rfl : s' = lateLock := Except.ok.inj (hs.symm.trans hstep)
    rw [hlocked]
    exact lt_of_le_of_lt (lockedTotal_single_le ids 1 _) (by decide)
  · rintro ⟨ids, hc⟩
    have h1 : 1 ∈ ids := by_contra fun h => by
      have := hc.support 1 h; rw [hlocked] at this; cases this
    have hb := hc.bias
    have hu := biasAt_update (L := fun _ => LockedBalance.default) h1 ⟨maxtime, 258 * week⟩
      (256 * week)
    have h0 : biasAt (fun _ => LockedBalance.default) ids (256 * week) = 0 :=
      lockSum_of_default (by simp [lockSlope]) fun _ => rfl
    have hval : lockSlope ⟨maxtime, 258 * week⟩ * (258 * week - 256 * week) = 2 * week := by
      decide
    rw [hbias, hts, hlocked] at hb
    simp only [h0, hval, LockedBalance.default_lockEnd, Nat.zero_sub, Nat.mul_zero, Nat.add_zero,
      Nat.zero_add] at hu
    have : 0 < week := by decide
    omega

end VotingEscrow
