import VotingEscrow.Curve

/-!
# The position registry over runs

The contract changes the registry in two places only (`Registry.Step`): `_create_lock` mints
the id `total_supply() + 1` to the recipient, and `merge` burns its `from` from the owner
(`step_nft`). A mint refuses a live id and a burn needs the owner, so every run keeps the
registry consistent: each owner's list holds exactly the ids it owns, once each, and
`total_supply()` counts the live ids (`registry_consistent`). In a run without a merge the live
ids are exactly `1 ..= total_supply()`, so the id `_create_lock` mints is always fresh
(`liveIds_of_noMerge`). The model mints `total_supply() + 1` as a natural number; the source
computes it as `total_supply().as_u64() + 1`, the same id while `total_supply() + 1 < 2^64`,
which the run condition `NoMergeIdsFit` keeps.
-/

namespace VotingEscrow

namespace Registry

/-- The registry's own bookkeeping agrees with its owner map: each owner's list holds exactly
the ids it owns, once each, and `total_supply()` counts the ids that have an owner. -/
structure Consistent (r : Registry) : Prop where
  mem_ownedTokens : ∀ owner id, id ∈ r.ownedTokens owner ↔ r.owners id = some owner
  nodup : ∀ owner, (r.ownedTokens owner).Nodup
  totalSupply : ∃ live : Finset Nat,
    (∀ id, id ∈ live ↔ (r.owners id).isSome) ∧ r.totalSupply = live.card

theorem empty_consistent : Consistent empty :=
  ⟨fun _ _ => by simp [empty], fun _ => List.nodup_nil, ⟨∅, fun _ => by simp [empty], rfl⟩⟩

variable {r r' : Registry} {owner : Key} {tokenId : Nat}

theorem Consistent.mint (h : Consistent r) (hm : r.mint owner tokenId = .ok r') :
    Consistent r' := by
  unfold Registry.mint at hm
  split at hm
  · cases hm
  rename_i hfree
  cases hm
  have hnone : r.owners tokenId = none := Option.not_isSome_iff_eq_none.1 hfree
  obtain ⟨live, hlive, hcard⟩ := h.totalSupply
  refine ⟨fun k id => ?_, fun k => ?_, insert tokenId live, fun id => ?_, ?_⟩
  · by_cases hk : k = owner
    · subst hk
      by_cases hid : id = tokenId <;> simp [Function.update_apply, hid, h.mem_ownedTokens]
    · by_cases hid : id = tokenId <;>
        simp [Function.update_apply, hk, hid, h.mem_ownedTokens, hnone, Ne.symm hk]
  · by_cases hk : k = owner
    · subst hk
      simp [List.nodup_append, h.nodup, h.mem_ownedTokens, hnone]
    · simpa [Function.update_noteq hk] using h.nodup k
  · by_cases hid : id = tokenId <;> simp [Function.update_apply, hid, hlive]
  · rw [Finset.card_insert_of_not_mem (by simp [hlive, hnone]), hcard]

theorem mint_totalSupply (hm : r.mint owner tokenId = .ok r') :
    r'.totalSupply = r.totalSupply + 1 := by
  unfold Registry.mint at hm
  split at hm <;> cases hm
  rfl

theorem Consistent.burn (h : Consistent r) (hb : r.burn owner tokenId = .ok r') :
    Consistent r' := by
  unfold Registry.burn at hb
  split at hb
  · rename_i hown
    cases hb
    obtain ⟨live, hlive, hcard⟩ := h.totalSupply
    refine ⟨fun k id => ?_, fun k => ?_, live.erase tokenId, fun id => ?_, ?_⟩
    · by_cases hk : k = owner
      · subst hk
        by_cases hid : id = tokenId <;>
          simp [(h.nodup k).mem_erase_iff, h.mem_ownedTokens, Function.update_apply, hid]
      · by_cases hid : id = tokenId <;>
          simp [Function.update_noteq hk, h.mem_ownedTokens, Function.update_apply, hid, hown,
            Ne.symm hk]
    · by_cases hk : k = owner
      · subst hk; simpa using (h.nodup k).erase tokenId
      · simpa [Function.update_noteq hk] using h.nodup k
    · by_cases hid : id = tokenId <;> simp [Function.update_apply, hid, hlive]
    · rw [Finset.card_erase_of_mem (by simp [hlive, hown]), hcard]
  · cases hb

/-- In a consistent registry `balance_of` counts the ids an owner holds. -/
theorem Consistent.balanceOf (h : Consistent r) (owner : Key) {live : Finset Nat}
    (hlive : ∀ id, id ∈ live ↔ (r.owners id).isSome) :
    r.balanceOf owner = (live.filter fun id => r.owners id = some owner).card := by
  rw [Registry.balanceOf, ← List.toFinset_card_of_nodup (h.nodup owner)]
  congr 1
  ext id
  simp only [List.mem_toFinset, h.mem_ownedTokens, Finset.mem_filter, hlive]
  constructor
  · intro hid; simp [hid]
  · exact And.right

end Registry

/-! ## What a call does to the registry -/

/-- The key a call mints a position to: the caller for `create_lock`, `_to` for
`create_lock_for`; no other call mints. -/
def Call.mintsTo (env : Env) : Call → Option Key
  | .createLock _ _ => some env.caller
  | .createLockFor _ _ recipient => some recipient
  | _ => none

/-- What one call may do to the registry: nothing, the mint of the id `total_supply() + 1` to
the key it mints to, or the burn of `merge`'s `from` from its owner. -/
def Registry.Step (env : Env) (c : Call) (r r' : Registry) : Prop :=
  r' = r ∨ (∃ recipient, c.mintsTo env = some recipient ∧
      r.mint recipient (r.totalSupply + 1) = .ok r') ∨
    ∃ fromId toId, c = .merge fromId toId ∧
      r.burn ((r.ownerOf fromId).getD nullKey) fromId = .ok r'

section Step

variable {env : Env} {s s' : VeState} {c : Call}

/-- **A call mints, burns, or leaves the registry alone.** `_create_lock` mints
`total_supply() + 1` to its recipient, and `merge` burns its `from` from the owner. -/
theorem step_nft (h : step env s c = .ok s') : Registry.Step env c s.nft s'.nft := by
  have create {amount d : Nat} {recipient : Key}
      (h : Entry.createLockFor env s amount d recipient = .ok s') :
      s.nft.mint recipient (s.nft.totalSupply + 1) = .ok s'.nft := by
    obtain ⟨-, r, hr, rfl⟩ := Entry.createLockFor_spec h
    obtain ⟨-, -, -, nft, s₁, hm, hmv, rfl⟩ := createLock_spec hr
    obtain ⟨_, _, rfl⟩ := moveTokenDelegates_onlyCheckpoints hmv
    simpa using hm
  cases c with
  | createLock amount d | createLockFor amount d _ => exact .inr (.inl ⟨_, rfl, create h⟩)
  | depositFor id amount =>
    obtain ⟨-, -, -, rfl⟩ := Entry.depositFor_spec h; exact .inl (by simp)
  | increaseAmount id amount =>
    obtain ⟨-, -, -, -, -, rfl⟩ := Entry.increaseAmount_spec h; exact .inl (by simp)
  | increaseAmountFor id amount =>
    obtain ⟨-, -, -, -, rfl⟩ := Entry.increaseAmountFor_spec h; exact .inl (by simp)
  | increaseUnlockTime id d =>
    obtain ⟨-, -, -, -, -, -, rfl⟩ := Entry.increaseUnlockTime_spec h; exact .inl (by simp)
  | merge fromId toId =>
    obtain ⟨-, -, -, s₁, hb, rfl⟩ := Entry.merge_spec h
    obtain ⟨nft, _, _, hburn, rfl⟩ := burnNft_eq hb
    exact .inr (.inr ⟨fromId, toId, rfl, by simpa [checkPoint] using hburn⟩)
  | checkPoint => cases h; exact .inl (by simp [Entry.checkPoint, checkPoint])
  | delegate d =>
    obtain ⟨_, _, rfl⟩ := moveAllDelegates_onlyCheckpoints (Entry.delegate_spec h)
    exact .inl rfl
  | voting id | abstain id => obtain ⟨-, rfl⟩ := Entry.setVoted_spec h; exact .inl rfl
  | attach id => obtain ⟨-, rfl⟩ := Entry.attach_spec h; exact .inl rfl
  | detach id => obtain ⟨-, rfl⟩ := Entry.detach_spec h; exact .inl rfl
  | setVoter v => obtain ⟨-, rfl⟩ := Entry.setVoter_spec h; exact .inl rfl
  | setTeam v => obtain ⟨-, rfl⟩ := Entry.setTeam_spec h; exact .inl rfl
  | setArtProxy v => obtain ⟨-, rfl⟩ := Entry.setArtProxy_spec h; exact .inl rfl

end Step

theorem Registry.Consistent.step {env : Env} {c : Call} {r r' : Registry} (h : r.Consistent)
    (hs : Registry.Step env c r r') : r'.Consistent := by
  rcases hs with rfl | ⟨_, -, hm⟩ | ⟨_, _, -, hb⟩
  · exact h
  · exact h.mint hm
  · exact h.burn hb

/-- The runs without a merge. -/
def NoMerge (_ : VeState) (_ : Env) (c : Call) : Prop := ∀ fromId toId, c ≠ .merge fromId toId

/-- The id `_create_lock` computes, `total_supply().as_u64() + 1` in `u64`: `as_u64` reverts
from `2^64` on, and the sum wraps to `0` at `2^64 - 1`. The model mints `total_supply() + 1`. -/
def createLockTokenId (totalSupply : Nat) : Option Nat :=
  if totalSupply < 2 ^ 64 then some (wrapU64 (totalSupply + 1 : Nat)) else none

theorem createLockTokenId_of_lt {n : Nat} (h : n + 1 < 2 ^ 64) :
    createLockTokenId n = some (n + 1) := by
  rw [createLockTokenId, if_pos (by omega), wrapU64_of_lt h]

/-- The runs without a merge in which `total_supply() + 1` stays below `2^64` before every call:
those in which the id `_create_lock` computes in `u64`, `total_supply().as_u64() + 1`, is
`total_supply() + 1`, which neither reverts in `as_u64` nor wraps to `0`. -/
def NoMergeIdsFit (s : VeState) (env : Env) (c : Call) : Prop :=
  NoMerge s env c ∧ s.nft.totalSupply + 1 < 2 ^ 64

/-- **Without a merge, ids are minted in order and never reused.** In every run without a
merge whose minted ids fit in `u64`, the live ids are exactly `1 ..= total_supply()`; so while
`total_supply() + 1 < 2^64`, the id `_create_lock` computes next is `total_supply() + 1`, it has
no owner, and the mint succeeds whoever the recipient is. -/
theorem liveIds_of_noMerge {t : Nat} {s : VeState} (h : Reachable NoMergeIdsFit t s)
    (hnext : s.nft.totalSupply + 1 < 2 ^ 64) :
    (∀ id, (s.nft.owners id).isSome ↔ 1 ≤ id ∧ id ≤ s.nft.totalSupply) ∧
      createLockTokenId s.nft.totalSupply = some (s.nft.totalSupply + 1) ∧
      ∀ recipient, ∃ r, s.nft.mint recipient (s.nft.totalSupply + 1) = .ok r := by
  have hlive : ∀ id, (s.nft.owners id).isSome ↔ 1 ≤ id ∧ id ≤ s.nft.totalSupply := by
    clear hnext
    induction h with
    | genesis env => intro id; simp [genesis, Registry.empty]; omega
    | @step _ s₀ _ env c _ _ hm hstep ih =>
      rcases step_nft hstep with heq | ⟨_, -, hmint⟩ | ⟨fromId, toId, rfl, -⟩
      · rwa [heq]
      · intro id
        by_cases hid : id = s₀.nft.totalSupply + 1
        · simp [(Registry.mint_spec hmint).2, Registry.mint_totalSupply hmint, hid]
        · simp [(Registry.mint_spec hmint).2, Registry.mint_totalSupply hmint, hid, ih]
          omega
      · exact absurd rfl (hm.1 fromId toId)
  refine ⟨hlive, createLockTokenId_of_lt hnext, fun recipient => ?_⟩
  have hfree : s.nft.owners (s.nft.totalSupply + 1) = none := by
    simpa using mt (hlive _).1 (by omega)
  exact ⟨_, if_neg (by simp [hfree])⟩

theorem twoLocks_reachable_noMergeIdsFit : Reachable NoMergeIdsFit week twoLocks :=
  .step (atTime aliceKey week) lockHundred
    (.step (atTime aliceKey week) lockMaxtime (.genesis _) le_rfl
      ⟨fun _ _ h => (by cases h), by decide⟩ rfl)
    le_rfl ⟨fun _ _ h => (by cases h), by decide⟩ rfl

theorem liveIds_of_noMerge_twoLocks :
    Reachable NoMergeIdsFit week twoLocks ∧ twoLocks.nft.totalSupply + 1 < 2 ^ 64 ∧
      (∀ id, (twoLocks.nft.owners id).isSome ↔ 1 ≤ id ∧ id ≤ twoLocks.nft.totalSupply) ∧
      createLockTokenId twoLocks.nft.totalSupply = some (twoLocks.nft.totalSupply + 1) ∧
        ∀ recipient, ∃ r, twoLocks.nft.mint recipient (twoLocks.nft.totalSupply + 1) = .ok r :=
  ⟨twoLocks_reachable_noMergeIdsFit, by decide,
    liveIds_of_noMerge twoLocks_reachable_noMergeIdsFit (by decide)⟩

end VotingEscrow
