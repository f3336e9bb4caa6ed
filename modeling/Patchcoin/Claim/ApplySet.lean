import Patchcoin.Claim.Disseminate

/-!
# A claim set that is not applied to its end

`ApplyClaimSet` returns at the first claim that it cannot apply.  Such a claim keeps all
later ones out, even those that share no script with any other claim.  The map and the
index stay in step all the same (`applyClaimSet_agrees`), since a claim that stops the loop
changes neither of them as long as writes succeed.
-/

namespace Patchcoin

open ClaimStore

variable {env : Env} {texts : Texts} {store : ClaimStore}

/-- The claims that the loop of `ApplyClaimSet` gets through. -/
def ClaimStore.applied (env : Env) (texts : Texts) :
    List (CClaimSetClaim × Bool) → ClaimStore → List (CClaimSetClaim × Bool)
  | [], _ => []
  | (cClaim, written) :: rest, store =>
    let next := store.applyClaim env texts written cClaim
    if next.2 then (cClaim, written) :: applied env texts rest next.1 else []

theorem writeFails_eq_false {claims : List (CClaimSetClaim × Bool)}
    (hwritten : ∀ entry ∈ claims, entry.2 = true) :
    store.writeFails env texts claims = false := by
  induction claims generalizing store with
  | nil => rfl
  | cons first rest ih =>
    obtain ⟨cClaim, written⟩ := first
    obtain ⟨rfl, hrest⟩ := List.forall_mem_cons.mp hwritten
    rw [writeFails]
    split_ifs with hgoes
    · exact ih hrest
    · exact Bool.eq_false_iff.mpr hgoes

/-- A claim that stops the loop changes nothing. -/
theorem applyClaim_of_stop (h : store.Coherent env) (hcopied : store.Copied)
    {cClaim : CClaimSetClaim} (hstop : (store.applyClaim env texts true cClaim).2 = false) :
    (store.applyClaim env texts true cClaim).1 = store := by
  rcases applyClaim_cases store cClaim with
    hrefused | ⟨source, -, hlearns⟩ | ⟨claim, entry, hentry, hknown⟩
  · rw [hrefused]
  · obtain ⟨store', happlied, -⟩ := hlearns true
    rw [happlied] at hstop
    cases hstop
  · rw [hknown] at hstop ⊢
    rcases applyKnown_cases h claim entry true with hsame | ⟨hmissing, -⟩ | ⟨_, -, -, hgo⟩
    · rw [hsame]
    · obtain ⟨record, hrecord, -⟩ := hcopied claim.getSource entry hentry
      rw [hmissing] at hrecord
      cases hrecord
    · rw [hgo] at hstop
      cases hstop

/-- The loop does the same with the claims that it gets through, and it gets through these. -/
theorem applyClaimSet_applied {claims : List (CClaimSetClaim × Bool)} (h : store.Coherent env)
    (hcopied : store.Copied) (hwritten : ∀ entry ∈ claims, entry.2 = true) :
    store.appliesAll env texts (store.applied env texts claims) = true ∧
      store.applyClaimSet env texts claims =
        store.applyClaimSet env texts (store.applied env texts claims) := by
  induction claims generalizing store with
  | nil => exact ⟨rfl, rfl⟩
  | cons first rest ih =>
    obtain ⟨cClaim, written⟩ := first
    obtain ⟨rfl, hrest⟩ := List.forall_mem_cons.mp hwritten
    rw [applyClaimSet, applied]
    split_ifs with hgoes
    · rw [appliesAll, applyClaimSet, if_pos hgoes, hgoes]
      exact ih (h.applyClaim true cClaim).1
        ((copied_applyClaim h hcopied true cClaim).1 hgoes) hrest
    · exact ⟨rfl, applyClaim_of_stop h hcopied (Bool.eq_false_iff.mpr hgoes)⟩

/-- Wherever the loop stops, the map and the index still are copies of each other.  A source that
the map held keeps its target; any other one has that of the first claim on it that the loop got
through. -/
theorem applyClaimSet_agrees (h : store.Coherent env) (hcopied : store.Copied) (set : CClaimSet) :
    let final := store.applyClaimSet env texts (set.writes fun _ => true)
    final.Coherent env ∧ final.Copied ∧
      ∀ source, final.g_claims.targetAt source = (store.g_claims.targetAt source).or
        (((store.applied env texts (set.writes fun _ => true)).find? fun entry =>
          (entry.1.rebuilt env texts).getSource == source).map fun entry =>
            (entry.1.rebuilt env texts).getTarget) := by
  have hwritten : ∀ entry ∈ set.writes fun _ => true, entry.2 = true := by
    intro entry hentry
    obtain ⟨cClaim, -, rfl⟩ := List.mem_map.mp hentry
    rfl
  obtain ⟨hall, hsame⟩ := @applyClaimSet_applied env texts store _ h hcopied hwritten
  refine ⟨(h.applyClaimSet _).1, ?_, fun source => ?_⟩
  · exact (copied_applyClaimSet_iff _ h hcopied).mpr (writeFails_eq_false hwritten)
  · rw [hsame]
    exact (targetAt_applyClaimSet hall).2 source

/-! ## On the small network -/

namespace SmallNet

/-- The claim on a source with a target, as it stands in a set. -/
def setClaim (source target : UInt8) : CClaimSetClaim :=
  ⟨mkClaim (payToKeyHash source) (payToKeyHash target), 1700000500⟩

/-- Two claims on the same target, and a third one that has nothing to do with them. -/
def conflictSet : CClaimSet :=
  { claims := [setClaim 1 4, setClaim 2 4, setClaim 3 6], nTime := 1700000500, vchSig := [1] }

/-- The second claim of the valid set ends the loop, and the third one is not applied. -/
theorem conflict_ends_loop :
    let final := applyClaimSet claimNet sameSignature
      (conflictSet.writes fun _ => true) ⟨∅, ∅, ∅⟩
    conflictSet.isValid claimNet = true ∧ final.Copied ∧
      final.g_claims.targetAt (payToKeyHash 1) = some (payToKeyHash 4) ∧
      final.g_claims.targetAt (payToKeyHash 3) = none := by
  have hempty : ClaimStore.Coherent claimNet ⟨∅, ∅, ∅⟩ :=
    ⟨ClaimPool.sound_empty, ClaimPool.tidy_empty, fun _ _ h => (by cases h),
      fun _ _ h => (by cases h)⟩
  obtain ⟨-, hcopied, htargets⟩ := @applyClaimSet_agrees claimNet sameSignature ⟨∅, ∅, ∅⟩ hempty
    (fun _ _ h => by cases h) conflictSet
  refine ⟨by decide +kernel, hcopied, ?_, ?_⟩
  · rw [htargets]
    decide +kernel
  · rw [htargets]
    decide +kernel

end SmallNet

end Patchcoin
