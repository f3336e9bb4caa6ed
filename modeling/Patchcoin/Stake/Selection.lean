import Patchcoin.SmallStake

/-!
# Which blocks a stake modifier is made of

A block that generates a modifier looks at the ancestors of its selection interval and
goes through up to 64 rounds.  `computeNextStakeModifier_selects` says what they choose:
every round ends with a new candidate, it is the one with the least selection hash among
the candidates up to the stop time of the round, and its entropy bit is the bit of the
modifier that belongs to the round.

The loop of a round stops at the first candidate after the stop time, but not before it
has found one.  So if all candidates up to the stop time have been used, it takes the
first one after it.  The argument is the one for the least element of a sorted list, with
the candidates chosen before left out; that one of these is always left is a matter of
counting, since the hashes on a chain are distinct.
-/

namespace Patchcoin

open CBlockIndex List

variable {env : Env} {stake : StakeRules} {lookup : Uint256 → Option CBlockIndex}
  {nStakeModifierPrev : UInt64}

/-- A chain of entries that are all in the block index. -/
structure InBlockIndex (lookup : Uint256 → Option CBlockIndex) (chain : IndexChain) : Prop where
  lookup_eq : ∀ pindex ∈ chain, lookup pindex.hashBlock = some pindex
  heights : chain.IsChain fun pindex pprev => pindex.nHeight = pprev.nHeight + 1

theorem InBlockIndex.distinct {chain : IndexChain} (h : InBlockIndex lookup chain) :
    (chain.map hashBlock).Nodup := by
  have hheights : chain.Pairwise fun pindex other => other.nHeight < pindex.nHeight := by
    have hchain : chain.IsChain fun pindex other => other.nHeight < pindex.nHeight :=
      h.heights.imp fun pindex pprev hheight => by omega
    have htrans : IsTrans CBlockIndex fun pindex other => other.nHeight < pindex.nHeight :=
      ⟨fun a b c hab hbc => hbc.trans hab⟩
    exact hchain.pairwise
  rw [List.Nodup, pairwise_map]
  refine hheights.imp_of_mem fun {pindex other} hmem hother hlt hhash => ?_
  have hsame : some pindex = some other := by
    rw [← h.lookup_eq pindex hmem, ← h.lookup_eq other hother, hhash]
  rw [Option.some.inj hsame] at hlt
  exact absurd hlt (lt_irrefl _)

/-- The block generates a modifier: its parent, and since version 0.4 the block itself, is
in a later interval than the block that generated the last one. -/
def DecidesToGenerate (env : Env) (stake : StakeRules) (pindexCurrent pindexPrev : CBlockIndex)
    (rest : IndexChain) (nStakeModifierPrev : UInt64) : Prop :=
  ∃ nModifierTime,
    getLastStakeModifier (pindexPrev :: rest) = some (nStakeModifierPrev, nModifierTime) ∧
    nModifierTime / stake.nModifierInterval <
      pindexPrev.getBlockTime / stake.nModifierInterval ∧
    (isProtocolV04 env.params pindexCurrent.getBlockTime = true →
      nModifierTime / stake.nModifierInterval <
        pindexCurrent.getBlockTime / stake.nModifierInterval)

/-- The ancestors that `stakeCandidates` lists. -/
def selectionCandidates (nSelectionIntervalStart : ℤ) (ancestors : IndexChain) : IndexChain :=
  ancestors.takeWhile fun pindex => decide (nSelectionIntervalStart ≤ pindex.getBlockTime)

/-- The stop time of a round. -/
def selectionIntervalStop (stake : StakeRules) (nSelectionIntervalStart : ℤ) (nRound : ℕ) : ℤ :=
  nSelectionIntervalStart +
    ((List.range (nRound + 1)).map (getStakeModifierSelectionIntervalSection stake)).sum

def CBlockIndex.candidateKey (pindex : CBlockIndex) : ℕ × Uint256 :=
  (pindex.getBlockTime, pindex.hashBlock)

/-- What a round is to choose when some candidates are selected already. -/
structure Choice (score : CBlockIndex → ℕ) (candidates : IndexChain) (selected : List Uint256)
    (stop : ℤ) (pindex : CBlockIndex) : Prop where
  mem : pindex ∈ candidates
  fresh : pindex.hashBlock ∉ selected
  /-- The least score up to the stop time. -/
  least : ∀ other ∈ candidates, other.hashBlock ∉ selected → other.getBlockTime ≤ stop →
    pindex.getBlockTime ≤ stop ∧ score pindex ≤ score other
  /-- The first candidate if there is none up to the stop time. -/
  first : (∀ other ∈ candidates, other.hashBlock ∉ selected → stop < other.getBlockTime) →
    ∀ other ∈ candidates, other.hashBlock ∉ selected →
      candidateLE pindex.candidateKey other.candidateKey

/-- The choices of the rounds, in their order. -/
structure Selects (env : Env) (stake : StakeRules) (nStakeModifierPrev : UInt64)
    (nSelectionIntervalStart : ℤ) (candidates chosen : IndexChain) : Prop where
  distinct : (chosen.map CBlockIndex.hashBlock).Nodup
  choice : ∀ nRound pindex, chosen[nRound]? = some pindex →
    Choice (selectionHash env nStakeModifierPrev) candidates
      ((chosen.take nRound).map CBlockIndex.hashBlock)
      (selectionIntervalStop stake nSelectionIntervalStart nRound) pindex

/-! ## One round -/

section Round

variable {score : CBlockIndex → ℕ} {seen entries : IndexChain} {selected : List Uint256} {stop : ℤ}
  {best : Option CBlockIndex} {next : CBlockIndex}

theorem Choice.append {pindex : CBlockIndex} (h : Choice score seen selected stop pindex)
    (hlater : ∀ other ∈ entries, other.hashBlock ∉ selected →
      stop < other.getBlockTime ∧ candidateLE pindex.candidateKey other.candidateKey) :
    Choice score (seen ++ entries) selected stop pindex := by
  refine ⟨mem_append_left _ h.mem, h.fresh, forall_mem_append.mpr ⟨h.least, ?_⟩,
    fun hlate => forall_mem_append.mpr ⟨h.first (forall_mem_append.mp hlate).1, ?_⟩⟩
  · exact fun other hother hfresh hle => absurd hle (not_le.mpr (hlater other hother hfresh).1)
  · exact fun other hother hfresh => (hlater other hother hfresh).2

/-- The best candidate after the loop has seen some of them. -/
def BestOf (score : CBlockIndex → ℕ) (seen : IndexChain) (selected : List Uint256) (stop : ℤ) :
    Option CBlockIndex → Prop
  | none => ∀ pindex ∈ seen, pindex.hashBlock ∈ selected
  | some best => Choice score seen selected stop best

theorem BestOf.append_selected (h : BestOf score seen selected stop best)
    (hselected : next.hashBlock ∈ selected) : BestOf score (seen ++ [next]) selected stop best := by
  cases best with
  | none => exact forall_mem_append.mpr ⟨h, forall_mem_singleton.mpr hselected⟩
  | some best =>
    exact Choice.append h (forall_mem_singleton.mpr fun hfresh => absurd hselected hfresh)

/-- A candidate that the loop does not stop at and that is not selected yet. -/
theorem BestOf.append_fresh
    (h : BestOf (selectionHash env nStakeModifierPrev) seen selected stop best)
    (hsorted : ∀ pindex ∈ seen, candidateLE pindex.candidateKey next.candidateKey)
    (hfresh : next.hashBlock ∉ selected) (hgo : ¬ (best.isSome = true ∧ stop < next.getBlockTime)) :
    Choice (selectionHash env nStakeModifierPrev) (seen ++ [next]) selected stop
      (betterCandidate env nStakeModifierPrev best next) := by
  have hlast : next ∈ seen ++ [next] := mem_append_right _ (mem_singleton_self next)
  cases best with
  | none =>
    refine ⟨hlast, hfresh, forall_mem_append.mpr ⟨?_, ?_⟩, fun _ =>
      forall_mem_append.mpr ⟨?_, ?_⟩⟩
    · exact fun other hother hnot => absurd (h other hother) hnot
    · exact forall_mem_singleton.mpr fun _ htime => ⟨htime, le_rfl⟩
    · exact fun other hother hnot => absurd (h other hother) hnot
    · exact forall_mem_singleton.mpr fun _ => .inr ⟨rfl, le_rfl⟩
  | some best =>
    have hchoice : Choice _ seen selected stop best := h
    have htime : (next.getBlockTime : ℤ) ≤ stop := not_lt.mp fun hlate => hgo ⟨rfl, hlate⟩
    have hbest : (best.getBlockTime : ℤ) ≤ stop := by
      have hle := hsorted best hchoice.mem
      simp only [candidateLE, candidateKey] at hle
      omega
    unfold betterCandidate
    dsimp only
    split_ifs with hless
    · refine ⟨hlast, hfresh, forall_mem_append.mpr ⟨?_, ?_⟩, fun hlate => ?_⟩
      · exact fun other hother hnot hle =>
          ⟨htime, hless.le.trans (hchoice.least other hother hnot hle).2⟩
      · exact forall_mem_singleton.mpr fun _ hle => ⟨hle, le_rfl⟩
      · exact absurd htime (not_le.mpr (hlate next hlast hfresh))
    · refine ⟨mem_append_left _ hchoice.mem, hchoice.fresh,
        forall_mem_append.mpr ⟨hchoice.least, ?_⟩, fun hlate => ?_⟩
      · exact forall_mem_singleton.mpr fun _ _ => ⟨hbest, not_lt.mp hless⟩
      · exact absurd htime (not_le.mpr (hlate next hlast hfresh))

/-- The loop, started after some candidates, ends with the choice among all of them. -/
theorem selectLoop_choice (hlookup : ∀ pindex ∈ entries, lookup pindex.hashBlock = some pindex)
    (hsorted : (seen ++ entries).Pairwise fun a b => candidateLE a.candidateKey b.candidateKey)
    (hbest : BestOf (selectionHash env nStakeModifierPrev) seen selected stop best)
    (hleft : ∃ pindex ∈ seen ++ entries, pindex.hashBlock ∉ selected) :
    ∃ pindex, selectLoop env lookup selected stop nStakeModifierPrev
        (entries.map candidateKey) best = some (some pindex) ∧
      Choice (selectionHash env nStakeModifierPrev) (seen ++ entries) selected stop pindex := by
  induction entries generalizing seen best with
  | nil =>
    rw [append_nil] at hleft ⊢
    cases best with
    | none =>
      obtain ⟨pindex, hmem, hfresh⟩ := hleft
      exact absurd (hbest pindex hmem) hfresh
    | some best => exact ⟨best, rfl, hbest⟩
  | cons next rest ih =>
    obtain ⟨hnext, hrest⟩ := forall_mem_cons.mp hlookup
    obtain ⟨-, htail, hbefore⟩ := pairwise_append.mp hsorted
    rw [map_cons, selectLoop, show next.candidateKey.2 = next.hashBlock from rfl, hnext]
    dsimp only
    by_cases hstop : best.isSome = true ∧ stop < next.getBlockTime
    · -- all candidates from here on are later than the stop time
      obtain ⟨found, rfl⟩ := Option.isSome_iff_exists.mp hstop.1
      have hchoice : Choice _ seen selected stop found := hbest
      rw [if_pos hstop]
      refine ⟨found, rfl, hchoice.append fun other hother _ =>
        ⟨?_, hbefore found hchoice.mem other hother⟩⟩
      rcases mem_cons.mp hother with rfl | hother
      · exact hstop.2
      · have hle := (pairwise_cons.mp htail).1 other hother
        have hnextTime := hstop.2
        simp only [candidateLE, candidateKey] at hle
        omega
    · rw [if_neg hstop]
      rw [show seen ++ next :: rest = (seen ++ [next]) ++ rest by simp] at hsorted hleft ⊢
      split_ifs with hselected
      · exact ih hrest hsorted (hbest.append_selected (contains_iff_mem.mp hselected)) hleft
      · rw [contains_iff_mem] at hselected
        refine ih hrest hsorted (hbest.append_fresh (fun pindex hmem => ?_) hselected hstop) hleft
        exact hbefore pindex hmem next mem_cons_self

end Round

/-! ## All rounds -/

section Rounds

variable {start : ℤ} {entries chosen : IndexChain} {selection : Selection} {nRound : ℕ}

/-- The candidates in the order of the loop. -/
structure SortedEntries (lookup : Uint256 → Option CBlockIndex) (entries : IndexChain) : Prop where
  lookup_eq : ∀ pindex ∈ entries, lookup pindex.hashBlock = some pindex
  distinct : (entries.map CBlockIndex.hashBlock).Nodup
  sorted : entries.Pairwise fun a b => candidateLE a.candidateKey b.candidateKey

/-- The state of the loop before a round. -/
structure Progress (env : Env) (stake : StakeRules) (nStakeModifierPrev : UInt64) (start : ℤ)
    (entries chosen : IndexChain) (selection : Selection) : Prop
    extends Selects env stake nStakeModifierPrev start entries chosen where
  stop : selection.nSelectionIntervalStop = start + ((List.range chosen.length).map
    (getStakeModifierSelectionIntervalSection stake)).sum
  selected : ∀ hash, hash ∈ selection.mapSelectedBlocks ↔ hash ∈ chosen.map CBlockIndex.hashBlock
  bits : ∀ i < 64, selection.nStakeModifierNew.toNat.testBit i =
    chosen[i]?.any fun pindex => pindex.getStakeEntropyBit == 1

theorem testBit_or_shiftLeft {bits : UInt64} {bit i : ℕ} (hround : nRound < 64) (hbit : bit ≤ 1)
    (hi : i < 64) : (bits ||| UInt64.ofNat bit <<< UInt64.ofNat nRound).toNat.testBit i =
      (bits.toNat.testBit i || decide (i = nRound) && bit == 1) := by
  have hnat : (UInt64.ofNat bit <<< UInt64.ofNat nRound).toNat = bit <<< nRound % 2 ^ 64 := by
    rw [UInt64.toNat_shiftLeft, UInt64.toNat_ofNat_of_lt' (hbit.trans_lt (by decide)),
      UInt64.toNat_ofNat_of_lt' (hround.trans (by decide)), Nat.mod_eq_of_lt hround]
  rw [UInt64.toNat_or, Nat.testBit_or, hnat, Nat.testBit_mod_two_pow, Nat.testBit_shiftLeft]
  congr 1
  rcases lt_trichotomy i nRound with hlt | rfl | hgt
  · simp [hlt.ne, not_le.mpr hlt]
  · rcases Nat.le_one_iff_eq_zero_or_eq_one.mp hbit with rfl | rfl <;> simp [hi]
  · have hzero : bit.testBit (i - nRound) = false :=
      Nat.testBit_lt_two_pow (hbit.trans_lt (Nat.one_lt_two_pow (by omega)))
    simp [hgt.ne', hzero]

theorem CBlockIndex.getStakeEntropyBit_le_one (pindex : CBlockIndex) :
    pindex.getStakeEntropyBit ≤ 1 := by
  unfold getStakeEntropyBit CBlockIndex.BLOCK_STAKE_ENTROPY
  rw [UInt32.toNat_shiftRight, UInt32.toNat_and]
  have hle : pindex.nFlags.toNat &&& 2 ≤ 2 := Nat.and_le_right
  rw [Nat.shiftRight_eq_div_pow]
  exact Nat.div_le_of_le_mul hle

theorem Progress.selectRound
    (h : Progress env stake nStakeModifierPrev start entries chosen selection)
    (hentries : SortedEntries lookup entries) (hrounds : chosen.length < min 64 entries.length) :
    ∃ pindex next, selectRound env stake lookup (entries.map candidateKey)
        nStakeModifierPrev selection chosen.length = some next ∧
      Progress env stake nStakeModifierPrev start entries (chosen ++ [pindex]) next := by
  obtain ⟨hround, hcount⟩ := lt_min_iff.mp hrounds
  -- fewer blocks are chosen than there are candidates
  have hleft : ∃ pindex ∈ entries, pindex.hashBlock ∉ selection.mapSelectedBlocks := by
    by_contra hnone
    push Not at hnone
    have hsubset : entries.map hashBlock ⊆ chosen.map hashBlock := by
      intro hash hhash
      obtain ⟨pindex, hmem, rfl⟩ := mem_map.mp hhash
      exact (h.selected _).mp (hnone pindex hmem)
    have hle := (hentries.distinct.subperm hsubset).length_le
    simp only [length_map] at hle
    omega
  have hstop : selection.nSelectionIntervalStop +
      getStakeModifierSelectionIntervalSection stake chosen.length =
      selectionIntervalStop stake start chosen.length := by
    simp only [h.stop, selectionIntervalStop, range_succ, map_append, map_cons,
      map_nil, sum_append, sum_cons, sum_nil]
    push_cast
    ring
  obtain ⟨pindex, hselect, hchoice⟩ := @selectLoop_choice env lookup nStakeModifierPrev [] entries _
    (selectionIntervalStop stake start chosen.length) none hentries.lookup_eq hentries.sorted
    (forall_mem_nil _) hleft
  rw [nil_append] at hchoice
  have hfresh : pindex.hashBlock ∉ chosen.map hashBlock :=
    fun hmem => hchoice.fresh ((h.selected _).mpr hmem)
  refine ⟨pindex, { nSelectionIntervalStop := selectionIntervalStop stake start chosen.length
                    mapSelectedBlocks := pindex.hashBlock :: selection.mapSelectedBlocks
                    nStakeModifierNew := selection.nStakeModifierNew |||
                      UInt64.ofNat pindex.getStakeEntropyBit <<< UInt64.ofNat chosen.length },
    ?_, ⟨?_, ?_⟩, ?_, ?_, ?_⟩
  · rw [Patchcoin.selectRound, hstop, selectBlockFromCandidates, hselect]
    rfl
  · rw [map_append, nodup_append]
    refine ⟨h.distinct, nodup_singleton _, fun hash hhash other hother heq => hfresh ?_⟩
    rw [← mem_singleton.mp hother, ← heq]
    exact hhash
  · intro nRound found hfound
    rcases lt_or_ge nRound chosen.length with hlt | hge
    · rw [getElem?_append_left hlt] at hfound
      rw [take_append_of_le_length hlt.le]
      exact h.choice nRound found hfound
    · rw [getElem?_append_right hge, getElem?_singleton] at hfound
      split_ifs at hfound with hlast
      have hlast : nRound = chosen.length := by omega
      rw [← Option.some.inj hfound, hlast, take_left]
      exact ⟨hchoice.mem, hfresh, by simpa only [h.selected] using hchoice.least,
        by simpa only [h.selected] using hchoice.first⟩
  · rw [length_append]
    rfl
  · intro hash
    rw [mem_cons, h.selected, map_append, mem_append, or_comm]
    simp
  · intro i hi
    rw [testBit_or_shiftLeft hround pindex.getStakeEntropyBit_le_one hi, h.bits i hi]
    rcases lt_trichotomy i chosen.length with hlt | rfl | hgt
    · rw [getElem?_append_left hlt]
      simp [hlt.ne]
    · simp
    · rw [getElem?_append_right hgt.le, getElem?_eq_none hgt.le]
      simp [hgt.ne', Nat.sub_ne_zero_of_lt hgt]

theorem foldlM_selectRound (hentries : SortedEntries lookup entries)
    (hrounds : nRound ≤ min 64 entries.length) : ∃ chosen selection, chosen.length = nRound ∧
      (range nRound).foldlM (selectRound env stake lookup
        (entries.map candidateKey) nStakeModifierPrev)
        { nSelectionIntervalStop := start } = some selection ∧
      Progress env stake nStakeModifierPrev start entries chosen selection := by
  induction nRound with
  | zero => exact ⟨[], _, rfl, rfl, ⟨nodup_nil, by simp⟩, by simp, by simp, by simp⟩
  | succ nRound ih =>
    obtain ⟨chosen, selection, rfl, hfold, hprogress⟩ := ih (by omega)
    obtain ⟨pindex, next, hround, hnext⟩ := hprogress.selectRound hentries hrounds
    refine ⟨chosen ++ [pindex], next, by simp, ?_, hnext⟩
    rw [range_succ, foldlM_append, hfold]
    simpa using hround

end Rounds

/-- A block that generates a modifier gets one, the same for all random numbers. -/
theorem computeNextStakeModifier_selects {pindexCurrent pindexPrev : CBlockIndex}
    {rest : IndexChain} (hindex : InBlockIndex lookup (pindexPrev :: rest))
    (hgenerate : DecidesToGenerate env stake pindexCurrent pindexPrev rest nStakeModifierPrev) :
    ∃ nStakeModifierNew chosen,
      (∀ rand, computeNextStakeModifier env stake rand lookup pindexCurrent (pindexPrev :: rest) =
        some (nStakeModifierNew, true)) ∧
      chosen.length = min 64 (selectionCandidates (selectionIntervalStart stake pindexPrev)
        (pindexPrev :: rest)).length ∧
      Selects env stake nStakeModifierPrev (selectionIntervalStart stake pindexPrev)
        (selectionCandidates (selectionIntervalStart stake pindexPrev) (pindexPrev :: rest))
        chosen ∧
      ∀ i < 64, nStakeModifierNew.toNat.testBit i =
        chosen[i]?.any fun pindex => pindex.getStakeEntropyBit == 1 := by
  let start := selectionIntervalStart stake pindexPrev
  let candidates := selectionCandidates start (pindexPrev :: rest)
  let entries := candidates.insertionSort fun a b => candidateLE a.candidateKey b.candidateKey
  have hperm : entries.Perm candidates := List.perm_insertionSort ..
  have hsublist : candidates.Sublist (pindexPrev :: rest) := List.takeWhile_sublist _
  have hsorted : entries.map CBlockIndex.candidateKey =
      sortCandidates (stakeCandidates start (pindexPrev :: rest)) :=
    List.map_insertionSort _ _ _ _ fun _ _ _ _ => Iff.rfl
  have hentries : SortedEntries lookup entries := by
    refine ⟨fun pindex hmem => ?_, ?_, ?_⟩
    · exact hindex.lookup_eq pindex (hsublist.subset (hperm.mem_iff.mp hmem))
    · exact (hperm.map _).nodup_iff.mpr (hindex.distinct.sublist (hsublist.map _))
    · rw [← List.pairwise_map, hsorted]
      exact List.pairwise_insertionSort ..
  obtain ⟨chosen, selection, hlength, hfold, hprogress⟩ := @foldlM_selectRound env stake lookup
    nStakeModifierPrev start entries _ hentries le_rfl
  obtain ⟨nModifierTime, hlast, hprev, hcurrent⟩ := hgenerate
  refine ⟨selection.nStakeModifierNew, chosen, fun rand => ?_, ?_, ⟨hprogress.distinct, ?_⟩,
    hprogress.bits⟩
  · have hnew : generateStakeModifier env stake rand lookup nStakeModifierPrev pindexPrev rest =
        some selection.nStakeModifierNew := by
      simp only [generateStakeModifier, sortCandidates_shuffle]
      rw [← hsorted, List.length_map, hfold]
      rfl
    rw [computeNextStakeModifier, hlast]
    dsimp only
    rw [if_neg (not_le.mpr hprev), if_neg fun hkeep => absurd (hcurrent hkeep.2)
      (not_lt.mpr hkeep.1), hnew]
    rfl
  · rw [hlength, hperm.length_eq]
  · intro nRound pindex hpindex
    have hchoice := hprogress.choice nRound pindex hpindex
    exact ⟨hperm.mem_iff.mp hchoice.mem, hchoice.fresh,
      fun other hother => hchoice.least other (hperm.mem_iff.mpr hother),
      fun hlate other hother => hchoice.first
        (fun other hother => hlate other (hperm.mem_iff.mp hother)) other
        (hperm.mem_iff.mpr hother)⟩

namespace SmallNet

def selectionEntry (nHeight : ℕ) : CBlockIndex :=
  { genesisEntry.toCBlockIndex with
    hashBlock := BitVec.ofNat 256 (nHeight + 1)
    nHeight
    nTime := 1700000000 + 2000 * UInt32.ofNat nHeight
    nFlags := if nHeight = 0 then CBlockIndex.BLOCK_STAKE_MODIFIER else 0 }

def selectionIndex (hash : Uint256) : Option CBlockIndex :=
  [selectionEntry 0, selectionEntry 1].find? fun pindex => pindex.hashBlock == hash

theorem selects_two_blocks : ∃ nStakeModifierNew chosen,
      (∀ rand, computeNextStakeModifier (node false false) stakeRules rand selectionIndex
        (selectionEntry 2) [selectionEntry 1, selectionEntry 0] =
          some (nStakeModifierNew, true)) ∧
      chosen.length = 2 ∧
      Selects (node false false) stakeRules 0
        (selectionIntervalStart stakeRules (selectionEntry 1)) [selectionEntry 1, selectionEntry 0]
        chosen := by
  have hindex : InBlockIndex selectionIndex [selectionEntry 1, selectionEntry 0] :=
    ⟨by simp [selectionIndex, selectionEntry], by simp [selectionEntry]⟩
  obtain ⟨nStakeModifierNew, chosen, hrand, hlength, hselects, -⟩ :=
    @computeNextStakeModifier_selects (node false false) stakeRules _ 0 (selectionEntry 2) _ _
      hindex ⟨1700000000, by decide +kernel, by decide +kernel, by decide +kernel⟩
  exact ⟨nStakeModifierNew, chosen, hrand, hlength, hselects⟩

end SmallNet

end Patchcoin
