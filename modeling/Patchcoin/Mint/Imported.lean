import Patchcoin.SmallMint

/-!
# Coinstakes that were signed in advance

`importcoinstake` stores transactions in a map under the times at which they are due, and
`CreateCoinStake` goes through the map from the earliest time on.  A coinstake that is due in
the window since the last search is returned and stays in the map.  One that was due before
the window is erased, and that ends the loop.

So a coinstake that was used costs the next one that is due its turn: it is the first that the
loop meets, it is erased, and the rest of the map is not looked at.  Only calls in whose windows
nothing is due clear the map, one entry each.  `imported_returned_iff` says that this is the
only obstacle: the earliest entry decides (`returned_eq_some_iff`), and what is erased is never
due again.
-/

namespace Patchcoin

/-- `m_coinstakes` after a call. -/
def presignedAfter (call : MintCall) : List (UInt32 × CTransaction) → List (UInt32 × CTransaction)
  | [] => []
  | (timestamp, txn) :: rest =>
    if (timestamp.toNat : ℤ) < (call.time % 2 ^ 32) then
      if call.time % 2 ^ 32 - call.nSearchInterval ≤ timestamp.toNat then (timestamp, txn) :: rest
      else rest
    else (timestamp, txn) :: presignedAfter call rest

theorem presignedAfter_sublist (call : MintCall) (entries : List (UInt32 × CTransaction)) :
    (presignedAfter call entries).Sublist entries := by
  fun_induction presignedAfter call entries with
  | case1 => exact List.Sublist.refl _
  | case2 => exact List.Sublist.refl _
  | case3 => exact List.sublist_cons_self _ _
  | case4 timestamp txn rest hlate ih => exact ih.cons_cons _

/-- What is due in the window or later is not erased. -/
theorem mem_presignedAfter {call : MintCall} {entries : List (UInt32 × CTransaction)}
    {entry : UInt32 × CTransaction} (hmem : entry ∈ entries)
    (hdue : call.time % 2 ^ 32 - call.nSearchInterval ≤ entry.1.toNat) :
    entry ∈ presignedAfter call entries := by
  fun_induction presignedAfter call entries with
  | case1 => exact hmem
  | case2 => exact hmem
  | case3 timestamp txn rest hlate hold =>
    rcases List.mem_cons.mp hmem with rfl | hmem
    · exact absurd hdue hold
    · exact hmem
  | case4 timestamp txn rest hlate ih =>
    rcases List.mem_cons.mp hmem with rfl | hmem
    · exact .head _
    · exact .tail _ (ih hmem)

theorem presignedStake_of_late {call : MintCall} {entries : List (UInt32 × CTransaction)}
    (h : ∀ entry ∈ entries, call.time % 2 ^ 32 ≤ (entry.1.toNat : ℤ)) :
    presignedStake call entries = none := by
  induction entries with
  | nil => rfl
  | cons first rest ih =>
    obtain ⟨hfirst, hrest⟩ := List.forall_mem_cons.mp h
    rw [presignedStake, if_neg (not_lt.mpr hfirst), ih hrest]

/-! ## Searches -/

/-- A call of `CreateNewBlock` with a wallet, on a node whose adjusted time is the system time. -/
structure MintSearch where
  call : MintCall
  clock : call.time = call.now.toNat
  /-- no exception of `CreateCoinStake` keeps the time from being noted -/
  completes : Bool

/-- The imported coinstakes in the order of their due times, and the time of the last search. -/
structure SearchState where
  m_coinstakes : List (UInt32 × CTransaction)
  sorted : m_coinstakes.Pairwise fun first second => first.1 < second.1
  nLastCoinStakeSearchTime : ℤ

namespace SearchState

variable {start st : SearchState} {search : MintSearch} {entry : UInt32 × CTransaction}

/-- The call of `CreateCoinStake`, as far as the imported coinstakes are concerned. -/
def stakeCall (st : SearchState) (search : MintSearch) : MintCall :=
  { search.call with nSearchInterval := search.call.now.toNat - st.nLastCoinStakeSearchTime }

/-- The imported coinstake that the call of `CreateCoinStake` returns, if there is a call. -/
def returned (st : SearchState) (search : MintSearch) : Option CTransaction :=
  if st.nLastCoinStakeSearchTime < search.call.now.toNat then
    presignedStake (st.stakeCall search) st.m_coinstakes
  else none

def step (st : SearchState) (search : MintSearch) : SearchState :=
  if st.nLastCoinStakeSearchTime < search.call.now.toNat then
    { m_coinstakes := presignedAfter (st.stakeCall search) st.m_coinstakes
      sorted := st.sorted.sublist (presignedAfter_sublist _ _)
      nLastCoinStakeSearchTime :=
        if (st.returned search).isSome || search.completes then search.call.now.toNat
        else st.nLastCoinStakeSearchTime }
  else st

/-- The coinstake is due in the window of the search. -/
def Due (st : SearchState) (search : MintSearch) (entry : UInt32 × CTransaction) : Prop :=
  st.nLastCoinStakeSearchTime ≤ entry.1.toNat ∧ entry.1.toNat < search.call.now.toNat

/-- The clock, and the start of the window. -/
theorem stakeCall_time (st : SearchState) (search : MintSearch) :
    (st.stakeCall search).time % 2 ^ 32 = search.call.now.toNat ∧
      (st.stakeCall search).time % 2 ^ 32 - (st.stakeCall search).nSearchInterval =
        st.nLastCoinStakeSearchTime := by
  have hlt := search.call.now.toNat_lt
  have htime : search.call.time % 2 ^ 32 = search.call.now.toNat := by
    rw [search.clock]
    omega
  refine ⟨htime, ?_⟩
  show search.call.time % 2 ^ 32 - (search.call.now.toNat - st.nLastCoinStakeSearchTime) = _
  rw [htime, sub_sub_cancel]

theorem le_of_mem {first : UInt32 × CTransaction} {rest : List (UInt32 × CTransaction)}
    (hentries : st.m_coinstakes = first :: rest) (hmem : entry ∈ st.m_coinstakes) :
    first.1.toNat ≤ entry.1.toNat := by
  have hsorted := st.sorted
  rw [hentries, List.pairwise_cons] at hsorted
  rw [hentries, List.mem_cons] at hmem
  rcases hmem with rfl | hmem
  · exact le_rfl
  · exact (UInt32.lt_iff_toNat_lt.mp (hsorted.1 entry hmem)).le

/-- The earliest coinstake is returned, or none. -/
theorem returned_eq_some_iff {txn : CTransaction} : st.returned search = some txn ↔
      ∃ first rest, st.m_coinstakes = first :: rest ∧ st.Due search first ∧ first.2 = txn := by
  obtain ⟨htime, hstart⟩ := st.stakeCall_time search
  unfold returned
  cases hentries : st.m_coinstakes with
  | nil => simp [presignedStake]
  | cons first rest =>
    simp only [List.cons.injEq, exists_and_left, exists_eq_left', and_assoc]
    by_cases hearly : first.1.toNat < search.call.now.toNat
    · rw [presignedStake, hstart, htime, if_pos (Int.ofNat_lt.mpr hearly)]
      by_cases hdue : st.nLastCoinStakeSearchTime ≤ first.1.toNat
      · rw [if_pos (by omega), if_pos hdue, Option.some.injEq]
        exact (and_iff_right ⟨hdue, hearly⟩).symm
      · rw [if_neg hdue, ite_self]
        exact iff_of_false (fun h => nomatch h) fun h => hdue h.1.1
    · have hnone : presignedStake (st.stakeCall search) (first :: rest) = none := by
        refine presignedStake_of_late fun entry hmem => ?_
        have hle := le_of_mem hentries (hentries ▸ hmem)
        rw [htime]
        omega
      rw [hnone, ite_self]
      exact iff_of_false (fun h => nomatch h) fun h => hearly h.1.2

/-! ## What is kept -/

/-- The map holds imported coinstakes only, and all those that can still be due. -/
def Keeps (start st : SearchState) : Prop :=
  st.m_coinstakes ⊆ start.m_coinstakes ∧ ∀ entry ∈ start.m_coinstakes,
    st.nLastCoinStakeSearchTime ≤ entry.1.toNat → entry ∈ st.m_coinstakes

theorem Keeps.step (h : start.Keeps st) (search : MintSearch) : start.Keeps (st.step search) := by
  unfold SearchState.step
  by_cases hsearch : st.nLastCoinStakeSearchTime < search.call.now.toNat
  · rw [if_pos hsearch]
    refine ⟨fun entry hmem => h.1 ((presignedAfter_sublist _ _).subset hmem),
      fun entry hmem hdue => ?_⟩
    have hlast : st.nLastCoinStakeSearchTime ≤ entry.1.toNat := by
      dsimp only at hdue
      split_ifs at hdue
      · omega
      · exact hdue
    refine mem_presignedAfter (h.2 entry hmem hlast) ?_
    rw [(st.stakeCall_time search).2]
    exact hlast
  · rw [if_neg hsearch]
    exact h

/-! ## What is returned -/

/-- The search returns every imported coinstake that is due, none of which is erased by then. -/
def ReturnsDue (start st : SearchState) (search : MintSearch) : Prop :=
  ∀ entry ∈ start.m_coinstakes, st.Due search entry →
    entry ∈ st.m_coinstakes ∧ st.returned search = some entry.2

/-- If a coinstake is due, nothing older is left in the map. -/
def Cleared (start st : SearchState) (search : MintSearch) : Prop :=
  (∃ entry ∈ start.m_coinstakes, st.Due search entry) →
    ∀ other ∈ st.m_coinstakes, st.nLastCoinStakeSearchTime ≤ other.1.toNat

/-- At most one coinstake is due. -/
def OneDue (start st : SearchState) (search : MintSearch) : Prop :=
  ∀ first ∈ start.m_coinstakes, ∀ second ∈ start.m_coinstakes,
    st.Due search first → st.Due search second → first = second

theorem returnsDue_iff_cleared (hkeeps : start.Keeps st) (hone : OneDue start st search) :
    ReturnsDue start st search ↔ Cleared start st search := by
  constructor
  · rintro h ⟨entry, hmem, hdue⟩ other hother
    obtain ⟨first, rest, hentries, hfirst, -⟩ := returned_eq_some_iff.mp (h entry hmem hdue).2
    have hle := le_of_mem hentries hother
    have hstart := hfirst.1
    omega
  · intro h entry hmem hdue
    have hkept := hkeeps.2 entry hmem hdue.1
    refine ⟨hkept, ?_⟩
    obtain ⟨first, rest, hentries⟩ := List.exists_cons_of_ne_nil (List.ne_nil_of_mem hkept)
    have hfirst : first ∈ st.m_coinstakes := hentries ▸ .head _
    have hfirstDue : st.Due search first :=
      ⟨h ⟨entry, hmem, hdue⟩ first hfirst, (le_of_mem hentries hkept).trans_lt hdue.2⟩
    obtain rfl := hone first (hkeeps.1 hfirst) entry hmem hfirstDue hdue
    exact returned_eq_some_iff.mpr ⟨first, rest, hentries, hfirstDue, rfl⟩

/-- Along every sequence of searches in whose windows at most one coinstake is due: the due
ones are returned exactly if nothing older is left in the map whenever one is due. -/
theorem imported_returned_iff (start : SearchState) (searches : List MintSearch)
    (hone : Run.Each step (OneDue start) searches start) :
    Run.Each step (ReturnsDue start) searches start ↔
      Run.Each step (Cleared start) searches start :=
  Run.each_iff_each (I := start.Keeps) (fun _ search hkeeps => hkeeps.step search)
    (fun _ _ hkeeps hone => returnsDue_iff_cleared hkeeps hone)
    ⟨List.Subset.refl _, fun _ hmem _ => hmem⟩ hone

end SearchState

namespace SmallNet

/-- Two coinstakes, due five seconds after the last search and ten seconds later. -/
def importedState : SearchState where
  m_coinstakes := [(1005, pooledTx 1005), (1015, pooledTx 1015)]
  sorted := by decide
  nLastCoinStakeSearchTime := 1000

def searchAt (now : UInt32) : MintSearch := ⟨mintCall now, rfl, true⟩

/-- One search returns the first coinstake. -/
theorem imported_returned_first :
    Run.Each SearchState.step importedState.ReturnsDue [searchAt 1010] importedState := by
  refine (SearchState.imported_returned_iff importedState [searchAt 1010] ⟨?_, trivial⟩).mpr
    ⟨?_, trivial⟩
  · unfold SearchState.OneDue SearchState.Due
    decide
  · exact fun _ => by decide

/-- The second search only erases the coinstake that the first has returned. -/
theorem used_coinstake_hides_next :
    (importedState.step (searchAt 1010)).Due (searchAt 1020) (1015, pooledTx 1015) ∧
      importedState.returned (searchAt 1010) = some (pooledTx 1005) ∧
      (importedState.step (searchAt 1010)).returned (searchAt 1020) = none := by
  unfold SearchState.Due
  decide

end SmallNet

end Patchcoin
