import Patchcoin.Chain.Finished

/-!
# What a connected block has recorded

At its very end `connectBlock` writes the payouts of the transaction loop into the
entry of the block: `nClaims` holds them under the source of their claim, next to
what the entry held before.
-/

namespace Patchcoin

open Std.ExtTreeMap

variable {env : Env} {kernel : Kernel} {ctx : Circumstances} {ancestors : IndexChain}
  {fJustCheck : Bool} {st : ConnectState}

/-! ## The records -/

/-- Every payout finds its claim in the pool, under its own source. -/
def Recordable (pool : ClaimPool) (payouts : List (CScript × ℤ)) : Prop :=
  ∀ payout ∈ payouts, ∃ claim : Claim, pool[payout.1]? = some claim ∧ claim.getSource = payout.1

/-- One payout is written into the entry of the block, and the claim stays what it is. -/
theorem recordClaim_of_some {payout : CScript × ℤ} {claim : Claim}
    (hentry : st.g_claims[payout.1]? = some claim) (hsource : claim.getSource = payout.1) :
    (recordClaim env ancestors st payout).pindex.nClaims =
        st.pindex.nClaims.insert payout.1 (payout.2 % 2 ^ 64).toNat ∧
      ∃ claim', (recordClaim env ancestors st payout).g_claims =
        st.g_claims.insert payout.1 claim' ∧ claim'.getSource = claim.getSource := by
  unfold recordClaim
  rw [hentry]
  refine ⟨?_, _, rfl, rfl⟩
  rw [← hsource]
  rfl

theorem Recordable.recordClaim {payout : CScript × ℤ} {rest : List (CScript × ℤ)}
    (h : Recordable st.g_claims (payout :: rest)) :
    Recordable (recordClaim env ancestors st payout).g_claims rest := by
  obtain ⟨claim, hentry, hsource⟩ := h payout (.head _)
  obtain ⟨-, claim', hpool, hsame⟩ := @recordClaim_of_some env ancestors st payout claim hentry
    hsource
  intro other hother
  rw [hpool, getElem?_insert]
  split_ifs with heq
  · have hkey : payout.1 = other.1 := Std.LawfulEqCmp.eq_of_compare heq
    exact ⟨claim', rfl, by rw [hsame, hsource, hkey]⟩
  · exact h other (.tail _ hother)

theorem nClaims_foldl_recordClaim {payouts : List (CScript × ℤ)}
    (h : Recordable st.g_claims payouts) :
    (payouts.foldl (recordClaim env ancestors) st).pindex.nClaims =
      payouts.foldl (fun nClaims payout => nClaims.insert payout.1 (payout.2 % 2 ^ 64).toNat)
        st.pindex.nClaims := by
  induction payouts generalizing st with
  | nil => rfl
  | cons payout rest ih =>
    obtain ⟨claim, hentry, hsource⟩ := h payout (.head _)
    rw [List.foldl_cons, List.foldl_cons, ih h.recordClaim, (recordClaim_of_some hentry hsource).1]

/-- Looking up a source after inserting a list of payouts of different sources. -/
private theorem getElem?_foldl_insert {payouts : List (CScript × ℤ)}
    (hdistinct : (payouts.map Prod.fst).Nodup) (nClaims : Std.ExtTreeMap CScript ℕ compare)
    (source : CScript) : (∀ value, (source, value) ∈ payouts →
      (payouts.foldl (fun nClaims payout => nClaims.insert payout.1 (payout.2 % 2 ^ 64).toNat)
        nClaims)[source]? = some (value % 2 ^ 64).toNat) ∧
    (source ∉ payouts.map Prod.fst →
      (payouts.foldl (fun nClaims payout => nClaims.insert payout.1 (payout.2 % 2 ^ 64).toNat)
        nClaims)[source]? = nClaims[source]?) := by
  induction payouts generalizing nClaims with
  | nil => exact ⟨fun _ h => absurd h List.not_mem_nil, fun _ => rfl⟩
  | cons payout rest ih =>
    rw [List.map_cons, List.nodup_cons] at hdistinct
    obtain ⟨hfound, hmissing⟩ := ih hdistinct.2
      (nClaims.insert payout.1 (payout.2 % 2 ^ 64).toNat)
    rw [List.foldl_cons]
    refine ⟨?_, ?_⟩
    · intro value hmem
      rcases List.mem_cons.mp hmem with rfl | hrest
      · rw [hmissing hdistinct.1]
        exact getElem?_insert_self
      · exact hfound value hrest
    · intro hnot
      rw [List.map_cons, List.mem_cons, not_or] at hnot
      rw [hmissing hnot.2, getElem?_insert, if_neg]
      intro heq
      exact hnot.1 (Std.LawfulEqCmp.eq_of_compare heq).symm

section Loop

variable {loop : TxLoop}

section

variable (h : PaidLoop env ancestors loop)
include h

/-- The payouts of the loop, as `recordBlock` walks over them. -/
theorem PaidLoop.payouts_map_fst :
    (loop.claims.toList.map Prod.snd).map Prod.fst = loop.claims.toList.map Prod.fst := by
  rw [List.map_map]
  apply List.map_congr_left
  rintro ⟨source, key, value⟩ hmem
  have hentry := mem_toList_iff_getElem?_eq_some.mp hmem
  exact (h.paid.paid source key value hentry).1

private theorem mem_payouts_iff (source : CScript) (value : ℤ) :
    (source, value) ∈ loop.claims.toList.map Prod.snd ↔
      loop.claims[source]? = some (source, value) := by
  rw [List.mem_map]
  constructor
  · rintro ⟨⟨other, key, amount⟩, hmem, heq⟩
    have hentry := mem_toList_iff_getElem?_eq_some.mp hmem
    obtain ⟨rfl, -⟩ := h.paid.paid other key amount hentry
    obtain ⟨rfl, rfl⟩ := Prod.mk.inj heq
    exact hentry
  · intro hentry
    exact ⟨(source, source, value), mem_toList_iff_getElem?_eq_some.mpr hentry, rfl⟩

theorem PaidLoop.payouts_nodup : ((loop.claims.toList.map Prod.snd).map Prod.fst).Nodup := by
  rw [h.payouts_map_fst, List.nodup_iff_pairwise_ne, List.pairwise_map]
  refine List.Pairwise.imp ?_ loop.claims.distinct_keys_toList
  intro first second hne heq
  exact hne (by rw [heq]; exact Std.ReflCmp.compare_self)

theorem PaidLoop.recordable : Recordable loop.g_claims (loop.claims.toList.map Prod.snd) := by
  rintro ⟨source, value⟩ hmem
  obtain ⟨-, claim, hpaid⟩ :=
    h.paid.paid source source value ((mem_payouts_iff h source value).mp hmem)
  exact ⟨claim, hpaid.entry, hpaid.source_eq⟩

/-- The entry of the block holds the payouts of the loop under their sources, and for
other sources what it held before. -/
theorem nClaims_recordBlock (hpool : st.g_claims = loop.g_claims) (source : CScript) :
    (recordBlock env ancestors loop st).pindex.nClaims[source]? =
      match loop.claims[source]? with
      | some payout => some payout.2.toNat
      | none => st.pindex.nClaims[source]? := by
  have hready : Recordable st.g_claims (loop.claims.toList.map Prod.snd) := by
    rw [hpool]
    exact h.recordable
  unfold recordBlock
  rw [nClaims_foldl_recordClaim (by exact hready)]
  obtain ⟨hfound, hmissing⟩ := getElem?_foldl_insert h.payouts_nodup st.pindex.nClaims source
  cases hentry : loop.claims[source]? with
  | some payout =>
    obtain ⟨key, value⟩ := payout
    obtain ⟨rfl, -⟩ := h.paid.paid source key value hentry
    have hrange := (moneyRange_iff _).mp (h.range key (key, value) hentry)
    have hmod : value % 2 ^ 64 = value := by
      apply Int.emod_eq_of_lt hrange.1
      have hmax : MAX_MONEY < 2 ^ 64 := by decide
      omega
    rw [hfound value ((mem_payouts_iff h key value).mpr hentry), hmod]
  | none =>
    apply hmissing
    rw [h.payouts_map_fst, List.mem_map]
    rintro ⟨⟨other, payout⟩, hmem, rfl⟩
    rw [mem_toList_iff_getElem?_eq_some.mp hmem] at hentry
    cases hentry

end

end Loop

/-! ## A connected block -/

/-- A block that was connected: the prologue has passed and led to the state `staged`,
the loop has passed from there, and its payouts were recorded. -/
structure Connected (env : Env) (kernel : Kernel) (ctx : Circumstances)
    (ancestors : IndexChain) (st staged : ConnectState) (pindex : CBlockIndex) : Prop where
  prologue : (connectPrologue env kernel ancestors false st).result = .ok ()
  g_claims : staged.g_claims = st.g_claims
  coins : staged.view.coins = st.view.coins
  content : staged.block.content = st.block.content
  unstaked : staged.pindex.unstaked = st.pindex.unstaked
  loop : (connectLoop env ctx ancestors staged).result = .ok ()
  nClaims : pindex.nClaims = (recordBlock env ancestors
    (connectLoop env ctx ancestors staged).state { staged with
      g_claims := (connectLoop env ctx ancestors staged).state.g_claims
      view := (connectLoop env ctx ancestors staged).state.view }).pindex.nClaims

/-- What has happened when `ConnectBlock` returns true for a block it should connect. -/
theorem connected_of_ok (hok : (connectBlock env kernel ctx ancestors false st).result = .ok ()) :
    ∃ staged, Connected env kernel ctx ancestors st staged
      (connectBlock env kernel ctx ancestors false st).state.pindex := by
  obtain ⟨hprologue, -, hfinished⟩ := connectBlock_of_ok hok
  refine ⟨loopStart env kernel ancestors false st, hprologue, ?_, view_loopStart st,
    content_loopStart st, unstaked_loopStart st, hfinished.loop, ?_⟩
  · rw [loopStart, setGenesisBest_eq]
    exact (connectPrologue_staged st).g_claims
  · obtain ⟨nStatus, hraise, -⟩ := (recordBlock env ancestors _ _).pindex.raiseValidity_cases
      BLOCK_VALID_SCRIPTS
    rw [hfinished.final_eq]
    dsimp only
    rw [hraise]
    rfl

/-! ## The coins that the transactions see -/

theorem CCoinsView.spendCoins_setBest (view : CCoinsView) (best : Uint256) (vin : List CTxIn) :
    spendCoins { view with bestBlock := best } vin =
      (spendCoins view vin).map fun spent => { spent with bestBlock := best } := by
  induction vin generalizing view with
  | nil => rfl
  | cons input rest ih =>
    unfold spendCoins spendCoin
    split_ifs
    · rfl
    · exact ih { view with
        coins := fun outpoint => if outpoint = input.prevout then none else view.coins outpoint }

theorem CCoinsView.addCoins_setBest (txid : Uint256) (coin : CTxOut → Coin)
    (overwrite fSkipZeroValue : Bool) (view : CCoinsView) (best : Uint256) (vout : List CTxOut)
    (n : ℕ) : addCoins txid coin overwrite fSkipZeroValue { view with bestBlock := best } vout n =
      (addCoins txid coin overwrite fSkipZeroValue view vout n).map fun added =>
        { added with bestBlock := best } := by
  induction vout generalizing view n with
  | nil => rfl
  | cons out rest ih =>
    unfold addCoins addCoin
    split_ifs
    · exact ih view (n + 1)
    · exact ih view (n + 1)
    · rfl
    · exact ih { view with coins := fun other =>
        if other = ⟨txid, UInt32.ofNat n⟩ then some (coin out) else view.coins other } (n + 1)

/-- Updating the coins has nothing to do with the best block of the view. -/
theorem CCoinsView.updateCoins_setBest (view : CCoinsView) (best : Uint256)
    (hash256 : List UInt8 → Uint256) (tx : CTransaction) (nHeight : ℕ) (fSkipZeroValue : Bool) :
    updateCoins { view with bestBlock := best } hash256 tx nHeight fSkipZeroValue =
      (view.updateCoins hash256 tx nHeight fSkipZeroValue).map fun updated =>
        { updated with bestBlock := best } := by
  have hspent : (if tx.isCoinBase then some { view with bestBlock := best }
      else spendCoins { view with bestBlock := best } tx.vin) =
      (if tx.isCoinBase then some view else spendCoins view tx.vin).map fun spent =>
        { spent with bestBlock := best } := by
    split_ifs
    · rfl
    · exact spendCoins_setBest view best tx.vin
  unfold updateCoins
  rw [hspent]
  cases (if tx.isCoinBase then some view else spendCoins view tx.vin) with
  | none => rfl
  | some spent =>
    dsimp only [Option.map_some]
    rw [addCoins_setBest]
    cases addCoins (tx.getHash hash256)
        (fun out => ⟨out, tx.isCoinBase, tx.isCoinStake, nHeight, tx.nTime⟩) tx.isCoinBase
        fSkipZeroValue spent tx.vout 0 with
    | none => rfl
    | some added => rfl

theorem blockViews_setBest (pindex : CBlockIndex) (view : CCoinsView) (best : Uint256)
    (txs : List CTransaction) : blockViews env pindex { view with bestBlock := best } txs =
      (blockViews env pindex view txs).map fun entry =>
        (entry.1, { entry.2 with bestBlock := best }) := by
  induction txs generalizing view with
  | nil => rfl
  | cons tx rest ih =>
    rw [blockViews, blockViews, CCoinsView.updateCoins_setBest]
    cases view.updateCoins env.host.hash256 tx pindex.nHeight
        (isProtocolV12 env.params pindex.nTime.toNat) with
    | error failure => rfl
    | ok updated =>
      rw [List.map_cons, ← ih updated]
      rfl

theorem blockViews_congr {pindex pindex' : CBlockIndex} (hheight : pindex'.nHeight = pindex.nHeight)
    (htime : pindex'.nTime = pindex.nTime) (view : CCoinsView) (txs : List CTransaction) :
    blockViews env pindex' view txs = blockViews env pindex view txs := by
  induction txs generalizing view with
  | nil => rfl
  | cons tx rest ih =>
    rw [blockViews, blockViews, hheight, htime]
    simp only [ih]

section

variable {staged : ConnectState} {pindex : CBlockIndex}
    (h : Connected env kernel ctx ancestors st staged pindex)
include h

/-- The transactions of a connected block saw the coins that they would see in the
state before, up to the best block of the view. -/
theorem Connected.blockViews_eq : blockViews env staged.pindex staged.view staged.block.vtx =
      (blockViews env st.pindex st.view st.block.vtx).map fun entry =>
        (entry.1, { entry.2 with bestBlock := staged.view.bestBlock }) := by
  obtain ⟨hheight, htime, -⟩ := CBlockIndex.fields_of_unstaked_eq h.unstaked
  have hview : staged.view = { st.view with bestBlock := staged.view.bestBlock } := by
    dsimp only
    rw [← h.coins]
  rw [blockViews_congr hheight htime, CBlock.vtx_eq_of_content_eq h.content, hview,
    blockViews_setBest]

theorem Connected.mem_blockViews {entry : CTransaction × CCoinsView}
    (hentry : entry ∈ blockViews env st.pindex st.view st.block.vtx) :
    (entry.1, { entry.2 with bestBlock := staged.view.bestBlock }) ∈
      blockViews env staged.pindex staged.view staged.block.vtx := by
  rw [h.blockViews_eq]
  exact List.mem_map_of_mem hentry

/-- The payouts of a connected block: they were checked in the loop, every output of a
transaction of a block with claims is settled, and the entry holds them. -/
theorem Connected.payouts (hpool : st.g_claims.Sound env) :
    PaidLoop env ancestors (connectLoop env ctx ancestors staged).state ∧
      (∀ entry ∈ blockViews env st.pindex st.view st.block.vtx,
        TxSettled env st.block entry (connectLoop env ctx ancestors staged).state) ∧
      ∀ source : CScript, pindex.nClaims[source]? =
        match (connectLoop env ctx ancestors staged).state.claims[source]? with
        | some payout => some payout.2.toNat
        | none => st.pindex.nClaims[source]? := by
  have hsound : staged.g_claims.Sound env := h.g_claims ▸ hpool
  obtain ⟨hpaid, hsettled⟩ := paidLoop_of_ok hsound h.loop
  refine ⟨hpaid, ?_, ?_⟩
  · intro entry hentry hcoinbase hne
    have hmem := hsettled _ (h.mem_blockViews hentry)
    refine hmem hcoinbase ?_
    rwa [CBlock.vClaim_eq_of_content_eq h.content]
  · intro source
    rw [h.nClaims, nClaims_recordBlock hpaid rfl,
      ← (CBlockIndex.fields_of_unstaked_eq h.unstaked).2.2]

end

/-- What holds of the claims in the pool and in the block holds of the claims in the
pool when the loop is done. -/
theorem ClaimPool.All.connectLoop {P : CClaim → Prop} {ancestors : IndexChain}
    (hpool : st.g_claims.All P) (hblock : ∀ claim ∈ st.block.vClaim, P claim) :
    (connectLoop env ctx ancestors st).state.g_claims.All P := by
  exact connectTxs_claims (P := fun claims => claims.g_claims.All P)
    (fun _ _ _ h => h.checkClaims hblock) hpool

/-! ## The pool stays sound -/

section

variable (hpool : st.g_claims.Sound env)
include hpool

theorem ClaimPool.Sound.connectLoop {ancestors : IndexChain} :
    (connectLoop env ctx ancestors st).state.g_claims.Sound env := by
  exact connectTxs_claims (P := fun claims => claims.g_claims.Sound env)
    (fun _ _ _ h => h.checkClaims) hpool

theorem ClaimPool.Sound.recordClaim {payout : CScript × ℤ} :
    (recordClaim env ancestors st payout).g_claims.Sound env := by
  unfold Patchcoin.recordClaim
  split
  · exact hpool
  · rename_i claim hentry
    exact hpool.replace hentry (fun hbuilt => ⟨hbuilt.core_eq, hbuilt.electrum⟩) rfl rfl

theorem ClaimPool.Sound.recordBlock {loop : TxLoop} :
    (recordBlock env ancestors loop st).g_claims.Sound env := by
  refine List.foldlRecOn (motive := fun st : ConnectState => st.g_claims.Sound env) _ _ hpool ?_
  intro st hst payout _
  exact hst.recordClaim

/-- Connecting a block keeps the pool sound, whether it succeeds or not. -/
theorem ClaimPool.Sound.connectBlock :
    (connectBlock env kernel ctx ancestors fJustCheck st).state.g_claims.Sound env := by
  have hprologue : (connectPrologue env kernel ancestors fJustCheck st).state.g_claims.Sound env :=
    (connectPrologue_staged st).g_claims ▸ hpool
  have hloop : (loopEnd env ctx ancestors
      (loopStart env kernel ancestors fJustCheck st)).g_claims.Sound env := by
    refine ClaimPool.Sound.connectLoop ?_
    rw [loopStart, setGenesisBest_eq]
    exact hprologue
  rcases @connectBlock_cases env kernel ctx ancestors fJustCheck st with
    ⟨-, failure, hfail⟩ | ⟨-, hrun⟩
  · rw [hfail]
    exact hprologue
  · rw [hrun]
    rcases @connectTransactions_cases env ctx ancestors fJustCheck
      (loopStart env kernel ancestors fJustCheck st) with ⟨-, failure, hfail⟩ | ⟨-, hrest⟩
    · rw [hfail]
      exact hloop
    · rw [hrest]
      split_ifs
      · exact hloop
      · obtain ⟨-, _, _, -, hstate⟩ := finishBlock_cases _ _ _
        rw [hstate]
        exact ClaimPool.Sound.recordBlock hloop

end

end Patchcoin
