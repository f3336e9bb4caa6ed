import Patchcoin.Claim.ClaimSet

/-!
# Who has authorised a valid claim

`IsValid` is a chain of tests that depend on the class of the source.  A source that can sign
messages needs a signature over the address of the target, another source of the snapshot needs
a transaction that spends one of its outputs to the target, and a Bitcoin source needs a
signature that Electrum accepts.  Only a node with the Bitcoin lookup asks Electrum; the other
nodes rely on the holder of the genesis key for the claims on Bitcoin sources.
-/

namespace Patchcoin

open Claim

variable {env : Env} {claim : Claim}

/-- The signature text that `Init` makes for a claim. -/
def Env.signatureString (env : Env) (m_claim : CClaim) : String :=
  if env.snapshot.scriptPubKeys.contains m_claim.source then
    env.host.encodeBase64 m_claim.signature
  else if env.snapshot.incompatibleScriptPubKeys.contains m_claim.source then
    env.host.encodeHexTx m_claim.dummyTx
  else env.host.encodeBase64 m_claim.signature

theorem Claim.Built.texts (h : claim.Built env) (hinit : claim.m_init = true) :
    claim.m_compatible = env.snapshot.scriptPubKeys.contains claim.m_claim.source ∧
      claim.m_signature_string = env.signatureString claim.m_claim := by
  have hcore : (ofCClaim env claim.m_claim).m_init = true := by
    rw [← h.core_eq]
    exact hinit
  obtain ⟨-, -, heq⟩ := ofCClaim_of_init hcore
  rw [← h.core_eq] at heq
  have hcompatible := congrArg m_compatible heq
  have htext := congrArg m_signature_string heq
  simp only [core, setLimits] at hcompatible htext
  rw [hcompatible, htext]
  unfold classify Env.signatureString
  rw [Std.ExtTreeMap.contains_eq_isSome_getElem?, Std.ExtTreeMap.contains_eq_isSome_getElem?]
  simp only [setAddresses]
  cases env.snapshot.scriptPubKeys[claim.m_claim.source]? with
  | some balance => exact ⟨rfl, rfl⟩
  | none =>
    cases env.snapshot.incompatibleScriptPubKeys[claim.m_claim.source]? with
    | some utxo => exact ⟨rfl, rfl⟩
    | none => exact ⟨rfl, rfl⟩

/-- The transaction spends an output of the snapshot, one of those given, and pays all of it to
the target. -/
def SpendsTo (env : Env) (utxo : List (COutPoint × Coin)) (target : CScript)
    (tx : CTransaction) : Prop :=
  ∃ input out coin, tx.vin = [input] ∧ tx.vout = [out] ∧ (input.prevout, coin) ∈ utxo ∧
    out.scriptPubKey = target ∧ out.nValue = coin.out.nValue ∧
    env.host.verifyDummyScript tx coin.out = true

/-- The holder of the source has authorised the target, as far as the node looks. -/
def Authorised (env : Env) (m_claim : CClaim) : Prop :=
  if env.snapshot.scriptPubKeys.contains m_claim.source then
    env.host.messageVerify (env.getAddressFromScript m_claim.source)
      (env.host.encodeBase64 m_claim.signature) (env.getAddressFromScript m_claim.target) = true
  else if env.snapshot.incompatibleScriptPubKeys.contains m_claim.source then
    SpendsTo env (env.snapshot.incompatibleScriptPubKeys.getD m_claim.source []) m_claim.target
      m_claim.dummyTx
  else env.isLookupEnabled = true →
    env.options.electrumVerify (env.getBtcAddressFromScript m_claim.source)
      (env.host.encodeBase64 m_claim.signature) (env.getAddressFromScript m_claim.target) = true

theorem spendsTo_of_verifyDummyTx (h : claim.verifyDummyTx env = .OK) :
    SpendsTo env (env.snapshot.incompatibleScriptPubKeys.getD claim.getSource []) claim.getTarget
      claim.m_claim.dummyTx := by
  unfold verifyDummyTx at h
  dsimp only at h
  split at h
  · next input hvin =>
    split at h
    · next out hvout =>
      split_ifs at h with hrange htarget
      split at h
      · cases h
      · next outpoint coin hfound =>
        split_ifs at h with hnull hvalue hscript
        have hmem := List.mem_of_find?_eq_some hfound
        have hprevout := List.find?_some hfound
        rw [beq_iff_eq] at hprevout
        subst hprevout
        rw [not_or, not_not, not_not] at htarget
        refine ⟨input, out, coin, hvin, hvout, hmem, htarget.2, ?_, by simpa using hscript⟩
        exact (not_not.mp hvalue).symm
    · cases h
  · cases h

/-- A claim that is valid on a node is authorised. -/
theorem authorised_of_isValid (hbuilt : claim.Built env) (hvalid : (claim.isValid env).2 = .OK) :
    Authorised env claim.m_claim := by
  obtain ⟨hfields, hproof, helectrum, -⟩ := hbuilt.isValid_iff.mp hvalid
  have hinit := Claim.m_init_of_checkFields hfields
  have hworth := hbuilt.worth hinit
  obtain ⟨hsource, hbitcoin, htarget⟩ := hbuilt.addresses hinit
  obtain ⟨hcompatible, htext⟩ := hbuilt.texts hinit
  have hclass := hworth.m_is_btc_eq
  unfold inSnapshot at hclass
  rw [htext, hbitcoin, htarget, hclass] at helectrum
  unfold Claim.checkSnapshotProof at hproof
  rw [hcompatible, hclass, hsource, htarget, htext] at hproof
  unfold Authorised
  unfold Env.signatureString at hproof helectrum
  by_cases hsigns : env.snapshot.scriptPubKeys.contains claim.m_claim.source = true
  · rw [if_pos hsigns]
    simpa [hsigns] using hproof
  · rw [if_neg hsigns]
    by_cases hspends : env.snapshot.incompatibleScriptPubKeys.contains claim.m_claim.source = true
    · rw [if_pos hspends]
      have hverified : claim.verifyDummyTx env = .OK := by simpa [hsigns, hspends] using hproof
      have hpays := spendsTo_of_verifyDummyTx hverified
      rwa [hworth.getSource_eq] at hpays
    · rw [if_neg hspends]
      intro hlookup
      simpa [hsigns, hspends] using helectrum (by simp [hsigns, hspends]) hlookup

namespace SmallNet

theorem authorised_snapshot_claim :
    Authorised (node false true) (mkClaim (payToKeyHash 1) (payToKeyHash 3)) := by
  have hclaim := @Claim.m_claim_ofCClaim (node false true)
    (mkClaim (payToKeyHash 1) (payToKeyHash 3))
  rw [← hclaim]
  exact authorised_of_isValid (Claim.built_ofCClaim _) (by decide +kernel)

/-- A node without the lookup, where Electrum would accept no signature. -/
def trustingNode : Env :=
  (node false false).withOptions { (node false false).options with electrumVerify _ _ _ := false }

/-- The claim on a Bitcoin source is valid there, although its signature does not verify. -/
theorem trustingNode_accepts : inSnapshot trustingNode (payToKeyHash 2) = false ∧
      ((Claim.ofCClaim trustingNode (mkClaim (payToKeyHash 2) (payToKeyHash 3))).isValid
        trustingNode).2 = .OK ∧
      ∀ address signature message,
        trustingNode.options.electrumVerify address signature message = false :=
  ⟨by decide +kernel, by decide +kernel, fun _ _ _ => rfl⟩

end SmallNet

end Patchcoin
