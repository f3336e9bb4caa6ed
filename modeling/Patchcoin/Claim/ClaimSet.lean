import Patchcoin.Claim.Learn

/-!
# Claim sets

The holder of the genesis key tells the other nodes about claims in signed sets
(`CClaimSet`).  An entry of a set is not the claim itself.  `AddClaim` puts it
together from the addresses and the signature text of the claim, and
`ApplyClaimSet` does the same again with the entry at the other end.

A claim gets through if the addresses give its scripts back (`Claim.Sendable`).
Then both reconstructions have its source and its target, whatever the receiving
node has enabled (`scripts_rebuilt_setClaim`), and a node that goes through the
whole set has an entry for each of its sources.  An entry that the node had before
stays, even one with another target (`targetAt_applyClaimSet`).
-/

namespace Patchcoin

open PrefixCode ClaimPool Claim ClaimStore

/-- Another node of the network. -/
def Env.withOptions (env : Env) (options : Options) : Env := { env with options }

/-- `CClaimSet`. -/
structure CClaimSet where
  claims : List CClaimSetClaim := []
  nTime : ℤ
  vchSig : List UInt8 := []
  fChecked : Bool := false
  deriving DecidableEq, Repr

/-- `CClaimSet::MAX_CLAIMS_COUNT`. -/
def MAX_CLAIMS_COUNT : ℕ := 2500

def serSetClaim (cClaim : CClaimSetClaim) : List UInt8 :=
  serClaim cClaim.m_claim ++ serInt64 (Int64.ofInt cClaim.nTime)

section

variable (env : Env) (texts : Texts)

/-- The entry of a set for a claim: the claim that its texts describe, with its time. -/
def Claim.setClaim (claim : Claim) : CClaimSetClaim :=
  ⟨(claim.rebuilt env texts).m_claim, claim.nTime⟩

namespace CClaimSet

/-- The hash that is signed: everything but the signature. -/
def getHash (set : CClaimSet) : Uint256 :=
  env.host.hash256 (lengthPrefixed serSetClaim set.claims ++ serInt64 (Int64.ofInt set.nTime))

/-- `AddClaim`: `none` where it returns false. -/
def addClaim (set : CClaimSet) (claim : Claim) : Option CClaimSet :=
  let claimSetClaim : Claim := { claim.rebuilt env texts with nTime := claim.nTime }
  if (claimSetClaim.isValid env).2 ≠ .OK then none
  else if set.claims.any fun claim_new => claim.getSource == (claim_new.toClaim env).getSource then
    none
  else some { set with claims := set.claims ++ [claim.setClaim env texts] }

/-- The loop of `ThreadCsPub` over the new claims. -/
def addNewClaims : List Claim → CClaimSet → Option CClaimSet
  | [], set => some set
  | claim :: rest, set => (set.addClaim env texts claim).bind (addNewClaims rest)

/-- The genesis key has signed the hash. -/
def signatureAccepted (hash : Uint256) (vchSig : List UInt8) : Bool :=
  !vchSig.isEmpty && match solver env.params.genesisPubKey with
    | (.PUBKEY, [vchPubKey]) => env.host.verify vchPubKey hash vchSig
    | _ => false

/-- The loop of `IsValid` over the claims, with the scripts seen before. -/
def claimsValid : List CClaimSetClaim → List CScript → Bool
  | [], _ => true
  | claim :: rest, seenScripts =>
    if (claim.toClaim env).getSource ∈ seenScripts then false
    else if ((claim.toClaim env).isValid env).2 ≠ .OK then false
    else claimsValid rest ((claim.toClaim env).getSource :: seenScripts)

/-- `IsValid`. -/
def isValid (set : CClaimSet) : Bool :=
  if set.fChecked then true
  else if set.claims.isEmpty then false
  else if MAX_CLAIMS_COUNT < set.claims.length then false
  else if !signatureAccepted env (set.getHash env) set.vchSig then false
  else claimsValid env set.claims []

/-- `operator>`, for sets with claims. -/
def newer (set other : CClaimSet) : Bool :=
  decide ((other.claims.head?.map CClaimSetClaim.nTime).getD 0 <
    (set.claims.head?.map CClaimSetClaim.nTime).getD 0)

end CClaimSet

/-! ## Receiving a set -/

/-- What the handler of `CLAIMSET` knows: the claims, the last set taken over, and what was
asked for and received from the peer. -/
structure SetReceiver where
  store : ClaimStore
  send_claimset : CClaimSet
  m_last_claimset_requested_hash : Uint256
  m_last_claimset_received_hash : Uint256
  m_last_claimset_received_timestamp : ℤ

/-- The claims of a set with the results of their writes. -/
def CClaimSet.writes (set : CClaimSet) (written : CClaimSetClaim → Bool) :
    List (CClaimSetClaim × Bool) :=
  set.claims.map fun cClaim => (cClaim, written cClaim)

/-- The handler of a `CLAIMSET` message. -/
def SetReceiver.processClaimSet (written : CClaimSetClaim → Bool) (claimSet : CClaimSet)
    (receiver : SetReceiver) : SetReceiver :=
  if env.options.genesis_key_held ||
      env.snapshot.hashScripts != env.params.hashPeercoinSnapshot then receiver
  else if !claimSet.isValid env then receiver
  else if receiver.m_last_claimset_requested_hash ≠ claimSet.getHash env then receiver
  else if receiver.m_last_claimset_received_hash = claimSet.getHash env then receiver
  else
    let receiver := { receiver with m_last_claimset_received_hash := claimSet.getHash env }
    if claimSet.nTime ≤ receiver.m_last_claimset_received_timestamp then receiver
    else
      let receiver := { receiver with m_last_claimset_received_timestamp := claimSet.nTime }
      if receiver.send_claimset.claims.isEmpty || claimSet.newer receiver.send_claimset then
        { receiver with
          send_claimset := claimSet
          store := receiver.store.applyClaimSet env texts (claimSet.writes written) }
      else receiver

/-- The handler gets to `ApplyClaimSet`. -/
def SetReceiver.takes (receiver : SetReceiver) (claimSet : CClaimSet) : Bool :=
  !env.options.genesis_key_held &&
    env.snapshot.hashScripts == env.params.hashPeercoinSnapshot && claimSet.isValid env &&
    receiver.m_last_claimset_requested_hash == claimSet.getHash env &&
    receiver.m_last_claimset_received_hash != claimSet.getHash env &&
    decide (receiver.m_last_claimset_received_timestamp < claimSet.nTime) &&
    (receiver.send_claimset.claims.isEmpty || claimSet.newer receiver.send_claimset)

/-- `ApplyClaimSet` gets to its end. -/
def ClaimStore.appliesAll : List (CClaimSetClaim × Bool) → ClaimStore → Bool
  | [], _ => true
  | (cClaim, written) :: rest, store =>
    (store.applyClaim env texts written cClaim).2 &&
      appliesAll rest (store.applyClaim env texts written cClaim).1

/-- The node takes the set over and goes through all of it. -/
def SetReceiver.Applies (receiver : SetReceiver) (written : CClaimSetClaim → Bool)
    (claimSet : CClaimSet) : Prop :=
  receiver.takes env claimSet = true ∧
    receiver.store.appliesAll env texts (claimSet.writes written) = true

end

variable {env : Env} {texts : Texts} {claim : Claim} {source : CScript}
variable {set set' : CClaimSet} {claims : List Claim}

theorem store_processClaimSet {receiver : SetReceiver} {written : CClaimSetClaim → Bool}
    {claimSet : CClaimSet} (htakes : receiver.takes env claimSet = true) :
    (receiver.processClaimSet env texts written claimSet).store =
      receiver.store.applyClaimSet env texts (claimSet.writes written) := by
  simp only [SetReceiver.takes, Bool.and_eq_true, Bool.not_eq_true', beq_iff_eq, bne_iff_ne,
    decide_eq_true_eq] at htakes
  obtain ⟨⟨⟨⟨⟨⟨hheld, hsnapshot⟩, hvalid⟩, hrequested⟩, hreceived⟩, htime⟩, hnewer⟩ := htakes
  unfold SetReceiver.processClaimSet
  rw [if_neg (by simp [hheld, hsnapshot]), if_neg (by simp [hvalid]),
    if_neg (not_not.mpr hrequested), if_neg hreceived]
  rw [if_neg (not_le.mpr htime), if_pos hnewer]

/-! ## What the texts keep of a claim -/

/-- The address under which a claim on the source is sent. -/
def Env.claimAddress (env : Env) (source : CScript) : String :=
  if inSnapshot env source then env.getAddressFromScript source
  else env.getBtcAddressFromScript source

theorem addresses_classify (claim : Claim) :
    (claim.classify env).m_source_address = claim.m_source_address ∧
      (claim.classify env).m_bitcoin_source_address = claim.m_bitcoin_source_address ∧
      (claim.classify env).m_target_address = claim.m_target_address := by
  unfold classify
  split
  · exact ⟨rfl, rfl, rfl⟩
  · split <;> exact ⟨rfl, rfl, rfl⟩

theorem Claim.Built.addresses (h : claim.Built env) (hinit : claim.m_init = true) :
    claim.m_source_address = env.getAddressFromScript claim.m_claim.source ∧
      claim.m_bitcoin_source_address = env.getBtcAddressFromScript claim.m_claim.source ∧
      claim.m_target_address = env.getAddressFromScript claim.m_claim.target := by
  have hcore : (ofCClaim env claim.m_claim).m_init = true := by
    rw [← h.core_eq]
    exact hinit
  obtain ⟨-, -, heq⟩ := ofCClaim_of_init hcore
  obtain ⟨hsource, hbitcoin, htarget⟩ :=
    @addresses_classify env (({ m_claim := claim.m_claim } : Claim).setAddresses env)
  rw [← h.core_eq] at heq
  exact ⟨(congrArg m_source_address heq).trans hsource,
    (congrArg m_bitcoin_source_address heq).trans hbitcoin,
    (congrArg m_target_address heq).trans htarget⟩

/-- The scripts of a claim that is put together from the texts of another one. -/
theorem Claim.Built.scripts_rebuilt (h : claim.Built env) (hinit : claim.m_init = true)
    (hrebuilt : (claim.rebuilt env texts).m_init = true) :
    (claim.rebuilt env texts).getSource = env.addressSource (env.claimAddress claim.getSource) ∧
      (claim.rebuilt env texts).getTarget =
        env.getScriptFromAddress (env.getAddressFromScript claim.getTarget) := by
  obtain ⟨hsource, hbitcoin, htarget⟩ := h.addresses hinit
  have hworth := h.worth hinit
  have haddress : (if claim.m_is_btc then claim.m_bitcoin_source_address
      else claim.m_source_address) = env.claimAddress claim.getSource := by
    rw [hworth.m_is_btc_eq, hbitcoin, hsource, hworth.getSource_eq, Env.claimAddress]
    cases inSnapshot env claim.m_claim.source <;> rfl
  have hclaim : claim.rebuilt env texts = ofStrings env texts
      (env.claimAddress claim.getSource) (env.getAddressFromScript claim.getTarget)
      claim.m_signature_string := by
    rw [rebuilt, haddress, htarget]
    rfl
  rw [hclaim] at hrebuilt ⊢
  obtain ⟨hbuilt, -⟩ := built_ofStrings rfl hrebuilt
  obtain ⟨hsource', htarget', -⟩ := ofStrings_of_init rfl hrebuilt
  exact ⟨(hbuilt.worth hrebuilt).getSource_eq.trans hsource', htarget'⟩

/-- The texts of the claim on a source give back a valid claim with the same scripts. -/
structure Claim.Sendable (env : Env) (texts : Texts) (source : CScript) (claim : Claim) : Prop where
  valid : ((claim.rebuilt env texts).isValid env).2 = .OK
  source_eq : (claim.rebuilt env texts).getSource = source
  target_eq : (claim.rebuilt env texts).getTarget = claim.getTarget

/-- The entry of the set, read as a claim, is the claim that was put together. -/
theorem toClaim_setClaim (hrebuilt : (claim.rebuilt env texts).m_init = true) :
    (claim.setClaim env texts).toClaim env =
      { claim.rebuilt env texts with nTime := claim.nTime } := by
  have hscripts : ofCClaim env (claim.rebuilt env texts).m_claim = claim.rebuilt env texts :=
    (ofStrings_of_init rfl hrebuilt).2.2
  unfold CClaimSetClaim.toClaim setClaim
  rw [hscripts]

theorem Claim.Sendable.m_init (h : claim.Sendable env texts source) :
    (claim.rebuilt env texts).m_init = true := m_init_of_isValid h.valid

/-- The scripts of the entry that a sendable claim has in the set. -/
theorem Claim.Sendable.scripts_setClaim (h : claim.Sendable env texts source) :
    (claim.setClaim env texts).m_claim.source = source ∧
      (claim.setClaim env texts).m_claim.target = claim.getTarget := by
  obtain ⟨hbuilt, -⟩ := built_ofStrings rfl h.m_init
  exact ⟨(hbuilt.worth h.m_init).getSource_eq.symm.trans h.source_eq, h.target_eq⟩

/-- Every node that accepts the entry of a sendable claim puts a claim with the same scripts
together, whatever it has enabled. -/
theorem scripts_rebuilt_setClaim {options : Options} {texts' : Texts} (h : claim.Built env)
    (hinit : claim.m_init = true) (hsource : claim.getSource = source)
    (hsend : claim.Sendable env texts source)
    (hvalid : (((claim.setClaim env texts).toClaim (env.withOptions options)).isValid
      (env.withOptions options)).2 = .OK)
    (hvalid' : (((claim.setClaim env texts).rebuilt (env.withOptions options) texts').isValid
      (env.withOptions options)).2 = .OK) :
    ((claim.setClaim env texts).rebuilt (env.withOptions options) texts').getSource = source ∧
      ((claim.setClaim env texts).rebuilt (env.withOptions options) texts').getTarget =
        claim.getTarget := by
  let env' : Env := env.withOptions options
  let received : Claim := (claim.setClaim env texts).toClaim env'
  obtain ⟨hsource', htarget'⟩ := hsend.scripts_setClaim
  have hbuilt : received.Built env' := (built_ofCClaim _).setTime _
  have hreceived : received.m_init = true := m_init_of_isValid hvalid
  have hrebuilt : ((claim.setClaim env texts).rebuilt env' texts').m_init = true :=
    m_init_of_isValid hvalid'
  have hclaim : received.m_claim = (claim.setClaim env texts).m_claim := m_claim_ofCClaim _
  have hgetSource : received.getSource = claim.getSource := by
    rw [(hbuilt.worth hreceived).getSource_eq, hclaim, hsource', hsource]
  have hgetTarget : received.getTarget = claim.getTarget := by
    rw [getTarget, hclaim, htarget']
  -- the addresses are the same as at the sender, and so is what is read off them
  obtain ⟨hsourceHere, htargetHere⟩ := h.scripts_rebuilt hinit hsend.m_init
  obtain ⟨hsourceThere, htargetThere⟩ := hbuilt.scripts_rebuilt hreceived hrebuilt
  rw [hgetSource] at hsourceThere
  rw [hgetTarget] at htargetThere
  exact ⟨hsourceThere.trans (hsourceHere.symm.trans hsend.source_eq),
    htargetThere.trans (htargetHere.symm.trans hsend.target_eq)⟩

/-! ## Building a set -/

/-- The verdict on a claim does not depend on its time. -/
theorem Claim.isValid_setTime (claim : Claim) (nTime : ℤ) :
    (({ claim with nTime } : Claim).isValid env).2 = (claim.isValid env).2 := by
  have hask : ({ claim with nTime } : Claim).askElectrum env =
      { claim.askElectrum env with nTime } := by
    unfold askElectrum
    split_ifs <;> rfl
  have hrefused : ({ claim with nTime } : Claim).refused env = claim.refused env := by
    unfold refused
    rw [hask]
  unfold isValid
  simp only [apply_ite Prod.snd]
  rw [hask, hrefused]
  rfl

theorem addClaim_eq_some_iff : set.addClaim env texts claim = some set' ↔
      ((claim.rebuilt env texts).isValid env).2 = .OK ∧
        (∀ cClaim ∈ set.claims, claim.getSource ≠ (cClaim.toClaim env).getSource) ∧
        { set with claims := set.claims ++ [claim.setClaim env texts] } = set' := by
  have htime := @isValid_setTime env (claim.rebuilt env texts) claim.nTime
  unfold CClaimSet.addClaim
  dsimp only
  rw [htime]
  split_ifs with hvalid hany
  · exact iff_of_false (by simp) fun h => hvalid h.1
  · refine iff_of_false (by simp) fun h => ?_
    obtain ⟨cClaim, hmem, hsame⟩ := List.any_eq_true.mp hany
    exact h.2.1 cClaim hmem (beq_iff_eq.mp hsame)
  · rw [Option.some.injEq]
    have hother (cClaim : CClaimSetClaim) (hmem : cClaim ∈ set.claims) :
        claim.getSource ≠ (cClaim.toClaim env).getSource := fun hsame =>
      hany (List.any_eq_true.mpr ⟨cClaim, hmem, beq_iff_eq.mpr hsame⟩)
    exact ⟨fun h => ⟨not_not.mp hvalid, hother, h⟩, fun h => h.2.2⟩

/-- The loop adds an entry for each claim, if it gets to its end. -/
theorem addNewClaims_eq_some (h : set.addNewClaims env texts claims = some set') :
    set' = { set with claims := set.claims ++ claims.map (setClaim env texts) } := by
  induction claims generalizing set with
  | nil =>
    rw [CClaimSet.addNewClaims, Option.some.injEq] at h
    rw [← h, List.map_nil, List.append_nil]
  | cons claim rest ih =>
    rw [CClaimSet.addNewClaims, Option.bind_eq_some_iff] at h
    obtain ⟨added, hadded, hrest⟩ := h
    obtain ⟨-, -, rfl⟩ := addClaim_eq_some_iff.mp hadded
    rw [ih hrest, List.map_cons, List.append_assoc, List.singleton_append]

theorem Claim.Sendable.getSource_toClaim (h : claim.Sendable env texts source) :
    ((claim.setClaim env texts).toClaim env).getSource = source := by
  rw [toClaim_setClaim h.m_init]
  exact h.source_eq

/-- Sendable claims on different sources all get into the set. -/
theorem addNewClaims_of_sendable {claims : List Claim} {set : CClaimSet}
    (hsend : ∀ claim ∈ claims, claim.Sendable env texts claim.getSource)
    (hdistinct : (claims.map getSource).Nodup)
    (hset : ∀ cClaim ∈ set.claims, ∀ claim ∈ claims,
      claim.getSource ≠ (cClaim.toClaim env).getSource) :
    set.addNewClaims env texts claims =
      some { set with claims := set.claims ++ claims.map (setClaim env texts) } := by
  induction claims generalizing set with
  | nil => rw [CClaimSet.addNewClaims, List.map_nil, List.append_nil]
  | cons claim rest ih =>
    rw [List.map_cons, List.nodup_cons] at hdistinct
    have hfirst := hsend claim List.mem_cons_self
    have hadded := addClaim_eq_some_iff.mpr ⟨hfirst.valid,
      fun cClaim hmem => hset cClaim hmem claim List.mem_cons_self, rfl⟩
    rw [CClaimSet.addNewClaims, hadded, Option.bind_some, ih, List.append_assoc,
      List.singleton_append, List.map_cons]
    · exact fun claim hmem => hsend claim (.tail _ hmem)
    · exact hdistinct.2
    · intro cClaim hmem other hother
      rcases List.mem_append.mp hmem with hold | hnew
      · exact hset cClaim hold other (.tail _ hother)
      · rw [List.mem_singleton.mp hnew, hfirst.getSource_toClaim]
        intro hsame
        exact hdistinct.1 (hsame ▸ List.mem_map_of_mem hother)

theorem claimsValid_iff {claims : List CClaimSetClaim} {seenScripts : List CScript} :
    CClaimSet.claimsValid env claims seenScripts = true ↔
      (∀ cClaim ∈ claims, ((cClaim.toClaim env).isValid env).2 = .OK) ∧
        (claims.map fun cClaim => (cClaim.toClaim env).getSource).Nodup ∧
        ∀ cClaim ∈ claims, (cClaim.toClaim env).getSource ∉ seenScripts := by
  induction claims generalizing seenScripts with
  | nil => simp [CClaimSet.claimsValid]
  | cons claim rest ih =>
    rw [CClaimSet.claimsValid]
    simp only [List.forall_mem_cons, List.map_cons, List.nodup_cons, List.mem_map, not_exists,
      not_and]
    split_ifs with hseen hvalid
    · exact iff_of_false (by simp) fun h => h.2.2.1 hseen
    · exact iff_of_false (by simp) fun h => hvalid h.1.1
    · rw [ih]
      simp only [List.mem_cons, not_or]
      constructor
      · rintro ⟨hrest, hnodup, hnew⟩
        exact ⟨⟨not_not.mp hvalid, hrest⟩, ⟨fun cClaim hmem => (hnew cClaim hmem).1, hnodup⟩,
          hseen, fun cClaim hmem => (hnew cClaim hmem).2⟩
      · rintro ⟨⟨-, hrest⟩, ⟨hnew, hnodup⟩, -, hold⟩
        exact ⟨hrest, hnodup, fun cClaim hmem => ⟨hnew cClaim hmem, hold cClaim hmem⟩⟩

theorem CClaimSet.isValid_iff (hchecked : set.fChecked = false) :
    set.isValid env = true ↔ set.claims ≠ [] ∧ set.claims.length ≤ MAX_CLAIMS_COUNT ∧
      signatureAccepted env (set.getHash env) set.vchSig = true ∧
      claimsValid env set.claims [] = true := by
  unfold isValid
  rw [hchecked, if_neg Bool.false_ne_true]
  split_ifs with hempty hcount hsigned
  · exact iff_of_false (by simp) fun h => h.1 (List.isEmpty_iff.mp hempty)
  · exact iff_of_false (by simp) fun h => absurd h.2.1 (not_le.mpr hcount)
  · refine iff_of_false (by simp) fun h => ?_
    rw [h.2.2.1] at hsigned
    cases hsigned
  · have hnonempty : set.claims ≠ [] := fun h => hempty (List.isEmpty_iff.mpr h)
    rw [Bool.not_eq_true', Bool.not_eq_false] at hsigned
    exact ⟨fun h => ⟨hnonempty, not_lt.mp hcount, hsigned, h⟩, fun h => h.2.2.2⟩

/-- A signed set of sendable claims on different sources is valid, unless it is empty or too
large. -/
theorem isValid_of_sendable (hset : set.claims = claims.map (setClaim env texts))
    (hchecked : set.fChecked = false)
    (hsigned : CClaimSet.signatureAccepted env (set.getHash env) set.vchSig = true)
    (hsend : ∀ claim ∈ claims, claim.Sendable env texts claim.getSource)
    (hdistinct : (claims.map getSource).Nodup) (hne : claims ≠ [])
    (hcount : claims.length ≤ MAX_CLAIMS_COUNT) : set.isValid env = true := by
  rw [CClaimSet.isValid_iff hchecked, hset, claimsValid_iff]
  refine ⟨by simpa using hne, by rw [List.length_map]; exact hcount, hsigned, ?_, ?_, by simp⟩
  · intro cClaim hmem
    obtain ⟨claim, hclaim, rfl⟩ := List.mem_map.mp hmem
    rw [toClaim_setClaim (hsend claim hclaim).m_init, isValid_setTime]
    exact (hsend claim hclaim).valid
  · rw [List.map_map]
    have hsources : claims.map ((fun cClaim => (cClaim.toClaim env).getSource) ∘
        setClaim env texts) = claims.map getSource :=
      List.map_congr_left fun claim hclaim => (hsend claim hclaim).getSource_toClaim
    rw [hsources]
    exact hdistinct

/-! ## Applying a set -/

/-- The target of the claim on a source. -/
def ClaimPool.targetAt (pool : ClaimPool) (source : CScript) : Option CScript :=
  pool[source]?.map Claim.getTarget

section Apply

variable {store : ClaimStore} {cClaim : CClaimSetClaim} {written : Bool}

theorem targetAt_insert (pool : ClaimPool) (key source : CScript) (claim : Claim) :
    targetAt (pool.insert key claim) source =
      if key = source then some claim.getTarget else pool.targetAt source := by
  unfold targetAt
  rw [Std.ExtTreeMap.getElem?_insert]
  simp only [Std.LawfulEqCmp.compare_eq_iff_eq]
  split_ifs <;> rfl

/-- A source without a claim gets the new one. -/
theorem targetAt_applyNew (hgoes : (store.applyNew env written claim).2 = true)
    (source : CScript) : (store.applyNew env written claim).1.g_claims.targetAt source =
      if claim.getSource = source then some claim.getTarget
      else store.g_claims.targetAt source := by
  unfold applyNew at hgoes ⊢
  rcases insertClaim_cases env store.g_claims { claim with m_seen := true } with
    ⟨-, -, hinsert⟩ | ⟨-, hrefused⟩
  · rw [hinsert, if_pos rfl, g_claims_addClaim, targetAt_insert, getTarget_isValid]
    rfl
  · rw [hrefused, if_neg Bool.false_ne_true] at hgoes
    cases hgoes

/-- A source with a claim keeps its target. -/
theorem targetAt_applyKnown {entry : Claim} (hentry : store.g_claims[claim.getSource]? = some entry)
    (source : CScript) : (store.applyKnown env written claim entry).1.g_claims.targetAt source =
      store.g_claims.targetAt source := by
  have hseen : targetAt (store.g_claims.insert claim.getSource
      { entry with m_seen := true, nTime := claim.nTime }) source =
      store.g_claims.targetAt source := by
    rw [targetAt_insert]
    split_ifs with hsame
    · rw [← hsame, targetAt, hentry]
      rfl
    · rfl
  unfold applyKnown
  split_ifs
  · rfl
  · dsimp only
    split
    · exact hseen
    · rw [g_claims_addClaim]
      exact hseen

/-- A step of `ApplyClaimSet` after which the loop goes on. -/
theorem targetAt_applyClaim (hgoes : (store.applyClaim env texts written cClaim).2 = true) :
    ((cClaim.toClaim env).isValid env).2 = .OK ∧
      ((cClaim.rebuilt env texts).isValid env).2 = .OK ∧
      ∀ source, (store.applyClaim env texts written cClaim).1.g_claims.targetAt source =
        (store.g_claims.targetAt source).or
          (if (cClaim.rebuilt env texts).getSource = source
            then some (cClaim.rebuilt env texts).getTarget else none) := by
  unfold applyClaim at hgoes ⊢
  dsimp only at hgoes ⊢
  split_ifs at hgoes ⊢ with hvalid hvalid'
  refine ⟨not_not.mp hvalid, not_not.mp hvalid', fun source => ?_⟩
  rw [getSource_isValid] at hgoes ⊢
  cases hentry : store.g_claims[(cClaim.rebuilt env texts).getSource]? with
  | none =>
    rw [hentry] at hgoes
    rw [targetAt_applyNew hgoes, getSource_isValid, getTarget_isValid]
    split_ifs with hsame
    · rw [← hsame, targetAt, hentry]
      rfl
    · rw [Option.or_none]
  | some entry =>
    rw [targetAt_applyKnown (by rw [getSource_isValid]; exact hentry)]
    split_ifs with hsame
    · rw [← hsame, targetAt, hentry]
      rfl
    · rw [Option.or_none]

/-- A node that goes through a whole set keeps the targets it has.  A source without a claim
gets the first one that the set has for it. -/
theorem targetAt_applyClaimSet {claims : List (CClaimSetClaim × Bool)}
    (hall : store.appliesAll env texts claims = true) :
    (∀ entry ∈ claims, ((entry.1.toClaim env).isValid env).2 = .OK ∧
        ((entry.1.rebuilt env texts).isValid env).2 = .OK) ∧
      ∀ source, (store.applyClaimSet env texts claims).g_claims.targetAt source =
        (store.g_claims.targetAt source).or
          ((claims.find? fun entry => (entry.1.rebuilt env texts).getSource == source).map
            fun entry => (entry.1.rebuilt env texts).getTarget) := by
  induction claims generalizing store with
  | nil => exact ⟨by simp, fun source => (Option.or_none).symm⟩
  | cons entry rest ih =>
    obtain ⟨cClaim, written⟩ := entry
    rw [appliesAll, Bool.and_eq_true] at hall
    obtain ⟨hvalid, hvalid', hfirst⟩ := targetAt_applyClaim hall.1
    obtain ⟨hvalids, hrest⟩ := ih hall.2
    refine ⟨List.forall_mem_cons.mpr ⟨⟨hvalid, hvalid'⟩, hvalids⟩, fun source => ?_⟩
    rw [applyClaimSet, if_pos hall.1, hrest, hfirst, Option.or_assoc, List.find?_cons]
    congr 1
    split_ifs with hsame
    · rw [Option.some_or]
      dsimp only
      rw [beq_iff_eq.mpr hsame]
      rfl
    · rw [Option.none_or]
      dsimp only
      rw [beq_eq_false_iff_ne.mpr hsame]

end Apply

end Patchcoin
