import Patchcoin.Chain.Connect

/-!
# The claims of a node and their writers

Besides the consensus code, five places write to `g_claims`: the handler of a
`CLAIM` message, the command `queueclaim`, the claim sets of the genesis key
holder, the startup of the node and two lookups by `operator[]`.  The first three
also write to the claim index, from which the startup rebuilds the map.

A claim that arrives as addresses and a signature text is put together from their
scripts.  Whether a write to the database succeeds is an argument.
-/

namespace Patchcoin

/-- The claims of a node: the map, the database, and when a source was last seen in a
message. -/
structure ClaimStore where
  g_claims : ClaimPool
  g_claimindex : Std.ExtTreeMap CScript ClaimRecord compare
  claims_seen : Std.ExtTreeMap CScript ℤ compare

/-- The text formats of signatures, and `GetAdjustedTime`, which the default transaction
reads. -/
structure Texts where
  decodeBase64 : String → Option (List UInt8)
  decodeHexTx : String → Option CTransaction
  adjustedTime : UInt32

/-- The default constructor `CMutableTransaction()`. -/
def Texts.defaultTx (texts : Texts) : CTransaction := ⟨[], [], 3, texts.adjustedTime, 0⟩

/-- The default constructor `Claim()`. -/
def Claim.null (texts : Texts) : Claim :=
  { m_claim := { source := ⟨[]⟩, target := ⟨[]⟩, signature := [], dummyTx := texts.defaultTx } }

section

variable (env : Env) (texts : Texts)

/-- The constructor of a claim from its addresses and the text of its signature. -/
def Claim.ofStrings (source_address target_address signature_string : String) : Claim :=
  let is_ptc := isValidDestination (env.host.decodeDestination source_address)
  let is_btc := isValidDestination (env.host.decodeDestination_BTC source_address)
  if !(is_ptc || is_btc) then Claim.null texts
  else
    let destination := if is_ptc then env.host.decodeDestination source_address
      else env.host.decodeDestination_BTC source_address
    let source := if is_ptc then env.getScriptFromAddress source_address
      else env.getScriptFromBtcAddress source_address
    let target := env.getScriptFromAddress target_address
    let is_pkhash := match destination with
      | .PKHash _ => true
      | _ => false
    if is_btc || is_pkhash then
      Claim.ofCClaim env { source, target, dummyTx := texts.defaultTx
                           signature := (texts.decodeBase64 signature_string).getD [] }
    else
      match texts.decodeHexTx signature_string with
      | none => Claim.null texts
      | some mtx => Claim.ofCClaim env { source, target, signature := [], dummyTx := mtx }

/-- The claim that another claim's addresses and signature text describe. -/
def Claim.rebuilt (claim : Claim) : Claim :=
  Claim.ofStrings env texts
    (if claim.m_is_btc then claim.m_bitcoin_source_address else claim.m_source_address)
    claim.m_target_address claim.m_signature_string

/-! ## The database -/

/-- A claim as it is read from disk. -/
def Claim.ofRecord (record : ClaimRecord) : Claim :=
  { Claim.ofCClaim env record.m_claim with
    nTime := record.nTime
    m_seen := record.m_seen
    nTotalReceived := record.nTotalReceived }

/-- `ClaimIndex::AddClaim`, with whether the write succeeds. -/
def ClaimStore.addClaim (store : ClaimStore) (claim : Claim) (written : Bool) : ClaimStore :=
  if written then
    { store with g_claimindex := store.g_claimindex.insert claim.getSource claim.toRecord }
  else store

/-! ## Single claims -/

/-- The common end of the handler of `CLAIM` and of `queueclaim`: a claim with a new source
gets the current time, and is inserted and stored. -/
def ClaimStore.register (now : ℤ) (written : Bool) (claim : Claim) (store : ClaimStore) :
    ClaimStore :=
  if !store.g_claims.isUniqueSource claim then store
  else
    let inserted := store.g_claims.insertClaim env { claim with nTime := now }
    let store := { store with g_claims := inserted.1 }
    if inserted.2.2 then store.addClaim inserted.2.1 written else store

/-- The handler of a `CLAIM` message.  A source is looked at once in ninety seconds. -/
def ClaimStore.processClaim (now : ℤ) (written : Bool) (message : CClaim) (store : ClaimStore) :
    ClaimStore :=
  let dummy := Claim.ofCClaim env message
  if !Claim.snapshotIsValid env then store
  else if dummy.m_is_btc then store
  else if (dummy.isValid env).2 ≠ .OK then store
  else if now - store.claims_seen.getD dummy.getSource 0 < 90 then store
  else
    let store := { store with claims_seen := store.claims_seen.insert dummy.getSource now }
    let claim := dummy.rebuilt env texts
    if claim.m_is_btc then store
    else if (claim.isValid env).2 ≠ .OK then store
    else store.register env now written (claim.isValid env).1

/-- The command `queueclaim`: the address has a balance and has signed the message. -/
def ClaimStore.queueclaim (now : ℤ) (written : Bool)
    (strAddress strSign strMessage : String) (store : ClaimStore) : ClaimStore :=
  let balance := match env.options.lookup with
    | some getBalance => getBalance strAddress
    | none => 0
  if balance = 0 then store
  else if env.options.electrumVerify strAddress strSign strMessage && decide (0 < balance) then
    store.register env now written (Claim.ofStrings env texts strAddress strMessage strSign)
  else store

/-! ## Claim sets -/

/-- A claim of a claim set (`CClaimSetClaim`), as it is read from the message. -/
structure CClaimSetClaim where
  m_claim : CClaim
  nTime : ℤ
  deriving DecidableEq, Repr

def CClaimSetClaim.toClaim (cClaim : CClaimSetClaim) : Claim :=
  { Claim.ofCClaim env cClaim.m_claim with nTime := cClaim.nTime }

/-- The claim that `ApplyClaimSet` puts together from a claim of the set. -/
def CClaimSetClaim.rebuilt (cClaim : CClaimSetClaim) : Claim :=
  { (cClaim.toClaim env).rebuilt env texts with nTime := cClaim.nTime }

/-- The branch of `ApplyClaimSet` for a new source: the store, and whether the loop goes
on. -/
def ClaimStore.applyNew (written : Bool) (claim : Claim) (store : ClaimStore) : ClaimStore × Bool :=
  let inserted := store.g_claims.insertClaim env { claim with m_seen := true }
  let store := { store with g_claims := inserted.1 }
  if inserted.2.2 then (store.addClaim inserted.2.1 written, written) else (store, false)

/-- The branch of `ApplyClaimSet` for a source that is in the map already. -/
def ClaimStore.applyKnown (written : Bool) (claim entry : Claim) (store : ClaimStore) :
    ClaimStore × Bool :=
  if entry.m_seen then (store, true)
  else
    let seen : Claim := { entry with m_seen := true, nTime := claim.nTime }
    let store := { store with g_claims := store.g_claims.insert claim.getSource seen }
    match store.g_claimindex[claim.getSource]? with
    | none => (store, false)
    | some record =>
      let claim_t : Claim := { Claim.ofRecord env record with nTime := claim.nTime, m_seen := true }
      (store.addClaim claim_t written, written)

/-- The body of the loop of `ApplyClaimSet`: the store, and whether the loop goes on. -/
def ClaimStore.applyClaim (written : Bool) (cClaim : CClaimSetClaim) (store : ClaimStore) :
    ClaimStore × Bool :=
  if ((cClaim.toClaim env).isValid env).2 ≠ .OK then (store, false)
  else if ((cClaim.rebuilt env texts).isValid env).2 ≠ .OK then (store, false)
  else
    let claim := ((cClaim.rebuilt env texts).isValid env).1
    match store.g_claims[claim.getSource]? with
    | none => store.applyNew env written claim
    | some entry => store.applyKnown env written claim entry

/-- `ApplyClaimSet`, with whether the write for each claim succeeds. -/
def ClaimStore.applyClaimSet : List (CClaimSetClaim × Bool) → ClaimStore → ClaimStore
  | [], store => store
  | (cClaim, written) :: rest, store =>
    let applied := store.applyClaim env texts written cClaim
    if applied.2 then applyClaimSet rest applied.1 else applied.1

/-! ## Startup -/

/-- `Claim::Insert(pindex)`: the total is counted along the chain first. -/
def ClaimPool.insertAt (tip : IndexChain) (pool : ClaimPool) (claim : Claim) :
    ClaimPool × Claim × Bool :=
  pool.insertClaim env
    { claim with nTotalReceived := (claim.getTotalReceived env tip 0 0).2.1 }

/-- The loop of `AppInitMain` over the claims of the database: the map, and whether the node
goes on. -/
def ClaimPool.loadClaims (tip : IndexChain) : List ClaimRecord → ClaimPool → ClaimPool × Bool
  | [], pool => (pool, true)
  | record :: rest, pool =>
    let inserted := pool.insertAt env tip (Claim.ofRecord env record)
    if inserted.2.2 then loadClaims tip rest inserted.1 else (inserted.1, false)

/-! ## Lookups -/

/-- Lookups of keys by `g_claims[key]`, which puts a null claim where there is none. -/
def ClaimPool.lookups (pool : ClaimPool) (keys : List CScript) : ClaimPool :=
  keys.foldl (fun pool key => pool.insertIfNew key (Claim.null texts)) pool

/-- What `blockToJSON` does to the map. -/
def ClaimPool.blockToJSON (block : CBlock) (pool : ClaimPool) : ClaimPool :=
  pool.lookups texts (block.vClaim.map CClaim.source)

/-- What `CBlockIndex::GetClaims` does to the map. -/
def ClaimPool.getClaims (pindex : CBlockIndex) (pool : ClaimPool) : ClaimPool :=
  pool.lookups texts pindex.nClaims.keys

end

end Patchcoin
