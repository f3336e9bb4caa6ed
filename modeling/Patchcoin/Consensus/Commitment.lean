import Patchcoin.Consensus.CheckBlockSteps
import Patchcoin.Primitives.Codes

/-!
# What a header commits to

Two blocks with one header that pass the checks have the same transactions,
witness data included.  The Merkle root fixes the transaction ids and with them
the transactions without witness data; these contain the witness commitment,
which fixes the witness ids and the nonce of the coinbase.

The hash is an arbitrary function, so collisions cannot be excluded altogether.
`CollisionFree` excludes them among the strings that are hashed for the two
blocks, and asks that no transaction of one is the input of an inner node of
the tree of the other.

The signature and the claims of a block are fixed by nothing: `CBlock.variant`
replaces them, and `accepted_variant` says what the checks still ask of them.
-/

namespace Patchcoin

open PrefixCode MerkleTree CTransaction List

section Hashing

variable (hash256 : List UInt8 → Uint256)

/-! ## Strings that are hashed -/

/-- The inputs of the inner nodes of the tree over some leaves. -/
def innerStrings (hashes : List Uint256) : List (List UInt8) :=
  (hashedPairs (hashPair hash256) hashes.length hashes).map fun pair =>
    pair.1.toBytes ++ pair.2.toBytes

def transactionIds (block : CBlock) : List Uint256 :=
  block.vtx.map (CTransaction.getHash hash256)

/-- The leaves of the witness tree. -/
def witnessIds (block : CBlock) : List Uint256 :=
  0 :: (block.vtx.drop 1).map (CTransaction.getWitnessHash hash256)

/-- The strings hashed for ids, for the two trees and for the witness commitment. -/
def hashedStrings (block : CBlock) : List (List UInt8) :=
  block.vtx.map (serializeTransaction false) ++ block.vtx.map (serializeTransaction true) ++
    innerStrings hash256 (transactionIds hash256 block) ++
    innerStrings hash256 (witnessIds hash256 block) ++
    (coinbaseWitness block).map fun nonce =>
      (blockWitnessMerkleRoot hash256 block).1.toBytes ++ nonce

/-- No collision occurs between two blocks, and no transaction of one is hashed as an
inner node by the other. -/
structure CollisionFree (block block' : CBlock) : Prop where
  injective : ∀ first ∈ hashedStrings hash256 block, ∀ second ∈ hashedStrings hash256 block',
    hash256 first = hash256 second → first = second
  leaves : ∀ tx ∈ block.vtx,
    serializeTransaction false tx ∉ innerStrings hash256 (transactionIds hash256 block')
  leaves' : ∀ tx ∈ block'.vtx,
    serializeTransaction false tx ∉ innerStrings hash256 (transactionIds hash256 block)

end Hashing

/-! ## Merkle roots -/

section Roots

variable {hash256 : List UInt8 → Uint256} {hashes hashes' : List Uint256}

/-- The tree that `computeMerkleRoot` builds. -/
theorem exists_climbs_of_computeMerkleRoot (hne : hashes ≠ []) :
    ∃ height, Climbs (hashPair hash256) hashes height (computeMerkleRoot hash256 hashes).1 ∧
      ((computeMerkleRoot hash256 hashes).2 = false →
        Clean (hashPair hash256) hashes height) := by
  obtain ⟨height, root, htop, hclimbs, hclean⟩ := @exists_climbs_of_foldLevels _
    (hashPair hash256) _ hashes.length hashes false hne le_rfl
  have hroot : (computeMerkleRoot hash256 hashes).1 = root := by
    show (foldLevels (hashPair hash256) hashes.length hashes false).1.headD 0 = root
    rw [htop]
    rfl
  rw [hroot]
  exact ⟨height, hclimbs, fun hflag => (hclean hflag).2⟩

private theorem mem_innerStrings {height : ℕ} {root a b : Uint256}
    (hclimbs : Climbs (hashPair hash256) hashes height root)
    (h : Hashed (hashPair hash256) hashes height a b) :
    a.toBytes ++ b.toBytes ∈ innerStrings hash256 hashes :=
  mem_map.mpr ⟨(a, b), mem_hashedPairs hclimbs le_rfl h, rfl⟩

section SameRoot

variable (hinj : ∀ first ∈ innerStrings hash256 hashes, ∀ second ∈ innerStrings hash256 hashes',
    hash256 first = hash256 second → first = second)
  (hne : hashes ≠ []) (hne' : hashes' ≠ [])
  (hroot : (computeMerkleRoot hash256 hashes).1 = (computeMerkleRoot hash256 hashes').1)
include hinj hne hne' hroot

/-- Two trees with one root. -/
private theorem exists_trees_of_root_eq : ∃ height height' root,
    Climbs (hashPair hash256) hashes height root ∧
      Climbs (hashPair hash256) hashes' height' root ∧
      InjectiveOn (hashPair hash256) hashes height hashes' height' ∧
      ((computeMerkleRoot hash256 hashes).2 = false → Clean (hashPair hash256) hashes height) ∧
      ((computeMerkleRoot hash256 hashes').2 = false →
        Clean (hashPair hash256) hashes' height') := by
  obtain ⟨height, hclimbs, hflag⟩ := @exists_climbs_of_computeMerkleRoot hash256 _ hne
  obtain ⟨height', hclimbs', hflag'⟩ := @exists_climbs_of_computeMerkleRoot hash256 _ hne'
  rw [← hroot] at hclimbs'
  refine ⟨height, height', _, hclimbs, hclimbs', fun a b c d hab hcd heq => ?_, hflag, hflag'⟩
  have hstring := hinj _ (mem_innerStrings hclimbs hab) _ (mem_innerStrings hclimbs' hcd) heq
  obtain ⟨hleft, hright⟩ := Uint256.toBytes_prefixFree trivial trivial hstring
  exact ⟨hleft, Uint256.toBytes_prefixFree.injOn trivial trivial hright⟩

/-- Two lists with one root and without equal neighbours. -/
theorem leaves_eq_of_root_eq
    (hleaf : ∀ leaf ∈ hashes, ∀ inner ∈ innerStrings hash256 hashes', leaf ≠ hash256 inner)
    (hleaf' : ∀ leaf ∈ hashes', ∀ inner ∈ innerStrings hash256 hashes, leaf ≠ hash256 inner)
    (hclean : (computeMerkleRoot hash256 hashes).2 = false)
    (hclean' : (computeMerkleRoot hash256 hashes').2 = false) : hashes = hashes' := by
  obtain ⟨height, height', root, hclimbs, hclimbs', hpairs, hflag, hflag'⟩ :=
    exists_trees_of_root_eq hinj hne hne' hroot
  obtain rfl : height = height' := by
    refine height_eq_of_root_eq hpairs hclimbs hclimbs' (hflag hclean) (hflag' hclean') ?_ ?_
    · intro leaf hmem a b hab
      exact hleaf leaf hmem _ (mem_innerStrings hclimbs' hab)
    · intro leaf hmem a b hab
      exact hleaf' leaf hmem _ (mem_innerStrings hclimbs hab)
  exact eq_of_root_eq hpairs hclimbs hclimbs' (hflag hclean) (hflag' hclean')

/-- Two lists of one length with one root. -/
theorem leaves_eq_of_root_eq_of_length (hlength : hashes.length = hashes'.length) :
    hashes = hashes' := by
  obtain ⟨height, height', root, hclimbs, hclimbs', hpairs, -⟩ :=
    exists_trees_of_root_eq hinj hne hne' hroot
  obtain rfl : height = height' := by
    rw [hclimbs.height_eq_clog, hclimbs'.height_eq_clog, hlength]
  exact eq_of_root_eq_of_length hpairs hclimbs hclimbs' hlength

end SameRoot

/-- The number of levels above the leaves: each round of the loop halves the list, rounding
up (`Climbs.height_eq_clog`). -/
def merkleLevels (hashes : List Uint256) : ℕ := Nat.clog 2 hashes.length

/-- Lists with trees of one height and with one root are equal if no mutation is reported
for either and no two of the strings that are hashed collide. -/
theorem merkle_mutation_complete (hne : hashes ≠ []) (hne' : hashes' ≠ [])
    (hlevels : merkleLevels hashes = merkleLevels hashes')
    (hinj : ∀ first ∈ innerStrings hash256 hashes, ∀ second ∈ innerStrings hash256 hashes',
      hash256 first = hash256 second → first = second)
    (hclean : (computeMerkleRoot hash256 hashes).2 = false)
    (hclean' : (computeMerkleRoot hash256 hashes').2 = false)
    (hroot : (computeMerkleRoot hash256 hashes).1 = (computeMerkleRoot hash256 hashes').1) :
    hashes = hashes' := by
  obtain ⟨height, height', root, hclimbs, hclimbs', hpairs, hflag, hflag'⟩ :=
    exists_trees_of_root_eq hinj hne hne' hroot
  obtain rfl : height = height' := by
    rw [hclimbs.height_eq_clog, hclimbs'.height_eq_clog]
    exact hlevels
  exact eq_of_root_eq hpairs hclimbs hclimbs' (hflag hclean) (hflag' hclean')

/-- A hash without collisions in the tree over the three leaves below. -/
def weighedHash (bytes : List UInt8) : Uint256 :=
  BitVec.ofNat 256 (ofLeBytes (bytes.take 32) + 3 * ofLeBytes (bytes.drop 32))

theorem merkle_mutation_complete_weighedHash :
    (computeMerkleRoot weighedHash [1, 2, 4]).2 = false ∧ ([1, 2, 4] : List Uint256) = [1, 2, 4] :=
  ⟨by decide +kernel, @merkle_mutation_complete weighedHash _ _ (by decide) (by decide) rfl
    (by decide +kernel) (by decide +kernel) (by decide +kernel) rfl⟩

end Roots

/-! ## Transactions -/

section Bodies

variable {env : Env} {block block' : CBlock}

/-- The transactions were read from a stream and are not longer than a stream can be. -/
structure CBlock.Readable (block : CBlock) : Prop where
  onWire : ∀ tx ∈ block.vtx, tx.OnWire
  small : ∀ tx ∈ block.vtx, txSize tx < 2 ^ 64

theorem CBlock.Readable.fits (h : block.Readable) (tx : CTransaction) (htx : tx ∈ block.vtx) :
    tx.Fits (2 ^ 64 - 1) :=
  fits_of_txSize_le (Nat.le_sub_one_of_lt (h.small tx htx))

section Membership

variable {hash256 : List UInt8 → Uint256} {tx : CTransaction} {inner nonce : List UInt8}

theorem encoding_mem_hashedStrings (htx : tx ∈ block.vtx) :
    serializeTransaction false tx ∈ hashedStrings hash256 block := by
  have hmem : serializeTransaction false tx ∈ block.vtx.map (serializeTransaction false) :=
    mem_map_of_mem htx
  simp [hashedStrings, hmem]

theorem witnessEncoding_mem_hashedStrings (htx : tx ∈ block.vtx) :
    serializeTransaction true tx ∈ hashedStrings hash256 block := by
  have hmem : serializeTransaction true tx ∈ block.vtx.map (serializeTransaction true) :=
    mem_map_of_mem htx
  simp [hashedStrings, hmem]

theorem inner_mem_hashedStrings
    (hinner : inner ∈ innerStrings hash256 (transactionIds hash256 block)) :
    inner ∈ hashedStrings hash256 block := by
  simp [hashedStrings, hinner]

theorem witnessInner_mem_hashedStrings
    (hinner : inner ∈ innerStrings hash256 (witnessIds hash256 block)) :
    inner ∈ hashedStrings hash256 block := by
  simp [hashedStrings, hinner]

theorem commitment_mem_hashedStrings (hnonce : nonce ∈ coinbaseWitness block) :
    (blockWitnessMerkleRoot hash256 block).1.toBytes ++ nonce ∈ hashedStrings hash256 block := by
  simp [hashedStrings, hnonce]

end Membership

theorem transactionIds_eq (hfree : CollisionFree env.host.hash256 block block')
    (hne : block.vtx ≠ []) (hne' : block'.vtx ≠ [])
    (hclean : (blockMerkleRoot env.host.hash256 block).2 = false)
    (hclean' : (blockMerkleRoot env.host.hash256 block').2 = false)
    (hroot : (blockMerkleRoot env.host.hash256 block).1 =
      (blockMerkleRoot env.host.hash256 block').1) :
    transactionIds env.host.hash256 block = transactionIds env.host.hash256 block' := by
  refine leaves_eq_of_root_eq ?_ (by simpa [transactionIds] using hne)
    (by simpa [transactionIds] using hne') hroot ?_ ?_ hclean hclean'
  · intro first hfirst second hsecond
    exact hfree.injective first (inner_mem_hashedStrings hfirst) second
      (inner_mem_hashedStrings hsecond)
  · intro leaf hleaf inner hinner heq
    obtain ⟨tx, htx, rfl⟩ := mem_map.mp hleaf
    have hstring := hfree.injective _ (encoding_mem_hashedStrings htx) inner
      (inner_mem_hashedStrings hinner) heq
    exact hfree.leaves tx htx (hstring ▸ hinner)
  · intro leaf hleaf inner hinner heq
    obtain ⟨tx, htx, rfl⟩ := mem_map.mp hleaf
    have hstring := hfree.injective inner (inner_mem_hashedStrings hinner) _
      (encoding_mem_hashedStrings htx) heq.symm
    exact hfree.leaves' tx htx (hstring ▸ hinner)

/-- The transaction ids fix the transactions without their witness data. -/
theorem stripped_eq_of_transactionIds_eq (hfree : CollisionFree env.host.hash256 block block')
    (hread : block.Readable) (hread' : block'.Readable)
    (hids : transactionIds env.host.hash256 block = transactionIds env.host.hash256 block') :
    block.vtx.map stripped = block'.vtx.map stripped := by
  have hmap : (block.vtx.map stripped).map (getHash env.host.hash256) =
      (block'.vtx.map stripped).map (getHash env.host.hash256) := by
    have hhash : getHash env.host.hash256 ∘ stripped =
        getHash env.host.hash256 := by
      funext tx
      exact congrArg env.host.hash256 (serialize_false_stripped tx)
    rw [map_map, map_map, hhash]
    exact hids
  refine eq_of_map_eq_map ?_ hmap hmap
  intro short hshort short' hshort' heq _
  obtain ⟨tx, htx, rfl⟩ := mem_map.mp hshort
  obtain ⟨tx', htx', rfl⟩ := mem_map.mp hshort'
  rw [getHash, getHash, serialize_false_stripped,
    serialize_false_stripped] at heq
  have hstring := hfree.injective _ (encoding_mem_hashedStrings htx) _
    (encoding_mem_hashedStrings htx') heq
  have hsame := stripped_eq_of_serialize_eq (show 2 ^ 64 - 1 < 2 ^ 64 by omega)
    (hread.fits tx htx) (hread'.fits tx' htx') hstring
  rwa [received_of_onWire (hread.onWire tx htx),
    received_of_onWire (hread'.onWire tx' htx')] at hsame

/-! ## Witness data -/

theorem getWitnessCommitment_congr
    (h : block.vtx.map stripped = block'.vtx.map stripped) :
    getWitnessCommitment block = getWitnessCommitment block' := by
  have hhead (block : CBlock) : getWitnessCommitment block =
      (block.vtx.map stripped).head?.bind fun coinbase =>
        coinbase.vout.reverse.find? isWitnessCommitment := by
    unfold getWitnessCommitment
    cases block.vtx with
    | nil => rfl
    | cons coinbase rest => rfl
  rw [hhead, hhead, h]

private theorem map_stripped_of_no_witness (h : block.vtx.any hasWitness = false) :
    block.vtx.map stripped = block.vtx := by
  conv_rhs => rw [← map_id block.vtx]
  refine map_congr_left fun tx htx => ?_
  exact stripped_of_not_hasWitness (by simpa using any_eq_false.mp h tx htx)

/-- The only witness stack of a coinbase. -/
private theorem coinbase_of_witness {nonce : List UInt8}
    (hcoinbase : (block.vtx.head?.map isCoinBase).getD false = true)
    (hnonce : coinbaseWitness block = [nonce]) : ∃ coinbase rest, block.vtx = coinbase :: rest ∧
      coinbase.vin.map CTxIn.scriptWitness = [[nonce]] := by
  unfold coinbaseWitness at hnonce
  cases hvtx : block.vtx with
  | nil => simp [hvtx] at hcoinbase
  | cons coinbase rest =>
    refine ⟨coinbase, rest, rfl, ?_⟩
    rw [hvtx] at hcoinbase hnonce
    replace hcoinbase : coinbase.isCoinBase = true := hcoinbase
    unfold isCoinBase at hcoinbase
    match hvin : coinbase.vin with
    | [] => simp [hvin] at hcoinbase
    | _ :: _ :: _ => simp [hvin] at hcoinbase
    | [input] =>
      replace hnonce : (coinbase.vin.head?.map CTxIn.scriptWitness).getD [] = [nonce] := hnonce
      rw [hvin] at hnonce
      exact congrArg (fun stack => [stack]) hnonce

section

variable (hfree : CollisionFree env.host.hash256 block block')
include hfree

/-- The commitment fixes the nonce and the root of the witness tree. -/
private theorem witnessRoot_eq {commitment : CTxOut} {nonce nonce' : List UInt8}
    (hnonce : coinbaseWitness block = [nonce]) (hnonce' : coinbaseWitness block' = [nonce'])
    (hmatch : (env.host.hash256 ((blockWitnessMerkleRoot env.host.hash256 block).1.toBytes ++
      nonce)).toBytes = (commitment.scriptPubKey.bytes.drop 6).take 32)
    (hmatch' : (env.host.hash256 ((blockWitnessMerkleRoot env.host.hash256 block').1.toBytes ++
      nonce')).toBytes = (commitment.scriptPubKey.bytes.drop 6).take 32) :
    (blockWitnessMerkleRoot env.host.hash256 block).1 =
      (blockWitnessMerkleRoot env.host.hash256 block').1 ∧ nonce = nonce' := by
  have hhash := Uint256.toBytes_prefixFree.injOn trivial trivial (hmatch.trans hmatch'.symm)
  have hstring := hfree.injective _ (commitment_mem_hashedStrings (by rw [hnonce]; simp)) _
    (commitment_mem_hashedStrings (by rw [hnonce']; simp)) hhash
  exact Uint256.toBytes_prefixFree trivial trivial hstring

/-- With the ids fixed, the witness tree fixes the transactions after the coinbase. -/
private theorem rest_eq_of_witnessRoot_eq (hread : block.Readable)
    (hstripped : block.vtx.map stripped = block'.vtx.map stripped)
    (hroot : (blockWitnessMerkleRoot env.host.hash256 block).1 =
      (blockWitnessMerkleRoot env.host.hash256 block').1) :
    block.vtx.drop 1 = block'.vtx.drop 1 := by
  have hcount : block.vtx.length = block'.vtx.length := by
    simpa using congrArg length hstripped
  have hids : witnessIds env.host.hash256 block = witnessIds env.host.hash256 block' := by
    refine leaves_eq_of_root_eq_of_length ?_ (by simp [witnessIds]) (by simp [witnessIds]) hroot
      (by simp [witnessIds, hcount])
    intro first hfirst second hsecond
    exact hfree.injective first (witnessInner_mem_hashedStrings hfirst) second
      (witnessInner_mem_hashedStrings hsecond)
  have hdrop : (block.vtx.drop 1).map stripped =
      (block'.vtx.drop 1).map stripped := by
    rw [map_drop, map_drop, hstripped]
  refine eq_of_map_eq_map ?_ hdrop (cons.inj hids).2
  intro tx htx tx' htx' hbase hhash
  rw [getWitnessHash_eq, getWitnessHash_eq] at hhash
  have hmem := mem_of_mem_drop htx
  have hstring := hfree.injective _ (witnessEncoding_mem_hashedStrings hmem) _
    (witnessEncoding_mem_hashedStrings (mem_of_mem_drop htx')) hhash
  have hfits' : tx'.Fits (2 ^ 64 - 1) := fits_of_txSize_le <| by
    rw [txSize, ← hstring]
    exact Nat.le_sub_one_of_lt (hread.small tx hmem)
  exact eq_of_serialize_true_eq (show 2 ^ 64 - 1 < 2 ^ 64 by omega)
    (hread.fits tx hmem) hfits' hbase hstring

/-- Witness data is committed to, or there is none. -/
theorem vtx_eq_of_stripped_eq {expect : Bool} (hread : block.Readable)
    (hfresh : block.m_checked_witness_commitment = false)
    (hfresh' : block'.m_checked_witness_commitment = false)
    (hcoinbase : (block.vtx.head?.map isCoinBase).getD false = true)
    (hcoinbase' : (block'.vtx.head?.map isCoinBase).getD false = true)
    (hstripped : block.vtx.map stripped = block'.vtx.map stripped)
    (hwitness : (checkWitnessMalleation env block expect).result = .ok ())
    (hwitness' : (checkWitnessMalleation env block' expect).result = .ok ()) :
    block.vtx = block'.vtx := by
  have hsame := getWitnessCommitment_congr hstripped
  rcases (checkWitnessMalleation_ok_iff hfresh).mp hwitness with
    ⟨hexpect, commitment, nonce, hfound, hnonce, -, hmatch⟩ | ⟨hunexpected, hnone⟩
  · rcases (checkWitnessMalleation_ok_iff hfresh').mp hwitness' with
      ⟨-, commitment', nonce', hfound', hnonce', -, hmatch'⟩ | ⟨hunexpected', -⟩
    · obtain rfl : commitment = commitment' := by
        rw [hfound, hfound'] at hsame
        exact Option.some.inj hsame
      obtain ⟨hroot, rfl⟩ := witnessRoot_eq hfree hnonce hnonce' hmatch hmatch'
      have hrest := rest_eq_of_witnessRoot_eq hfree hread hstripped hroot
      obtain ⟨coinbase, rest, hvtx, hstack⟩ := coinbase_of_witness hcoinbase hnonce
      obtain ⟨coinbase', rest', hvtx', hstack'⟩ := coinbase_of_witness hcoinbase' hnonce'
      rw [hvtx, hvtx'] at hrest hstripped ⊢
      have hfirst : coinbase = coinbase' :=
        eq_of_stripped_eq (cons.inj hstripped).1 (hstack.trans hstack'.symm)
      rw [hfirst, show rest = rest' from hrest]
    · rw [hexpect, ← hsame, hfound] at hunexpected'
      simp at hunexpected'
  · rcases (checkWitnessMalleation_ok_iff hfresh').mp hwitness' with
      ⟨hexpect, commitment', nonce', hfound', -⟩ | ⟨-, hnone'⟩
    · rw [hexpect, hsame, hfound'] at hunexpected
      simp at hunexpected
    · rw [← map_stripped_of_no_witness hnone, hstripped, map_stripped_of_no_witness hnone']

end

end Bodies

/-! ## Sizes -/

section Sizes

variable {block : CBlock}

theorem txSize_le_getBlockWeight {tx : CTransaction} (htx : tx ∈ block.vtx) :
    txSize tx ≤ getBlockWeight block := by
  have hone : txSize tx ≤ (lengthPrefixed (serializeTransaction true) block.vtx).length :=
    length_le_lengthPrefixed_of_mem htx
  simp only [getBlockWeight, blockSize, serBlock, length_append]
  omega

/-- The block with another signature and other claims. -/
def CBlock.variant (block : CBlock) (vchBlockSig : List UInt8) (vClaim : List CClaim) : CBlock :=
  { block with vchBlockSig, vClaim }

/-- The bytes of the smallest claim: version, three lengths and an empty transaction. -/
def MIN_CLAIM_SIZE : ℕ := 17

def minimalClaim : CClaim := ⟨1, ⟨[]⟩, ⟨[]⟩, [], ⟨[], [], 3, 0, 0⟩⟩

theorem MIN_CLAIM_SIZE_le (claim : CClaim) : MIN_CLAIM_SIZE ≤ (serClaim claim).length := by
  have hsource := length_pos_serBytes claim.source.bytes
  have htarget := length_pos_serBytes claim.target.bytes
  have hsignature := length_pos_serBytes claim.signature
  have hvin := length_compactSize_pos claim.dummyTx.vin.length
  have hvout := length_compactSize_pos claim.dummyTx.vout.length
  simp only [serClaim, serScript, serializeTransaction, serTxVersion, serInt32, serUInt32,
    lengthPrefixed, length_append, length_leBytes, MIN_CLAIM_SIZE]
  omega

/-- Without its claims a block is shorter by all of them. -/
theorem blockSize_variant_nil (sig : List UInt8) (claims : List CClaim) :
    blockSize (block.variant sig []) + (lengthPrefixed serClaim claims).length =
      blockSize (block.variant sig claims) + 1 := by
  have hnil : (lengthPrefixed serClaim []).length = 1 := rfl
  simp only [blockSize, serBlock, CBlock.variant, length_append, hnil]
  omega

theorem getBlockWeight_variant_nil_le (sig : List UInt8) (claims : List CClaim) :
    getBlockWeight (block.variant sig []) ≤ getBlockWeight (block.variant sig claims) := by
  have heq := @blockSize_variant_nil block sig claims
  have hpos := length_compactSize_pos claims.length
  simp only [lengthPrefixed, length_append] at heq
  simp only [getBlockWeight, WITNESS_SCALE_FACTOR]
  omega

/-- A claim weighs at least `MIN_CLAIM_SIZE` times four. -/
theorem getBlockWeight_variant_of_ne_nil {sig : List UInt8} {claims : List CClaim}
    (hne : claims ≠ []) :
    getBlockWeight (block.variant sig []) + MIN_CLAIM_SIZE * WITNESS_SCALE_FACTOR ≤
      getBlockWeight (block.variant sig claims) := by
  have heq := @blockSize_variant_nil block sig claims
  obtain ⟨claim, hclaim⟩ := exists_mem_of_ne_nil claims hne
  have hmin := MIN_CLAIM_SIZE_le claim
  have hone : (serClaim claim).length ≤ (claims.flatMap serClaim).length :=
    length_le_length_flatMap_of_mem hclaim
  have hpos := length_compactSize_pos claims.length
  simp only [lengthPrefixed, length_append] at heq
  simp only [getBlockWeight, WITNESS_SCALE_FACTOR]
  omega

/-- The smallest claim weighs exactly that. -/
theorem getBlockWeight_variant_minimalClaim (sig : List UInt8) :
    getBlockWeight (block.variant sig [minimalClaim]) =
      getBlockWeight (block.variant sig []) + MIN_CLAIM_SIZE * WITNESS_SCALE_FACTOR := by
  have heq := @blockSize_variant_nil block sig [minimalClaim]
  have hone : (lengthPrefixed serClaim [minimalClaim]).length = MIN_CLAIM_SIZE + 1 := by decide
  simp only [getBlockWeight, WITNESS_SCALE_FACTOR]
  omega

end Sizes

/-! ## Blocks that pass -/

section Accepted

variable {env : Env} {ancestors : IndexChain} {check_witness_root : Bool} {block block' : CBlock}
  {sig : List UInt8} {claims : List CClaim}

/-- The block passes `CheckBlock` and `ContextualCheckBlock` and is not reported by
`IsBlockMutated`, each on a new object. -/
structure Accepted (env : Env) (ancestors : IndexChain) (check_witness_root : Bool)
    (block : CBlock) : Prop where
  fresh : block.Fresh
  checked : (checkBlock env true true true block).result = .ok ()
  contextual : (contextualCheckBlock env ancestors block).result = .ok ()
  unmutated : (isBlockMutated env block check_witness_root).2 = false

namespace Accepted

section

variable (h : Accepted env ancestors check_witness_root block)
include h

theorem tests : (checkBlockTests env true true block).result = .ok () :=
  ((checkBlock_ok_iff h.fresh.fChecked).mp h.checked).1

theorem signature : SignaturePasses env block :=
  ((checkBlock_ok_iff h.fresh.fChecked).mp h.checked).2

theorem root : block.hashMerkleRoot = (blockMerkleRoot env.host.hash256 block).1 ∧
      (blockMerkleRoot env.host.hash256 block).2 = false :=
  (checkMerkleRoot_ok_iff h.fresh.m_checked_merkle_root).mp
    (((checkBlockTests_ok_iff block).mp h.tests).2.1 rfl)

theorem weight : getBlockWeight block ≤ MAX_BLOCK_WEIGHT :=
  ((contextualCheckBlock_ok_iff block).mp h.contextual).2.2

theorem coinbase : (block.vtx.head?.map isCoinBase).getD false = true :=
  (bodyPasses_of_ok ((checkBlockTests_ok_iff block).mp h.tests).2.2).coinbase

theorem vtx_ne_nil : block.vtx ≠ [] := by
  intro hnil
  have hcoinbase := h.coinbase
  rw [hnil] at hcoinbase
  cases hcoinbase

theorem readable (hwire : ∀ tx ∈ block.vtx, tx.OnWire) : block.Readable := by
  refine ⟨hwire, fun tx htx => ?_⟩
  have hsize := txSize_le_getBlockWeight htx
  have hweight := h.weight
  have hlimit : MAX_BLOCK_WEIGHT < 2 ^ 64 := by decide
  omega

/-- The header commits to the transactions, witness data included. -/
theorem vtx_eq (h' : Accepted env ancestors check_witness_root block')
    (hwire : ∀ tx ∈ block.vtx, tx.OnWire) (hwire' : ∀ tx ∈ block'.vtx, tx.OnWire)
    (hfree : CollisionFree env.host.hash256 block block')
    (hheader : block'.toCBlockHeader = block.toCBlockHeader) : block'.vtx = block.vtx := by
  have hroot : (blockMerkleRoot env.host.hash256 block).1 =
      (blockMerkleRoot env.host.hash256 block').1 := by
    rw [← h.root.1, ← h'.root.1, hheader]
  have hids := transactionIds_eq hfree h.vtx_ne_nil h'.vtx_ne_nil h.root.2 h'.root.2 hroot
  have hstripped := stripped_eq_of_transactionIds_eq hfree (h.readable hwire) (h'.readable hwire')
    hids
  have hwitness := ((contextualCheckBlock_ok_iff block).mp h.contextual).2.1
  have hwitness' := ((contextualCheckBlock_ok_iff block').mp h'.contextual).2.1
  exact (vtx_eq_of_stripped_eq hfree (h.readable hwire) h.fresh.m_checked_witness_commitment
    h'.fresh.m_checked_witness_commitment h.coinbase h'.coinbase hstripped hwitness hwitness').symm

end

end Accepted

/-- The tests after the Merkle root read the claims only through the size. -/
theorem checkBlockBody_variant (hbody : checkBlockBody env block = .ok ())
    (hsize : blockSize (block.variant sig claims) * WITNESS_SCALE_FACTOR ≤
      MAX_BLOCK_WEIGHT) : checkBlockBody env (block.variant sig claims) = .ok () := by
  unfold checkBlockBody at hbody ⊢
  split at hbody
  · cases hbody
  · rename_i hlength
    rw [not_or, not_or] at hlength
    rw [if_neg]
    · exact hbody
    · rw [not_or, not_or]
      exact ⟨hlength.1, hlength.2.1, by omega⟩

/-- Any claims and any valid signature are accepted in place of those of the block, as
long as the block does not get too heavy. -/
theorem accepted_variant (h : Accepted env ancestors check_witness_root block)
    (hsign : SignaturePasses env (block.variant sig claims))
    (hweight : getBlockWeight (block.variant sig claims) ≤ MAX_BLOCK_WEIGHT) :
    Accepted env ancestors check_witness_root (block.variant sig claims) := by
  have hfresh : (block.variant sig claims).Fresh :=
    ⟨h.fresh.fChecked, h.fresh.m_checked_witness_commitment, h.fresh.m_checked_merkle_root⟩
  have hroot : (checkMerkleRoot env (block.variant sig claims)).result = .ok () :=
    (checkMerkleRoot_ok_iff hfresh.m_checked_merkle_root).mpr h.root
  have hwitness (expect : Bool)
      (hpass : (checkWitnessMalleation env block expect).result = .ok ()) :
      (checkWitnessMalleation env (block.variant sig claims) expect).result = .ok () :=
    (checkWitnessMalleation_ok_iff hfresh.m_checked_witness_commitment).mpr
      ((checkWitnessMalleation_ok_iff h.fresh.m_checked_witness_commitment).mp hpass)
  -- the weight is four times the size that `CheckBlock` looks at
  have hsize : blockSize (block.variant sig claims) * WITNESS_SCALE_FACTOR ≤
      MAX_BLOCK_WEIGHT := by
    simp only [getBlockWeight, WITNESS_SCALE_FACTOR] at hweight ⊢
    omega
  obtain ⟨hkind, -, hbody⟩ := (checkBlockTests_ok_iff block).mp h.tests
  obtain ⟨hcontext, hcommitted, -⟩ := (contextualCheckBlock_ok_iff block).mp h.contextual
  have hmutation := (isBlockMutated_eq_false_iff h.fresh.m_checked_witness_commitment
    h.coinbase).mp h.unmutated
  refine ⟨hfresh, (checkBlock_ok_iff hfresh.fChecked).mpr ⟨?_, hsign⟩, ?_, ?_⟩
  · exact (checkBlockTests_ok_iff _).mpr
      ⟨hkind, fun _ => hroot, checkBlockBody_variant hbody hsize⟩
  · exact (contextualCheckBlock_ok_iff _).mpr ⟨hcontext, hwitness _ hcommitted, hweight⟩
  · exact (isBlockMutated_eq_false_iff hfresh.m_checked_witness_commitment h.coinbase).mpr
      ⟨hroot, hwitness _ hmutation.2⟩

end Accepted

end Patchcoin
