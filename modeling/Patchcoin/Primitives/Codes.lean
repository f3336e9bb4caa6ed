import Patchcoin.Primitives.Block

/-!
# What an encoding determines

The hash of a transaction is the hash of its encoding, so two transactions with
one hash have one encoding when the hash has no collisions.  Here the encoding
is taken apart again.  Every field is a prefix-free code, and a transaction is
its fields one after the other.

* `stripped_eq_of_serialize_eq`: the encoding without witness data determines
  the transaction without witness data;
* `eq_of_serialize_witness_eq`: together with the encoding that has the witness
  data it determines all of it.

Two conditions come from the format itself.  The time of a version that does
not write it has to be zero (`OnWire`), and lengths have to fit their prefix,
which is asked as a bound on the size of the whole encoding.
-/

namespace Patchcoin

open PrefixCode List CTxIn

/-! ## Fields -/

theorem serUInt32_prefixFree : PrefixFree Set.univ serUInt32 := by
  refine (leBytes_prefixFree 4).comp (fun n _ => ?_) (fun a _ b _ h => UInt32.toNat_inj.mp h)
  exact n.toNat_lt

theorem serInt32_prefixFree : PrefixFree Set.univ serInt32 := by
  refine (leBytes_prefixFree 4).comp (fun n _ => n.toUInt32.toNat_lt) ?_
  rintro ⟨a⟩ _ ⟨b⟩ _ h
  exact congrArg Int32.ofUInt32 (UInt32.toNat_inj.mp h)

theorem serInt64_prefixFree : PrefixFree Set.univ serInt64 := by
  refine (leBytes_prefixFree 8).comp (fun n _ => n.toUInt64.toNat_lt) ?_
  rintro ⟨a⟩ _ ⟨b⟩ _ h
  exact congrArg Int64.ofUInt64 (UInt64.toNat_inj.mp h)

theorem Uint256.toBytes_prefixFree : PrefixFree Set.univ Uint256.toBytes := by
  refine (leBytes_prefixFree 32).comp (fun hash _ => ?_) (fun a _ b _ h => BitVec.eq_of_toNat_eq h)
  exact hash.isLt

@[simp] theorem Uint256.length_toBytes (hash : Uint256) : hash.toBytes.length = 32 :=
  length_leBytes 32 _

theorem serBytes_prefixFree : PrefixFree {bytes | bytes.length < 2 ^ 64} serBytes := by
  have hbyte : PrefixFree Set.univ (fun byte : UInt8 => [byte]) :=
    prefixFree_of_length (fun _ _ => rfl) (fun a _ b _ h => (cons.inj h).1)
  exact (lengthPrefixed_prefixFree hbyte).mono fun bytes hbytes => ⟨hbytes, fun _ _ => trivial⟩

theorem length_le_serBytes (bytes : List UInt8) : bytes.length ≤ (serBytes bytes).length :=
  length_le_lengthPrefixed (fun _ => by simp) bytes

theorem length_pos_serBytes (bytes : List UInt8) : 0 < (serBytes bytes).length := by
  have := length_compactSize_pos bytes.length
  simp only [serBytes, lengthPrefixed, length_append]
  omega

theorem serScript_prefixFree : PrefixFree {script : CScript | script.size < 2 ^ 64} serScript := by
  refine serBytes_prefixFree.comp (fun script hscript => hscript) ?_
  rintro ⟨a⟩ _ ⟨b⟩ _ rfl
  rfl

/-! ## Inputs, outputs and witnesses -/

/-- The part of an input that every encoding of it writes. -/
def CTxIn.stripped (input : CTxIn) : CTxIn := { input with scriptWitness := [] }

/-- What is left of the inputs once the stream has been read. -/
theorem serTxIn_prefixFree :
    PrefixFree {input : CTxIn | input.scriptWitness = [] ∧ input.scriptSig.size < 2 ^ 64}
      serTxIn := by
  rintro ⟨⟨hash, n⟩, scriptSig, nSequence, scriptWitness⟩ ⟨hempty, hsize⟩
    ⟨⟨hash', n'⟩, scriptSig', nSequence', scriptWitness'⟩ ⟨hempty', hsize'⟩ rest rest' heq
  simp only [serTxIn, serOutPoint, append_assoc] at heq
  obtain ⟨rfl, hn⟩ := Uint256.toBytes_prefixFree trivial trivial heq
  obtain ⟨rfl, hscript⟩ := serUInt32_prefixFree trivial trivial hn
  obtain ⟨rfl, hsequence⟩ := serScript_prefixFree hsize hsize' hscript
  obtain ⟨rfl, hrest⟩ := serUInt32_prefixFree trivial trivial hsequence
  obtain rfl : scriptWitness = [] := hempty
  obtain rfl : scriptWitness' = [] := hempty'
  exact ⟨rfl, hrest⟩

theorem lengthPrefixed_serTxIn_stripped (vin : List CTxIn) :
    lengthPrefixed serTxIn (vin.map stripped) = lengthPrefixed serTxIn vin := by
  unfold lengthPrefixed
  rw [length_map, flatMap_map]
  rfl

theorem serTxOut_prefixFree :
    PrefixFree {out : CTxOut | out.scriptPubKey.size < 2 ^ 64} serTxOut := by
  rintro ⟨nValue, scriptPubKey⟩ hsize ⟨nValue', scriptPubKey'⟩ hsize' rest rest' heq
  obtain ⟨rfl, hscript⟩ := serInt64_prefixFree trivial trivial heq
  obtain ⟨rfl, hrest⟩ := serScript_prefixFree hsize hsize' hscript
  exact ⟨rfl, hrest⟩

theorem serWitness_prefixFree : PrefixFree {stack : List (List UInt8) | stack.length < 2 ^ 64 ∧
      ∀ item ∈ stack, item.length < 2 ^ 64} serWitness :=
  lengthPrefixed_prefixFree serBytes_prefixFree

/-! ## Transactions -/

namespace CTransaction

variable {tx tx' : CTransaction}

theorem stripped_eq (tx : CTransaction) :
    tx.stripped = { tx with vin := tx.vin.map CTxIn.stripped } := rfl

/-- The encoding without the witness data, field by field. -/
theorem serialize_false_eq (tx : CTransaction) :
    serializeTransaction false tx = serTxVersion tx ++ (lengthPrefixed serTxIn tx.vin ++
      (lengthPrefixed serTxOut tx.vout ++ serUInt32 tx.nLockTime)) := by
  simp [serializeTransaction]

/-- The encoding with witness data, field by field. -/
theorem serialize_true_eq (h : tx.hasWitness = true) :
    serializeTransaction true tx = serTxVersion tx ++ ([0, 1] ++ (lengthPrefixed serTxIn tx.vin ++
      (lengthPrefixed serTxOut tx.vout ++
        (tx.vin.flatMap (fun input => serWitness input.scriptWitness) ++
          serUInt32 tx.nLockTime)))) := by
  simp [serializeTransaction, h]

theorem serialize_true_of_not_hasWitness (h : tx.hasWitness = false) :
    serializeTransaction true tx = serializeTransaction false tx := by
  simp [serializeTransaction, h]

/-- The extended format is longer, whatever the witnesses are. -/
theorem length_lt_txSize_of_hasWitness (h : tx.hasWitness = true) :
    (serializeTransaction false tx).length < txSize tx := by
  simp only [txSize, serialize_true_eq h, serialize_false_eq, length_append, length_cons]
  omega

theorem length_le_txSize (tx : CTransaction) :
    (serializeTransaction false tx).length ≤ txSize tx := by
  cases h : tx.hasWitness with
  | false => rw [txSize, serialize_true_of_not_hasWitness h]
  | true => exact (length_lt_txSize_of_hasWitness h).le

/-- No vector or script of the transaction is longer than the limit. -/
structure Fits (limit : ℕ) (tx : CTransaction) : Prop where
  vin : tx.vin.length ≤ limit
  scriptSig : ∀ input ∈ tx.vin, input.scriptSig.size ≤ limit
  vout : tx.vout.length ≤ limit
  scriptPubKey : ∀ out ∈ tx.vout, out.scriptPubKey.size ≤ limit
  witness : ∀ input ∈ tx.vin, input.scriptWitness.length ≤ limit ∧
    ∀ item ∈ input.scriptWitness, item.length ≤ limit

/-- Nothing in a transaction is longer than its encoding. -/
theorem fits_of_txSize_le {limit : ℕ} (h : txSize tx ≤ limit) : tx.Fits limit := by
  have hshort := length_le_txSize tx
  have hinputs : (lengthPrefixed serTxIn tx.vin).length ≤ txSize tx := by
    simp only [serialize_false_eq, length_append] at hshort
    omega
  have houtputs : (lengthPrefixed serTxOut tx.vout).length ≤ txSize tx := by
    simp only [serialize_false_eq, length_append] at hshort
    omega
  constructor
  · have hcount : tx.vin.length ≤ (lengthPrefixed serTxIn tx.vin).length :=
      length_le_lengthPrefixed (fun input => by simp [serTxIn, serOutPoint]) tx.vin
    omega
  · intro input hinput
    have hone : (serTxIn input).length ≤ (lengthPrefixed serTxIn tx.vin).length :=
      length_le_lengthPrefixed_of_mem hinput
    have hscript : input.scriptSig.size ≤ (serScript input.scriptSig).length := length_le_serBytes _
    simp only [serTxIn, length_append] at hone
    omega
  · have hcount : tx.vout.length ≤ (lengthPrefixed serTxOut tx.vout).length :=
      length_le_lengthPrefixed (fun out => by simp [serTxOut, serInt64]) tx.vout
    omega
  · intro out hout
    have hone : (serTxOut out).length ≤ (lengthPrefixed serTxOut tx.vout).length :=
      length_le_lengthPrefixed_of_mem hout
    have hscript : out.scriptPubKey.size ≤ (serScript out.scriptPubKey).length :=
      length_le_serBytes _
    simp only [serTxOut, length_append] at hone
    omega
  · intro input hinput
    by_cases hempty : input.scriptWitness = []
    · simp [hempty]
    -- the stacks are written as soon as there is one
    have hwitness : tx.hasWitness = true :=
      any_eq_true.mpr ⟨input, hinput, by simpa using hempty⟩
    have hone : (serWitness input.scriptWitness).length ≤
        (tx.vin.flatMap fun input => serWitness input.scriptWitness).length :=
      @length_le_length_flatMap_of_mem _ _ (fun input : CTxIn => serWitness input.scriptWitness)
        _ _ hinput
    have htotal : (serWitness input.scriptWitness).length ≤ txSize tx := by
      simp only [txSize, serialize_true_eq hwitness, length_append]
      omega
    constructor
    · have hcount : input.scriptWitness.length ≤ (serWitness input.scriptWitness).length :=
        length_le_lengthPrefixed (fun item => length_pos_serBytes item) _
      omega
    · intro item hitem
      have hitem : (serBytes item).length ≤ (serWitness input.scriptWitness).length :=
        length_le_lengthPrefixed_of_mem hitem
      have hbytes := length_le_serBytes item
      omega

/-- The transaction as it is read from the network: later versions have lost their time. -/
def received (tx : CTransaction) : CTransaction :=
  { tx with nTime := if tx.nVersion.toInt < 3 then tx.nTime else 0 }

theorem received_of_onWire (h : tx.OnWire) : tx.received = tx := by
  unfold received
  split
  · rfl
  · next hnew => rw [← h hnew]

/-- The version and the time come first. -/
theorem serTxVersion_prefixFree {rest rest' : List UInt8}
    (heq : serTxVersion tx ++ rest = serTxVersion tx' ++ rest') :
    tx.nVersion = tx'.nVersion ∧ tx.received.nTime = tx'.received.nTime ∧ rest = rest' := by
  obtain ⟨hversion, htime⟩ := serInt32_prefixFree trivial trivial heq
  refine ⟨hversion, ?_⟩
  unfold received
  rw [hversion] at htime ⊢
  split_ifs at htime ⊢ with hold
  · exact serUInt32_prefixFree trivial trivial htime
  · exact ⟨rfl, htime⟩

section

variable {limit : ℕ} (hlimit : limit < 2 ^ 64) (hfits : tx.Fits limit) (hfits' : tx'.Fits limit)
include hlimit hfits hfits'

/-- The fields that every encoding writes, after the announcement of the format. -/
theorem fields_of_append_eq {marker rest rest' : List UInt8}
    (heq : serTxVersion tx ++ (marker ++ (lengthPrefixed serTxIn tx.vin ++
        (lengthPrefixed serTxOut tx.vout ++ rest))) =
      serTxVersion tx' ++ (marker ++ (lengthPrefixed serTxIn tx'.vin ++
        (lengthPrefixed serTxOut tx'.vout ++ rest')))) :
    rest = rest' ∧ tx.vin.length = tx'.vin.length ∧ (tx.nLockTime = tx'.nLockTime →
      tx.received.stripped = tx'.received.stripped) := by
  have hinputs (tx : CTransaction) (hfits : tx.Fits limit) :
      (tx.vin.map CTxIn.stripped).length < 2 ^ 64 ∧
        ∀ input ∈ tx.vin.map CTxIn.stripped, input.scriptWitness = [] ∧
          input.scriptSig.size < 2 ^ 64 := by
    rw [length_map]
    refine ⟨hfits.vin.trans_lt hlimit, fun input hinput => ?_⟩
    obtain ⟨full, hfull, rfl⟩ := mem_map.mp hinput
    exact ⟨rfl, (hfits.scriptSig full hfull).trans_lt hlimit⟩
  have houtputs (tx : CTransaction) (hfits : tx.Fits limit) :
      tx.vout.length < 2 ^ 64 ∧ ∀ out ∈ tx.vout, out.scriptPubKey.size < 2 ^ 64 :=
    ⟨hfits.vout.trans_lt hlimit, fun out hout => (hfits.scriptPubKey out hout).trans_lt hlimit⟩
  obtain ⟨hversion, htime, hbody⟩ := serTxVersion_prefixFree heq
  have hvectors := append_cancel_left hbody
  rw [← lengthPrefixed_serTxIn_stripped, ← lengthPrefixed_serTxIn_stripped tx'.vin] at hvectors
  obtain ⟨hvin, hvouts⟩ := lengthPrefixed_prefixFree serTxIn_prefixFree (hinputs tx hfits)
    (hinputs tx' hfits') hvectors
  obtain ⟨hvout, hrest⟩ := lengthPrefixed_prefixFree serTxOut_prefixFree (houtputs tx hfits)
    (houtputs tx' hfits') hvouts
  refine ⟨hrest, by simpa using congrArg length hvin, fun hlock => ?_⟩
  rw [stripped_eq, stripped_eq, htime]
  show CTransaction.mk (tx.vin.map CTxIn.stripped) tx.vout tx.nVersion _ tx.nLockTime = _
  rw [hvin, hvout, hversion, hlock]
  rfl

/-- The encoding that the transaction id hashes determines everything but the witness and
the time of later versions. -/
theorem stripped_eq_of_serialize_eq
    (heq : serializeTransaction false tx = serializeTransaction false tx') :
    tx.received.stripped = tx'.received.stripped := by
  rw [serialize_false_eq, serialize_false_eq] at heq
  obtain ⟨hlock, -, hfields⟩ := @fields_of_append_eq tx tx' limit hlimit hfits hfits' [] _ _ heq
  exact hfields (serUInt32_prefixFree.injOn trivial trivial hlock)

end

/-! ## Witness data -/

theorem serialize_false_stripped (tx : CTransaction) :
    serializeTransaction false tx.stripped = serializeTransaction false tx := by
  rw [serialize_false_eq, serialize_false_eq, stripped_eq, lengthPrefixed_serTxIn_stripped]
  rfl

theorem stripped_of_not_hasWitness (h : tx.hasWitness = false) : tx.stripped = tx := by
  have hvin : tx.vin.map CTxIn.stripped = tx.vin := by
    conv_rhs => rw [← map_id tx.vin]
    refine map_congr_left fun input hinput => ?_
    have hempty : input.scriptWitness = [] := by
      have hnone := any_eq_false.mp h input hinput
      simpa using hnone
    rw [CTxIn.stripped, ← hempty]
    rfl
  rw [stripped_eq, hvin]

/-- A transaction is what every encoding writes and the witness stacks. -/
theorem eq_of_stripped_eq (hstripped : tx.stripped = tx'.stripped)
    (hwitness : tx.vin.map CTxIn.scriptWitness = tx'.vin.map CTxIn.scriptWitness) : tx = tx' := by
  obtain ⟨vin, vout, nVersion, nTime, nLockTime⟩ := tx
  obtain ⟨vin', vout', nVersion', nTime', nLockTime'⟩ := tx'
  simp only [stripped_eq, mk.injEq] at hstripped
  obtain ⟨hvin, rfl, rfl, rfl, rfl⟩ := hstripped
  have hparts : ∀ input ∈ vin, ∀ input' ∈ vin', input.stripped = input'.stripped →
      input.scriptWitness = input'.scriptWitness → input = input' := by
    rintro ⟨prevout, scriptSig, nSequence, stack⟩ _ ⟨prevout', scriptSig', nSequence', stack'⟩ _
      hbase hstack
    obtain ⟨rfl, rfl, rfl, -⟩ := hbase
    rw [CTxIn.mk.injEq]
    exact ⟨rfl, rfl, rfl, hstack⟩
  rw [eq_of_map_eq_map hparts hvin hwitness]

section

variable {limit : ℕ} (hlimit : limit < 2 ^ 64) (hfits : tx.Fits limit) (hfits' : tx'.Fits limit)
include hlimit hfits hfits'

/-- The extended format determines the witness stacks as well. -/
theorem received_eq_of_serialize_witness_eq (hwitness : tx.hasWitness = true)
    (hwitness' : tx'.hasWitness = true)
    (heq : serializeTransaction true tx = serializeTransaction true tx') :
    tx.received = tx'.received := by
  have hstacks (tx : CTransaction) (hfits : tx.Fits limit) :
      ∀ stack ∈ tx.vin.map scriptWitness, stack.length < 2 ^ 64 ∧
        ∀ item ∈ stack, item.length < 2 ^ 64 := by
    intro stack hstack
    obtain ⟨input, hinput, rfl⟩ := mem_map.mp hstack
    obtain ⟨hcount, hitems⟩ := hfits.witness input hinput
    exact ⟨hcount.trans_lt hlimit, fun item hitem => (hitems item hitem).trans_lt hlimit⟩
  rw [serialize_true_eq hwitness, serialize_true_eq hwitness'] at heq
  obtain ⟨hrest, hlength, hfields⟩ := fields_of_append_eq hlimit hfits hfits' heq
  rw [← flatMap_map scriptWitness, ← flatMap_map scriptWitness] at hrest
  obtain ⟨hsame, hlock⟩ := serWitness_prefixFree.flatMap (hstacks tx hfits) (hstacks tx' hfits')
    (by rw [length_map, length_map, hlength]) hrest
  exact eq_of_stripped_eq (hfields (serUInt32_prefixFree.injOn trivial trivial hlock)) hsame

/-- The encoding that the witness id hashes determines the rest. -/
theorem eq_of_serialize_true_eq (hstripped : tx.stripped = tx'.stripped)
    (heq : serializeTransaction true tx = serializeTransaction true tx') : tx = tx' := by
  have hlength : txSize tx = txSize tx' := congrArg length heq
  have hbase : (serializeTransaction false tx).length =
      (serializeTransaction false tx').length := by
    rw [← serialize_false_stripped, hstripped, serialize_false_stripped]
  cases hwitness : tx.hasWitness with
  | true =>
    have hlong := length_lt_txSize_of_hasWitness hwitness
    cases hwitness' : tx'.hasWitness with
    | true =>
      have hsame := received_eq_of_serialize_witness_eq hlimit hfits hfits' hwitness hwitness' heq
      have hvin := congrArg CTransaction.vin hsame
      change tx.vin = tx'.vin at hvin
      exact eq_of_stripped_eq hstripped (by rw [hvin])
    | false =>
      have hshort : txSize tx' = (serializeTransaction false tx').length :=
        congrArg length (serialize_true_of_not_hasWitness hwitness')
      omega
  | false =>
    have hshort : txSize tx = (serializeTransaction false tx).length :=
      congrArg length (serialize_true_of_not_hasWitness hwitness)
    cases hwitness' : tx'.hasWitness with
    | true =>
      have hlong := length_lt_txSize_of_hasWitness hwitness'
      omega
    | false =>
      rw [← stripped_of_not_hasWitness hwitness, hstripped, stripped_of_not_hasWitness hwitness']

end

/-- The extended format starts with an empty vector of inputs, which the other format has
only if there are no inputs. -/
theorem hasWitness_of_serialize_true_eq (hsmall : tx'.vin.length < 2 ^ 64) (hvin' : tx'.vin ≠ [])
    (hwitness : tx.hasWitness = true)
    (heq : serializeTransaction true tx = serializeTransaction true tx') :
    tx'.hasWitness = true := by
  by_contra hnone
  rw [Bool.not_eq_true] at hnone
  rw [serialize_true_of_not_hasWitness hnone, serialize_true_eq hwitness, serialize_false_eq] at heq
  obtain ⟨-, -, hbody⟩ := serTxVersion_prefixFree heq
  rw [lengthPrefixed.eq_1 serTxIn tx'.vin, append_assoc] at hbody
  have hzero : 0 = tx'.vin.length :=
    (compactSize_prefixFree (show 0 < 2 ^ 64 by omega) hsmall hbody).1
  exact hvin' (eq_nil_of_length_eq_zero hzero.symm)

/-- The witness-allowed encoding of a transaction with inputs determines it, but for the
time of later versions. -/
theorem received_eq_of_serialize_true_eq {limit : ℕ} (hlimit : limit < 2 ^ 64)
    (hfits : tx.Fits limit) (hfits' : tx'.Fits limit) (hvin : tx.vin ≠ []) (hvin' : tx'.vin ≠ [])
    (heq : serializeTransaction true tx = serializeTransaction true tx') :
    tx.received = tx'.received := by
  cases hwitness : tx.hasWitness with
  | true =>
    exact received_eq_of_serialize_witness_eq hlimit hfits hfits' hwitness
      (hasWitness_of_serialize_true_eq (hfits'.vin.trans_lt hlimit) hvin' hwitness heq) heq
  | false =>
    have hwitness' : tx'.hasWitness = false := by
      by_contra hsome
      rw [Bool.not_eq_false] at hsome
      rw [hasWitness_of_serialize_true_eq (hfits.vin.trans_lt hlimit) hvin hsome heq.symm]
        at hwitness
      cases hwitness
    rw [serialize_true_of_not_hasWitness hwitness, serialize_true_of_not_hasWitness hwitness']
      at heq
    have hsame := stripped_eq_of_serialize_eq hlimit hfits hfits' heq
    rwa [@stripped_of_not_hasWitness tx.received hwitness,
      @stripped_of_not_hasWitness tx'.received hwitness'] at hsame

theorem getWitnessHash_eq (hash256 : List UInt8 → Uint256) (tx : CTransaction) :
    tx.getWitnessHash hash256 = hash256 (serializeTransaction true tx) := by
  unfold getWitnessHash
  cases h : tx.hasWitness with
  | true => rfl
  | false =>
    rw [serialize_true_of_not_hasWitness h]
    rfl

end CTransaction

end Patchcoin
