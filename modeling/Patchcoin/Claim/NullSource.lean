import Patchcoin.Claim.Leftover

/-!
# Null pointers in the validation of a claim set

A claim has two pointers.  `dummyTx` is set by reading: a transaction is always made for it.
`source` is set by `Init`, and only if `Init` gets as far as the class of the source.

`Claim::IsValid` returns at once for a claim that was not initialised, and every claim that was
initialised has a source or does not need one, so it never reads a null pointer.
`CClaimSet::IsValid` asks for the source of a claim before it asks whether the claim is valid.
The first claim of a set that was not initialised, with valid claims before it, is read through
the null pointer.
-/

namespace Patchcoin

open Reader

/-! ## Objects with their pointers -/

/-- A claim in memory. -/
structure ClaimObject where
  claim : Claim
  /-- `m_claim.dummyTx` points to a transaction. -/
  dummyTx : Bool
  deriving DecidableEq

/-- A claim set in memory, as far as `IsValid` reads it. -/
structure ClaimSetObject where
  claims : List ClaimObject
  nTime : ℤ
  vchSig : List UInt8
  fChecked : Bool := false

section

variable (env : Env)

/-- `SERIALIZE_METHODS(CClaimSetClaim, obj)`, into an element of the vector, which the default
constructor has made. -/
def readClaimObject (texts : Texts) : Reader ClaimObject :=
  ((Claim.null texts).unserialize env false).andThen fun claim => readInt64.andThen fun nTime =>
    done ⟨{ claim with nTime := nTime.toInt }, true⟩

/-- `SERIALIZE_METHODS(CClaimSet, obj)`. -/
def readClaimSet (texts : Texts) : Reader ClaimSetObject :=
  (readVector MAX_SIZE (readClaimObject env texts)).andThen fun claims =>
    readInt64.andThen fun nTime => readByteVector.andThen fun vchSig =>
      done { claims, nTime := nTime.toInt, vchSig }

namespace Claim

/-- The tests of `IsValid` on the form of the claim, between the size and the source. -/
def checkForm (claim : Claim) : VerificationResult :=
  if claim.m_compatible && claim.getBaseSize != claim.CLAIM_SIZE then .ERR_SIZE_MISMATCH
  else if !claim.m_compatible && decide (claim.CLAIM_SIZE < claim.getBaseSize) then
    .ERR_SIZE_MISMATCH
  else if claim.m_source_address == "" || claim.m_target_address == "" then .ERR_EMPTY_FIELDS
  else if (claim.m_compatible || claim.m_is_btc) && claim.m_signature_string == "" then
    .ERR_EMPTY_FIELDS
  else if !claim.m_compatible && !claim.m_is_btc && claim.dummyTxIsNull then .ERR_EMPTY_FIELDS
  else if claim.m_is_btc && !claim.dummyTxIsNull then .ERR_EMPTY_FIELDS
  else .OK

end Claim

namespace ClaimObject

/-- `IsValid` with its first use of each pointer; `none` is a null pointer that is read.  After
`GetBaseSize` and `IsSourceTarget` both pointers have been read, and later uses read them
again, except for `*source`, which stands behind a test. -/
def isValid? (object : ClaimObject) : Option Claim.VerificationResult :=
  if !object.claim.m_init then some .ERR_NOT_INITIALIZED
  else if !Claim.snapshotIsValid env then some .ERR_SNAPSHOT_MISMATCH
  else if !object.claim.m_claim.signature.isEmpty &&
      (object.dummyTx && !object.claim.dummyTxIsNull) then some .ERR_NOT_INITIALIZED
  else if !object.dummyTx then none -- `GetBaseSize` writes the transaction
  else if object.claim.checkForm ≠ .OK then some object.claim.checkForm
  else match object.claim.getSource? with
    | none => none -- `IsSourceTarget`
    | some _ => some (object.claim.isValid env).2

end ClaimObject

namespace ClaimSetObject

/-- The set without its pointers. -/
def values (set : ClaimSetObject) : CClaimSet where
  claims := set.claims.map fun object => ⟨object.claim.m_claim, object.claim.nTime⟩
  nTime := set.nTime
  vchSig := set.vchSig
  fChecked := set.fChecked

/-- The loop of `IsValid`, with the scripts seen before. -/
def claimsValid? : List ClaimObject → List CScript → Option Bool
  | [], _ => some true
  | object :: rest, seenScripts =>
    object.claim.getSource?.bind fun source =>
      if source ∈ seenScripts then some false
      else (object.isValid? env).bind fun result =>
        if result ≠ .OK then some false else claimsValid? rest (source :: seenScripts)

/-- The tests of `IsValid` before it computes the hash. -/
def counted (set : ClaimSetObject) : Bool :=
  !set.claims.isEmpty && decide (set.claims.length ≤ MAX_CLAIMS_COUNT) && !set.vchSig.isEmpty &&
    (solver env.params.genesisPubKey).1 == .PUBKEY

/-- `CClaimSet::IsValid`; `none` is a null pointer that is read. -/
def isValid? (set : ClaimSetObject) : Option Bool :=
  if set.fChecked then some true
  else if !set.counted env then some false
  else if set.claims.any fun object => !object.dummyTx then none -- `GetHash` writes the claims
  else if !CClaimSet.signatureAccepted env (set.values.getHash env) set.vchSig then some false
  else claimsValid? env set.claims []

/-- `IsValid` gets to its loop. -/
def opens (set : ClaimSetObject) : Bool :=
  set.counted env && CClaimSet.signatureAccepted env (set.values.getHash env) set.vchSig

end ClaimSetObject

end

variable {env : Env} {texts : Texts}
variable {bytes rest : List UInt8}

/-! ## What reading leaves -/

/-- The scripts of a claim have addresses, and there is a snapshot to look the source up in. -/
structure Decodable (env : Env) (m_claim : CClaim) : Prop where
  snapshot : Claim.snapshotIsValid env = true
  source : env.getAddressFromScript m_claim.source ≠ ""
  bitcoin_source : env.getBtcAddressFromScript m_claim.source ≠ ""
  target : env.getAddressFromScript m_claim.target ≠ ""

theorem m_init_ofCClaim_iff (m_claim : CClaim) :
    (Claim.ofCClaim env m_claim).m_init = true ↔ Decodable env m_claim := by
  have hempty : (({ m_claim } : Claim).setAddresses env).hasEmptyAddress = false ↔
      env.getAddressFromScript m_claim.source ≠ "" ∧
        env.getBtcAddressFromScript m_claim.source ≠ "" ∧
        env.getAddressFromScript m_claim.target ≠ "" := by
    simp [Claim.hasEmptyAddress, Claim.setAddresses, and_assoc]
  constructor
  · intro hinit
    obtain ⟨hsnapshot, haddresses, -⟩ := Claim.ofCClaim_of_init hinit
    obtain ⟨hsource, hbitcoin, htarget⟩ := hempty.mp haddresses
    exact ⟨hsnapshot, hsource, hbitcoin, htarget⟩
  · intro h
    have haddresses := hempty.mpr ⟨h.source, h.bitcoin_source, h.target⟩
    unfold Claim.ofCClaim Claim.init
    rw [h.snapshot, haddresses]
    rfl

/-- A claim that is not well formed fails the tests on its fields there. -/
theorem Claim.checkFields_eq_checkForm {claim : Claim} (hinit : claim.m_init = true)
    (hsnapshot : Claim.snapshotIsValid env = true)
    (hboth : ¬ (!claim.m_claim.signature.isEmpty && !claim.dummyTxIsNull) = true)
    (hform : claim.checkForm ≠ .OK) : claim.checkFields env = claim.checkForm := by
  unfold Claim.checkFields
  rw [if_neg (by simp [hinit]), if_neg (by simp [hsnapshot]), if_neg hboth]
  refine ite_congr rfl (fun _ => rfl) fun hsize => ?_
  refine ite_congr rfl (fun _ => rfl) fun hsize' => ?_
  refine ite_congr rfl (fun _ => rfl) fun haddress => ?_
  refine ite_congr rfl (fun _ => rfl) fun hsignature => ?_
  refine ite_congr rfl (fun _ => rfl) fun hdummy => ?_
  refine ite_congr rfl (fun _ => rfl) fun hbitcoin => absurd ?_ hform
  unfold Claim.checkForm
  rw [if_neg hsize, if_neg hsize', if_neg haddress, if_neg hsignature, if_neg hdummy,
    if_neg hbitcoin]

/-- An object as reading leaves it. -/
structure ClaimObject.Fresh (env : Env) (object : ClaimObject) : Prop where
  dummyTx : object.dummyTx = true
  claim : ∃ m_claim nTime, object.claim = { Claim.ofCClaim env m_claim with nTime }

theorem fresh_of_readClaimObject {object : ClaimObject}
    (hread : readClaimObject env texts bytes = some (object, rest)) : object.Fresh env := by
  obtain ⟨claim, bytes', hclaim, htail⟩ := andThen_eq_some_iff.mp hread
  obtain ⟨nTime, bytes'', -, hdone⟩ := andThen_eq_some_iff.mp htail
  obtain ⟨stored, hstored, rfl⟩ := Claim.unserialize_eq_some_iff.mp hclaim
  -- a stream from the network carries the message only
  obtain ⟨m_claim, bytes''', -, hmessage⟩ := andThen_eq_some_iff.mp hstored
  cases hmessage
  cases hdone
  refine ⟨rfl, m_claim, nTime.toInt, ?_⟩
  rw [← Claim.initOver_cleared]
  rfl

theorem fresh_of_readClaimSet {set : ClaimSetObject}
    (hread : readClaimSet env texts bytes = some (set, rest)) :
    set.fChecked = false ∧ ∀ object ∈ set.claims, object.Fresh env := by
  obtain ⟨claims, bytes', hclaims, htail⟩ := andThen_eq_some_iff.mp hread
  obtain ⟨nTime, bytes'', -, htail⟩ := andThen_eq_some_iff.mp htail
  obtain ⟨vchSig, bytes''', -, hdone⟩ := andThen_eq_some_iff.mp htail
  cases hdone
  exact ⟨rfl, forall_of_readVector (fun _ _ _ => fresh_of_readClaimObject) hclaims⟩

namespace ClaimObject.Fresh

variable {object : ClaimObject} (h : object.Fresh env)

include h

theorem m_init_iff : object.claim.m_init = true ↔ Decodable env object.claim.m_claim := by
  obtain ⟨m_claim, nTime, hclaim⟩ := h.claim
  rw [hclaim]
  show (Claim.ofCClaim env m_claim).m_init = true ↔
    Decodable env (Claim.ofCClaim env m_claim).m_claim
  rw [Claim.m_claim_ofCClaim]
  exact m_init_ofCClaim_iff m_claim

/-- The source pointer is null exactly if the claim was not initialised. -/
theorem getSource?_eq : object.claim.getSource? =
    if object.claim.m_init then some object.claim.m_claim.source else none := by
  obtain ⟨m_claim, nTime, hclaim⟩ := h.claim
  rw [hclaim]
  show (Claim.ofCClaim env m_claim).getSource? =
    if (Claim.ofCClaim env m_claim).m_init then some (Claim.ofCClaim env m_claim).m_claim.source
    else none
  rw [Claim.m_claim_ofCClaim]
  split_ifs with hinit
  · rw [(Claim.ofCClaim_of_init hinit).2.2]
    exact Claim.getSource?_classify rfl
  · rw [m_init_ofCClaim_iff] at hinit
    unfold Claim.ofCClaim Claim.init
    split_ifs with hsnapshot haddresses
    · rfl
    · rfl
    · refine absurd ?_ hinit
      simp only [Claim.hasEmptyAddress, Claim.setAddresses, Bool.or_eq_true, beq_iff_eq,
        not_or] at haddresses
      exact ⟨by simpa using hsnapshot, haddresses.1.1, haddresses.1.2, haddresses.2⟩

/-- `Claim::IsValid` reads no null pointer. -/
theorem isValid?_eq : object.isValid? env = some (object.claim.isValid env).2 := by
  have hnull : object.dummyTx = true := h.dummyTx
  unfold isValid?
  by_cases hinit : object.claim.m_init = true
  · have hsnapshot := (h.m_init_iff.mp hinit).snapshot
    have hsource : object.claim.getSource? = some object.claim.m_claim.source := by
      rw [h.getSource?_eq, if_pos hinit]
    rw [hinit, hsnapshot, hnull, hsource, Claim.isValid_snd]
    by_cases hboth : (!object.claim.m_claim.signature.isEmpty && !object.claim.dummyTxIsNull) = true
    · have hfields : object.claim.checkFields env = .ERR_NOT_INITIALIZED := by
        unfold Claim.checkFields
        rw [hinit, hsnapshot, hboth]
        rfl
      simp [hboth, hfields]
    · by_cases hform : object.claim.checkForm = .OK
      · simp [hboth, hform]
      · have hfields := Claim.checkFields_eq_checkForm hinit hsnapshot hboth hform
        simp [hboth, hform, hfields]
  · rw [Bool.eq_false_of_not_eq_true hinit, Claim.isValid_of_not_init
      (Bool.eq_false_of_not_eq_true hinit)]
    rfl

end ClaimObject.Fresh

/-! ## The loop -/

theorem claimsValid?_cons {first : ClaimObject} (h : first.Fresh env)
    (hinit : first.claim.m_init = true) (rest : List ClaimObject) (seenScripts : List CScript) :
    ClaimSetObject.claimsValid? env (first :: rest) seenScripts =
      if first.claim.m_claim.source ∈ seenScripts then some false
      else if (first.claim.isValid env).2 ≠ .OK then some false
      else ClaimSetObject.claimsValid? env rest (first.claim.m_claim.source :: seenScripts) := by
  rw [ClaimSetObject.claimsValid?, h.getSource?_eq, if_pos hinit, Option.bind_some, h.isValid?_eq,
    Option.bind_some]

/-- The loop reads no null pointer exactly if it stops before each claim that was not
initialised. -/
theorem isSome_claimsValid?_iff {claims : List ClaimObject}
    (hfresh : ∀ object ∈ claims, object.Fresh env) (seenScripts : List CScript) :
    (ClaimSetObject.claimsValid? env claims seenScripts).isSome = true ↔
      ∀ before object after, claims = before ++ object :: after →
        ClaimSetObject.claimsValid? env before seenScripts = some true →
        object.claim.m_init = true := by
  induction claims generalizing seenScripts with
  | nil => simp [ClaimSetObject.claimsValid?]
  | cons first rest ih =>
    have hfirst := hfresh first (.head _)
    have ih := ih fun object hobject => hfresh object (List.mem_cons_of_mem first hobject)
    by_cases hinit : first.claim.m_init = true
    · -- the claims before a later one start with the first one
      have hlater : (∀ before object after, first :: rest = before ++ object :: after →
            ClaimSetObject.claimsValid? env before seenScripts = some true →
            object.claim.m_init = true) ↔
          ∀ before object after, rest = before ++ object :: after →
            ClaimSetObject.claimsValid? env (first :: before) seenScripts = some true →
            object.claim.m_init = true := by
        constructor
        · intro h before object after hsplit hpass
          exact h (first :: before) object after (by rw [hsplit]; rfl) hpass
        · intro h before object after hsplit hpass
          cases before with
          | nil =>
            obtain ⟨rfl, -⟩ := List.cons.inj hsplit
            exact hinit
          | cons other before =>
            obtain ⟨rfl, hrest⟩ := List.cons.inj hsplit
            exact h before object after hrest hpass
      rw [hlater, claimsValid?_cons hfirst hinit]
      simp only [claimsValid?_cons hfirst hinit]
      split_ifs with hseen hvalid
      · simp
      · simp
      · exact ih _
    · refine iff_of_false ?_ fun h => hinit (h [] first rest rfl rfl)
      rw [ClaimSetObject.claimsValid?, hfirst.getSource?_eq, if_neg hinit]
      simp

/-- `CClaimSet::IsValid` of a set that was read from a stream returns exactly if the loop, if it
is reached at all, stops before each claim without addresses. -/
theorem claimSet_isValid_returns_iff {bytes rest : List UInt8} {set : ClaimSetObject}
    (hread : readClaimSet env texts bytes = some (set, rest)) :
    (set.isValid? env).isSome = true ↔ (set.opens env = true →
      ∀ before object after, set.claims = before ++ object :: after →
        ClaimSetObject.claimsValid? env before [] = some true →
        Decodable env object.claim.m_claim) := by
  obtain ⟨hchecked, hfresh⟩ := fresh_of_readClaimSet hread
  have hpointers : (set.claims.any fun object => !object.dummyTx) = false := by
    rw [List.any_eq_false]
    intro object hobject
    simp [(hfresh object hobject).dummyTx]
  unfold ClaimSetObject.isValid? ClaimSetObject.opens
  rw [hchecked, hpointers]
  cases set.counted env with
  | false => simp
  | true =>
    cases CClaimSet.signatureAccepted env (set.values.getHash env) set.vchSig with
    | false => simp
    | true =>
      simp only [Bool.false_eq_true, if_false, Bool.not_true, Bool.and_self, forall_const]
      rw [isSome_claimsValid?_iff hfresh]
      refine forall_congr' fun before => forall_congr' fun object => forall_congr' fun after =>
        imp_congr_right fun hsplit => imp_congr_right fun _ => ?_
      refine (hfresh object ?_).m_init_iff
      rw [hsplit]
      simp

namespace SmallNet

open PrefixCode

/-- The message with a signed set of one claim, and what a node reads from it. -/
def setMessage (source : CScript) : List UInt8 :=
  lengthPrefixed serSetClaim [⟨mkClaim source (payToKeyHash 3), 0⟩] ++ serInt64 0 ++ serBytes [1]

def receivedSet (source : CScript) : Option (ClaimSetObject × List UInt8) :=
  readClaimSet (node false true) plainTexts (setMessage source)

theorem claimSet_isValid_returns_setMessage : ∃ set rest,
    receivedSet (payToKeyHash 1) = some (set, rest) ∧ set.opens (node false true) = true ∧
      ∀ before object after, set.claims = before ++ object :: after →
        ClaimSetObject.claimsValid? (node false true) before [] = some true →
        Decodable (node false true) object.claim.m_claim := by
  have hrun : ((receivedSet (payToKeyHash 1)).map fun received =>
      (received.1.opens (node false true), (received.1.isValid? (node false true)).isSome)) =
        some (true, true) := by decide +kernel
  obtain ⟨⟨set, rest⟩, hread, hresult⟩ := Option.map_eq_some_iff.mp hrun
  rw [Prod.mk.injEq] at hresult
  exact ⟨set, rest, hread, hresult.1,
    (claimSet_isValid_returns_iff hread).mp hresult.2 hresult.1⟩

/-- The source of the claim is the empty script, which has no address. -/
theorem empty_source_is_read :
    (receivedSet ⟨[]⟩).map (fun received => received.1.isValid? (node false true)) = some none := by
  decide +kernel

end SmallNet

end Patchcoin
