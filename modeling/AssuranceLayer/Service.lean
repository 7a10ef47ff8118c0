import AssuranceLayer.Completeness
import AssuranceLayer.Wire

set_option autoImplicit false

/-!
The publishing route: a request is read into positions, published, and delivered as files. Names
and amounts are trimmed, negative balances are clamped to zero and added to the bad debt.
-/
namespace AssuranceLayer.Service
open Fallible Amount Sums Merkle Document Digest Sign Produce Anchoring EvidencePack SortedMap

def liabilitiesProfile : String := "solvency.liabilities"

structure LeafIn where
  userId : String
  balances : SortedMap String String
deriving DecidableEq

structure DisclosuresIn where
  badDebt : SortedMap String String
  excludedHouseAccounts : U64
  excludedHouseTotals : SortedMap String String
deriving DecidableEq

structure PublishRequest where
  publisher : String
  profile : String
  snapshotTime : String
  ledgerOffset : String
  leaves : List LeafIn
  markPrices : SortedMap String String
  disclosures : DisclosuresIn
  manifest : Option Manifest
  previousAnchor : Option Anchor
deriving DecidableEq

inductive PublishFailure where
  /-- "cannot publish a report with no leaves" -/
  | noLeaves
  /-- "this route publishes {LIABILITIES_PROFILE}; got {:?}" -/
  | wrongProfile (found : String)
  /-- "{what}: {k} = {v:?}" -/
  | badAmount (what key value : String) (e : AmountError)
  /-- "leaf {i}: empty user_id" -/
  | emptyUserId (i : ℕ)
  /-- "leaf {i}: duplicate user_id {user_id:?}" -/
  | duplicateUserId (i : ℕ) (userId : String)
  /-- "leaf {user_id:?}: empty asset name" -/
  | emptyAssetName (userId : String)
  /-- "leaf {user_id:?}: {asset} = {raw:?}" -/
  | badBalance (userId asset raw : String) (e : AmountError)
  /-- "bad debt total overflows u128" -/
  | badDebtOverflow
  | publish (e : PublishError)
  /-- "building the evidence pack: {e:?}" -/
  | pack (e : PackFailure)
deriving DecidableEq

def amounts (map : SortedMap String String) (what : String) : Except PublishFailure AmountMap :=
  map.traverse fun k v => (parseAmount18dp v).mapError (.badAmount what k v)

/-! ## Reading the leaves -/

/-- The bad debt so far, and how many balances went into it. -/
structure Clamped where
  badDebt : AmountMap
  count : ℕ
deriving DecidableEq

def readEntry (userId : String) (state : Clamped × AmountMap) (entry : String × String) :
    Except PublishFailure (Clamped × AmountMap) := do
  let asset := trim entry.1
  ensure (asset ≠ "") (.emptyAssetName userId)
  let raw := trim entry.2
  match stripPrefix "-" raw with
  | some magnitude =>
    let owed ← (parseAmount18dp magnitude).mapError (.badBalance userId asset raw)
    let badDebt ← addEntry (fun _ => .badDebtOverflow) state.1.badDebt (asset, owed)
    return (⟨badDebt, state.1.count + 1⟩, state.2.insert asset 0)
  | none =>
    let amount ← (parseAmount18dp raw).mapError (.badBalance userId asset raw)
    return (state.1, state.2.insert asset amount)

def readLeaf (state : Clamped × SortedMap String AmountMap) (leaf : LeafIn × ℕ) :
    Except PublishFailure (Clamped × SortedMap String AmountMap) := do
  let userId := trim leaf.1.userId
  ensure (userId ≠ "") (.emptyUserId leaf.2)
  ensure (state.2.get? userId = none) (.duplicateUserId leaf.2 userId)
  let read ← leaf.1.balances.entries.foldlM (readEntry userId) (state.1, empty)
  return (read.1, state.2.insert userId read.2)

variable (sha256 : List UInt8 → Digest) (ed : Ed25519)

def publication (req : PublishRequest) (masterSalt : Bytes 32) (signer : ReportSigner) :
    Except PublishFailure (Publication × ℕ) := do
  ensure (req.leaves.isEmpty = false) .noLeaves
  ensure (req.profile = liabilitiesProfile) (.wrongProfile req.profile)
  let badDebt ← amounts req.disclosures.badDebt "disclosures.bad_debt"
  let read ← req.leaves.zipIdx.foldlM readLeaf (⟨badDebt, 0⟩, empty)
  -- Leaves in ascending user id.
  let leaves : List LeafInput := read.2.entries.map fun user =>
    { salt := leafSalt sha256 masterSalt.toList user.1, userId := user.1, balances := user.2 }
  let markPrices ← amounts req.markPrices "mark_prices"
  let excludedHouseTotals ← amounts req.disclosures.excludedHouseTotals
    "disclosures.excluded_house_totals"
  let metadata : ReportMetadata := {
    profile := req.profile
    publisher := req.publisher
    snapshotTime := req.snapshotTime
    ledgerOffset := req.ledgerOffset
    markPrices
    disclosures :=
      { badDebt := read.1.badDebt
        excludedHouseAccounts := req.disclosures.excludedHouseAccounts
        excludedHouseTotals }
    manifest := req.manifest }
  let published ← (publish sha256 ed leaves metadata signer).mapError .publish
  return (published, read.1.count)

/-! ## The files of a delivery -/

structure FileOut where
  name : String
  content : String
deriving DecidableEq

structure ProofOut where
  userId : String
  fileName : String
deriving DecidableEq

structure PublishResponse where
  publicKey : String
  formatVersion : String
  reportDigest : String
  anchorDigest : String
  rootHash : String
  leafCount : U64
  rootSums : SortedMap String String
  clamped : ℕ
  proofs : List ProofOut
  files : List FileOut
deriving DecidableEq

/-- Named by a digest of the leaf identity. -/
def proofFileName (userId : String) : String :=
  "proof-" ++ hexEncode ((sha256 (utf8 userId)).toList.take 12) ++ ".json"

structure Delivery where
  signed : SignedReport
  anchor : Anchor
  proofs : List ProofDocument
  pack : SignedPack
deriving DecidableEq

variable (print : Json → String)

def pretty (value : Json) : String := print value ++ "\n"

def memberFiles (signed : SignedReport) (anchor : Anchor) (proofs : List ProofDocument) :
    List FileOut :=
  ⟨"report.json", pretty print (Wire.signedReport.encode signed)⟩ ::
    ⟨"anchor.json", pretty print (Wire.anchor.encode anchor)⟩ ::
    proofs.map fun proof =>
      ⟨proofFileName sha256 proof.leaf.userId, pretty print (Wire.proofDocument.encode proof)⟩

def packMembers (files : List FileOut) : List (String × List UInt8) :=
  files.map fun f => (f.name, utf8 f.content)

def deliver (req : PublishRequest) (masterSalt : Bytes 32) (signer : ReportSigner) :
    Except PublishFailure (Delivery × ℕ) := do
  let published ← publication sha256 ed req masterSalt signer
  let signed := published.1.signedReport
  let anchor := anchorReport sha256 signed req.previousAnchor
  let members := packMembers (memberFiles sha256 print signed anchor published.1.proofs)
  let pack ← (buildPack sha256 ed signed.report.publisher signed.report.snapshotTime
    (reportDigestHex sha256 signed.report) members signer).mapError .pack
  return (⟨signed, anchor, published.1.proofs, pack⟩, published.2)

def Delivery.files (d : Delivery) : List FileOut :=
  memberFiles sha256 print d.signed d.anchor d.proofs ++
    [⟨"pack.json", pretty print (Wire.signedPack.encode d.pack)⟩]

def Delivery.response (d : Delivery) (clamped : ℕ) (signer : ReportSigner) : PublishResponse where
  publicKey := signer.publicKeyHex ed
  formatVersion := d.signed.report.formatVersion
  reportDigest := reportDigestHex sha256 d.signed.report
  anchorDigest := anchorDigestHex sha256 d.anchor
  rootHash := d.signed.report.rootHash
  leafCount := d.signed.report.leafCount
  rootSums := d.signed.report.rootSums.mapValues formatAmount18dp
  clamped := clamped
  proofs := d.proofs.map fun proof => ⟨proof.leaf.userId, proofFileName sha256 proof.leaf.userId⟩
  files := d.files sha256 print

def doPublish (req : PublishRequest) (masterSalt : Bytes 32) (signer : ReportSigner) :
    Except PublishFailure PublishResponse := do
  let delivered ← deliver sha256 ed print req masterSalt signer
  return delivered.1.response sha256 ed print delivered.2 signer

end AssuranceLayer.Service
