import AssuranceLayer.Browser

set_option autoImplicit false

/-!
The checks of the browser: version and manifest, profile, and the fold of an inclusion proof against
a signed report. A check returns, returns a failure, or throws.
-/
namespace AssuranceLayer.Browser
open Fallible Utf16 JavaScript Profile Sign

inductive ManifestDetail where
  /-- "not a field this format defines" -/
  | unknownField
  /-- "declared published but the report carries no data for it" -/
  | publishedWithoutData
  /-- "declared {state} but the report publishes it anyway" -/
  | publishedAnyway (state : JsString)

inductive ProfileDetail where
  /-- "profile "{found}" is not in the registry" -/
  | unknown (found : JsString)
  /-- "profile {name}: {aggregate} is required by this profile but the report carries none, so the
      statement would be vacuous" -/
  | missingAggregate (name aggregate : String)
  /-- "profile {name}: {covering} of {held} does not cover {covered} of {required} for {asset}" -/
  | notCovered (name covering : String) (held : JsString) (covered : String) (required asset : JsString)
  /-- "profile {name}: {key} totals {total} across {leafCount} leaves; the profile asserts every leaf
      satisfies {rule}, which requires {expected}" -/
  | notUnanimous (name : String) (key total leafCount rule expected : JsString)
  /-- "profile {name} commits to {leaf} leaves; this proof is for {wanted} leaves" -/
  | leafKind (name : String) (leaf wanted : LeafKind)
  /-- "profile {name} commits to {leaf} leaves; this is a v2 leaf proof" -/
  | notLeafV2 (name : String) (leaf : LeafKind)
  /-- "profile {name} requires every leaf to carry a non-empty {required} map; {subjectId} does
      not" -/
  | missingLeafMap (name required : String) (subjectId : JsString)

inductive VerificationFailure where
  | unsupportedVersion (field : String) (found : Js)
  | digestMismatch
  | unknownSigner
  | badSignature
  | rootHashMismatch
  | rootSumsMismatch (asset : JsString)
  | profile (detail : ProfileDetail)
  /-- "a v1 report cannot carry a manifest; the v1 digest does not cover it" -/
  | manifestOnV1
  /-- "a v2 report must carry a disclosure manifest" -/
  | manifestMissing
  | manifestInconsistent (path : JsString) (detail : ManifestDetail)
  | malformed (detail : Thrown BrowserError)

/-- Why a check does not return: a failure is the value of the promise, an error rejects it. -/
inductive Stop where
  | fail (failure : VerificationFailure)
  | throw (error : Thrown BrowserError)

abbrev Checks := Except Stop

section Try
variable {α : Type}

/-- Outside every `try`. -/
def uncaught (x : Throws α) : Checks α := x.mapError .throw

/-- Inside a `try` whose `catch` makes the error a failure. -/
def caught (x : Throws α) : Checks α := x.mapError fun e => .fail (.malformed e)

def refuse (failure : VerificationFailure) : Checks α := .error (.fail failure)

end Try

def checkVersion (field : String) (found : Js) (want : JsString) : Checks Unit :=
  ensure (found.is want) (.fail (.unsupportedVersion field found))

/-! ## Version and manifest -/

def knownFields : List String := [
  "root_sums",
  "mark_prices",
  "disclosures.bad_debt",
  "disclosures.excluded_house_accounts",
  "disclosures.excluded_house_totals",
  "customer_balances",
  "customer_identities"]

def reportResidentFields : List String := knownFields.take 5

def isPositive (n : Binary64.Number) : Bool := (Binary64.Number.finite 0).lt? n = some true

/-- The fields a report carries data for. -/
def carriesData (report : Js) : Throws (List String) := do
  let disclosures := (← report.get "disclosures").orElse (.obj [])
  let rootSums := entriesOf (← report.get "root_sums")
  let markPrices := entriesOf (← report.get "mark_prices")
  let badDebt := entriesOf (← disclosures.get "bad_debt")
  let accounts ← ((← disclosures.get "excluded_house_accounts").orElse (.num (.finite 0))).toNumber
  let houseTotals := entriesOf (← disclosures.get "excluded_house_totals")
  return (reportResidentFields.zip [!rootSums.isEmpty, !markPrices.isEmpty, !badDebt.isEmpty,
    isPositive accounts, !houseTotals.isEmpty]).filterMap fun p => if p.2 then some p.1 else none

def checkManifestField (carried : List String) (e : JsString × Js) : Checks Unit :=
  if e.1 ∉ knownFields.map ofString then refuse (.manifestInconsistent e.1 .unknownField)
  else if e.1 ∉ reportResidentFields.map ofString then .ok ()
  else
    match e.2.is (ofString "published"), decide (e.1 ∈ carried.map ofString) with
    | true, false => refuse (.manifestInconsistent e.1 .publishedWithoutData)
    | false, true => do
      let state ← uncaught e.2.text
      refuse (.manifestInconsistent e.1 (.publishedAnyway state))
    | _, _ => .ok ()

def checkReportVersionAndManifest (report : Js) : Checks Unit := do
  let version ← uncaught (report.get "format_version")
  let manifest ← uncaught (report.get "manifest")
  if version.is reportFormatVersion then
    ensure (manifest.truthy = false) (.fail .manifestOnV1)
  else if !version.is reportFormatVersionV2 then
    refuse (.unsupportedVersion "report.format_version" version)
  else if !manifest.truthy then refuse .manifestMissing
  else
    let carried ← uncaught (carriesData report)
    let fields := (← uncaught (manifest.get "fields")).orElse (.obj [])
    forM (bytewise (entriesOf fields)) (checkManifestField carried)

/-! ## Profile -/

def profileRegistry : List ProfileRules := [
  { name := "solvency.liabilities"
    leaf := .customer
    requiredAggregates := ["root_sums"]
    coverage := none
    requiredLeafMaps := []
    unanimousMaps := [] },
  { name := "solvency.group"
    leaf := .entity
    requiredAggregates := ["root_sums"]
    coverage := none
    requiredLeafMaps := []
    unanimousMaps := [] },
  { name := "collateral.repo"
    leaf := .repoLeg
    requiredAggregates := ["collateral/*", "exposure/*"]
    coverage := some ⟨"collateral", "exposure"⟩
    requiredLeafMaps := []
    unanimousMaps := [] },
  { name := "fund.nav"
    leaf := .shareholder
    requiredAggregates := ["units/*", "entitlement/*"]
    coverage := none
    requiredLeafMaps := []
    unanimousMaps := [] },
  { name := "settlement.dvp"
    leaf := .settledTrade
    requiredAggregates := ["delivered/*", "paid/*"]
    coverage := none
    requiredLeafMaps := ["delivered", "paid"]
    unanimousMaps := [] },
  { name := "eligibility.holder"
    leaf := .attestedHolder
    requiredAggregates := ["attested/*"]
    coverage := none
    requiredLeafMaps := ["attested"]
    unanimousMaps := ["attested"] }]

def v2LeafKinds : List LeafKind := [.repoLeg, .shareholder, .settledTrade, .attestedHolder]

def lookupProfile (name : Js) : Option ProfileRules :=
  profileRegistry.find? fun rules => name.is (ofString rules.name)

def rulesOf (report : Js) : Checks ProfileRules := do
  let profile ← uncaught (report.get "profile")
  match lookupProfile profile with
  | some rules => return rules
  | none =>
    let found ← uncaught profile.text
    refuse (.profile (.unknown found))

/-- What stands behind a prefix. -/
def stripName (pre : String) (key : JsString) : Option JsString := List.isPrefixOf? (ofString pre) key

def checkAggregate (rules : ProfileRules) (rootSums markPrices : List (JsString × Js))
    (aggregate : String) : Checks Unit :=
  let present :=
    match qualifiedPrefix aggregate with
    | some pre => rootSums.any fun e => (stripName pre e.1).isSome
    | none => if aggregate = "root_sums" then rootSums ≠ [] else markPrices ≠ []
  ensure (present = true) (.fail (.profile (.missingAggregate rules.name aggregate)))

/-- Per asset: a surplus in one asset does not excuse a shortfall in another. -/
def checkCovered (rules : ProfileRules) (c : Profile.Coverage) (rootSums : List (JsString × Js))
    (e : JsString × Js) : Checks Unit :=
  match stripName (c.covered ++ "/") e.1 with
  | none => .ok ()
  | some asset => do
    let found := rootSums.lookup (ofString c.covering ++ ofString "/" ++ asset)
    let held ← uncaught (parseAmount18dp ((found.getD .undefined).orElse (.str (ofString "0"))))
    let required ← uncaught (parseAmount18dp e.2)
    if held < required then
      let heldText ← uncaught (formatAmount18dp held)
      let requiredText ← uncaught (formatAmount18dp required)
      refuse (.profile (.notCovered rules.name c.covering heldText c.covered requiredText asset))

def checkUnanimous (rules : ProfileRules) (report : Js) (mapName : String) (e : JsString × Js) :
    Checks Unit :=
  match stripName (mapName ++ "/") e.1 with
  | none => .ok ()
  | some rule => do
    let leafCount ← uncaught (report.get "leaf_count")
    let expected := (← uncaught leafCount.toBigInt) * scale
    let total ← uncaught (parseAmount18dp e.2)
    if total ≠ expected then
      let totalText ← uncaught (formatAmount18dp total)
      let countText ← uncaught leafCount.text
      let expectedText ← uncaught (formatAmount18dp expected)
      refuse (.profile (.notUnanimous rules.name e.1 totalText countText rule expectedText))

def checkRules (report : Js) (rules : ProfileRules) : Checks Unit := do
  let rootSums := entriesOf (← uncaught (report.get "root_sums"))
  let markPrices := entriesOf (← uncaught (report.get "mark_prices"))
  forM rules.requiredAggregates (checkAggregate rules rootSums markPrices)
  forM rules.coverage.toList fun c => forM rootSums (checkCovered rules c rootSums)
  forM rules.unanimousMaps fun mapName => forM rootSums (checkUnanimous rules report mapName)

def expectLeafKind (report : Js) (wanted : LeafKind) : Checks Unit := do
  let rules ← rulesOf report
  checkRules report rules
  ensure (rules.leaf = wanted) (.fail (.profile (.leafKind rules.name rules.leaf wanted)))

/-- A v2 proof belongs to any profile committed with v2 leaves. -/
def expectLeafV2 (report : Js) : Checks Unit := do
  let rules ← rulesOf report
  ensure (rules.leaf ∈ v2LeafKinds) (.fail (.profile (.notLeafV2 rules.name rules.leaf)))
  expectLeafKind report rules.leaf

def checkLeafMap (rules : ProfileRules) (leaf : Js) (required : String) : Checks Unit := do
  let maps ← uncaught (leaf.get "maps")
  let amounts := (← uncaught (maps.get required)).orElse (.obj [])
  let entries ← uncaught amounts.entries
  if entries = [] then
    let subjectId ← uncaught ((← uncaught (leaf.get "subject_id")).text)
    refuse (.profile (.missingLeafMap rules.name required subjectId))

/-! ## Signature and fold -/

variable (sha256 : List UInt8 → Digest) (ed : Ed25519)

/-- Any 32 bytes are imported; whether they are a point of the curve is for the check of a signature. -/
def importKey (raw : List UInt8) : Option (Bytes 32) :=
  if h : raw.length = 32 then some ⟨raw, h⟩ else none

def subtleVerify (key : Bytes 32) (signature message : List UInt8) : Bool :=
  if h : signature.length = 64 then ed.validKey key && ed.verify key message ⟨signature, h⟩ else false

def verifyEd25519 (publicKeyHex messageHex : JsString) (signatureHex : Js) : Throws Bool := do
  let raw ← (hexToBytes (.str publicKeyHex)).mapError fun _ => .error .ed25519Unavailable
  let key ← okOr (importKey raw) (.error .ed25519Unavailable)
  let signature ← hexToBytes signatureHex
  let message ← hexToBytes (.str messageHex)
  return subtleVerify ed key signature message

def checkSigned (publicKeyHex messageHex : JsString) (signatureHex : Js) : Checks Unit := do
  let valid ← (verifyEd25519 ed publicKeyHex messageHex signatureHex).mapError fun
    | .error .ed25519Unavailable => .throw (.error .ed25519Unavailable)
    | e => .fail (.malformed e)
  ensure (valid = true) (.fail .badSignature)

def foldStep (parse : Js → Throws Sums) (current : SolvencyNode) (step : Js) :
    Throws SolvencyNode := do
  let hash ← hexToBytes (← step.get "sibling_hash")
  let sums ← parse (← step.get "sibling_sums")
  let sibling : SolvencyNode := ⟨bytesToHex hash, sums⟩
  if (← step.get "sibling_on_left").truthy then combineNodes sha256 sibling current
  else combineNodes sha256 current sibling

def foldSteps (parse : Js → Throws Sums) (leaf : SolvencyNode) (steps : Js) : Throws SolvencyNode := do
  (← steps.elements).foldlM (foldStep sha256 parse) leaf

def checkTotals (folded published : Sums) : Checks Unit :=
  forM (folded.map Prod.fst ++ published.map Prod.fst) fun asset =>
    ensure (sameSum folded published asset) (.fail (.rootSumsMismatch asset))

/-- The tail shared by both kinds of proof. -/
def foldAgainstReport (signed : Js) (leaf : SolvencyNode) (steps expectedDigest : Js)
    (trustedPublicKeyHex : JsString) : Checks Unit := do
  let report ← uncaught (signed.get "report")
  let digest ← caught (reportDigestHex sha256 report)
  ensure (expectedDigest.is digest) (.fail .digestMismatch)
  let signature ← uncaught (signed.get "signature")
  let publicKey ← uncaught (signature.get "public_key")
  ensure (publicKey.is trustedPublicKeyHex) (.fail .unknownSigner)
  let value ← uncaught (signature.get "value")
  checkSigned ed trustedPublicKeyHex digest value
  let current ← caught (foldSteps sha256 parseSums leaf steps)
  let rootHash ← uncaught (report.get "root_hash")
  ensure (rootHash.is current.hashHex) (.fail .rootHashMismatch)
  let published ← uncaught (do parseSums (← report.get "root_sums"))
  checkTotals current.sums published

def checkVersions (signed proof : Js) (want : JsString) : Checks Unit := do
  checkVersion "proof.format_version" (← uncaught (proof.get "format_version")) want
  let signature ← uncaught (signed.get "signature")
  checkVersion "signature.algorithm" (← uncaught (signature.get "algorithm")) signatureAlgorithm

def leafNode (leaf : Js) : Throws SolvencyNode := do
  let hash ← leafHashHex sha256 (← leaf.get "salt") (← leaf.get "user_id") (← leaf.get "balances")
  let sums ← parseSums (← leaf.get "balances")
  return ⟨hash, sums⟩

/-- Recompute the leaf, fold the path, compare hash and totals. -/
def verifyReport (signed proof : Js) (trustedPublicKeyHex : JsString) : Checks Unit := do
  let report ← uncaught (signed.get "report")
  checkReportVersionAndManifest report
  expectLeafKind report .customer
  checkVersions signed proof proofFormatVersion
  let leaf ← caught (do leafNode sha256 (← proof.get "leaf"))
  let steps ← uncaught (proof.get "steps")
  let expectedDigest ← uncaught (proof.get "report_digest")
  foldAgainstReport sha256 ed signed leaf steps expectedDigest trustedPublicKeyHex

def verifyReportV2 (signed proof : Js) (trustedPublicKeyHex : JsString) : Checks Unit := do
  let report ← uncaught (signed.get "report")
  checkReportVersionAndManifest report
  expectLeafV2 report
  checkVersions signed proof proofFormatVersionV2
  let rules := lookupProfile (← uncaught (report.get "profile"))
  let leaf ← uncaught (proof.get "leaf")
  forM rules.toList fun rules => forM rules.requiredLeafMaps (checkLeafMap rules leaf)
  let node ← caught (do leafNodeV2 sha256 (← leaf.get "salt") (← leaf.get "subject_id") (← leaf.get "maps"))
  let steps ← uncaught (proof.get "steps")
  let expectedDigest ← uncaught (proof.get "report_digest")
  foldAgainstReport sha256 ed signed node steps expectedDigest trustedPublicKeyHex

end AssuranceLayer.Browser
