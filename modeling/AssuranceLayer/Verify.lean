import AssuranceLayer.SumTree
import AssuranceLayer.Assurance
import AssuranceLayer.Digest
import AssuranceLayer.Profile
import AssuranceLayer.Sign

set_option autoImplicit false

/-!
The consumer's side: the check of an inclusion proof against a signed report, for proofs over one
balance set and for proofs over several named maps.
-/
namespace AssuranceLayer.Verify
open Fallible Amount Sums Canonical Merkle LevelTree Document Digest Profile Sign SortedMap Assurance

inductive ManifestPresence where
  /-- "a v1 report cannot carry a manifest; the v1 digest does not cover it" -/
  | v1WithManifest
  /-- "a v2 report must carry a disclosure manifest" -/
  | v2WithoutManifest
deriving DecidableEq

inductive ManifestDetail where
  /-- "not a field this format defines" -/
  | unknownField
  /-- "declared published but the report carries no data for it" -/
  | publishedWithoutData
  /-- "declared {state} but the report publishes it anyway" -/
  | publishedAnyway (state : Disclosure)
deriving DecidableEq

inductive ProfileDetail where
  /-- "profile {found:?} is not in the registry" -/
  | unknown (found : String)
  /-- "profile {profile}: {detail}" -/
  | violation (profile : String) (detail : Violation)
  /-- "profile {name} commits to {leaf:?} leaves; this proof is for {wanted:?} leaves" -/
  | leafKind (name : String) (leaf wanted : LeafKind)
  /-- "profile {name} commits to {leaf:?} leaves; this is a v2 leaf proof" -/
  | notLeafV2 (name : String) (leaf : LeafKind)
  /-- "profile {name} requires every leaf to carry a non-empty {required} map; {subject_id} does
      not" -/
  | missingLeafMap (name required subjectId : String)
  /-- "expected a {wanted} report here, got {found:?}" -/
  | expected (wanted found : String)
deriving DecidableEq

inductive MalformedDetail where
  /-- "{what} is not 32 bytes of hex" -/
  | notHex32 (what : String)
  | leaf (e : MerkleError)
  | signature (e : SignatureError)
  /-- "sum overflow on asset {asset:?}" -/
  | sumOverflow (asset : String)
  /-- "a snapshot_time is not a §18.1 timestamp: {custody:?} and {liabilities:?}" -/
  | notTimestamps (custody liabilities : String)
  /-- "assurance statement declares a level for {field:?}, which this verifier has no way to
      substantiate" -/
  | unsubstantiable (field : String)
deriving DecidableEq

inductive ProvenanceDetail where
  /-- "two sources share the id {id:?}" -/
  | sharedId (id : String)
  /-- "off-ledger source {id:?} declares no basis; nothing else here says how that figure
      arrives" -/
  | noBasis (id : String)
  /-- "not a field this format defines" -/
  | unknownField
  /-- "declared twice; a field has one derivation" -/
  | declaredTwice
  /-- "names no sources, so it says nothing about where the figure came from" -/
  | noSources
  /-- "names source {id:?}, which the graph does not declare" -/
  | undeclaredSource (id : String)
  /-- "declared ledger-derived, and the provenance graph does not say where it came from" -/
  | noDerivation
  /-- "declared ledger-derived, but every source the graph names for it is off-ledger" -/
  | allOffLedger
deriving DecidableEq

inductive VerificationFailure where
  | unsupportedVersion (field found : String)
  | digestMismatch
  | unknownSigner
  | badSignature
  | rootHashMismatch
  | rootSumsMismatch (asset : String)
  | entityRootMismatch
  | entitySumsMismatch (asset : String)
  | profile (detail : ProfileDetail)
  | manifestPresence (detail : ManifestPresence)
  | manifestInconsistent (path : String) (detail : ManifestDetail)
  | overClaimed (field : String) (declared : AssuranceLevel) (established : Finset AssuranceLevel)
  | provenanceInconsistent (field : String) (detail : ProvenanceDetail)
  /-- "custody is as of {custody} and liabilities as of {liabilities}, {skew}s apart, beyond the
      {allowed}s the caller allows" -/
  | temporalMismatch (custody liabilities : String) (skew : ℕ) (allowed : U64)
  | malformed (detail : MalformedDetail)
deriving DecidableEq

def hash32 (hexStr what : String) : Except VerificationFailure Digest :=
  okOr (hexDecodeN 32 hexStr) (.malformed (.notHex32 what))

def expectVersion (field found want : String) : Except VerificationFailure Unit :=
  ensure (found = want) (.unsupportedVersion field found)

/-! ## Profile and manifest -/

def validatedProfile (report : Report) : Except VerificationFailure ProfileRules :=
  (validate report).mapError fun
    | .unknown found => .profile (.unknown found)
    | .violation profile detail => .profile (.violation profile detail)

def expectLeafKind (report : Report) (wanted : LeafKind) : Except VerificationFailure Unit := do
  let rules ← validatedProfile report
  ensure (rules.leaf = wanted) (.profile (.leafKind rules.name rules.leaf wanted))

def expectLeafV2 (report : Report) : Except VerificationFailure Unit := do
  let rules ← validatedProfile report
  ensure (rules.leaf.usesLeafV2 = true) (.profile (.notLeafV2 rules.name rules.leaf))

def checkManifestField (report : Report) (path : String) (state : Disclosure) :
    Except VerificationFailure Unit :=
  if path ∉ knownFields then .error (.manifestInconsistent path .unknownField)
  -- Fields attested through the commitment are not in the body.
  else if path ∉ reportResidentFields then .ok ()
  else
    match state, carriesData report path with
    | .published, false => .error (.manifestInconsistent path .publishedWithoutData)
    | .withheld, true => .error (.manifestInconsistent path (.publishedAnyway .withheld))
    | .committed, true => .error (.manifestInconsistent path (.publishedAnyway .committed))
    | _, _ => .ok ()

def checkManifestConsistency (report : Report) (manifest : Manifest) :
    Except VerificationFailure Unit :=
  forM manifest.fields.entries fun e => checkManifestField report e.1 e.2

def checkReportVersionAndManifest (report : Report) : Except VerificationFailure Unit :=
  if report.formatVersion = reportFormatVersion then
    ensure (report.manifest = none) (.manifestPresence .v1WithManifest)
  else if report.formatVersion = reportFormatVersionV2 then
    match report.manifest with
    | none => .error (.manifestPresence .v2WithoutManifest)
    | some manifest => checkManifestConsistency report manifest
  else .error (.unsupportedVersion "report.format_version" report.formatVersion)

/-! ## Folding -/

variable (sha256 : List UInt8 → Digest) (ed : Ed25519)

/-- The verifier's own node rule. -/
def combine (left right : Node) : Except VerificationFailure Node := do
  let sums ← addSums (fun asset => .malformed (.sumOverflow asset)) left.sums right.sums
  return ⟨sha256 (nodePreimage left.hash right.hash sums), sums⟩

def fold (leaf : Node) (proof : Proof) : Except VerificationFailure Node :=
  refold (combine sha256) leaf proof.steps

/-- Absent and zero are the same claim, so only real disagreements count. -/
def firstSumDisagreement (folded published : AmountMap) : Option String :=
  (folded.keys ++ published.keys).find? fun asset =>
    (folded.get? asset).getD 0 ≠ (published.get? asset).getD 0

def readStep (step : ProofStepDocument) : Except VerificationFailure (Step Node) := do
  let hash ← hash32 step.siblingHash "sibling hash"
  return ⟨⟨hash, step.siblingSums⟩, step.siblingOnLeft⟩

/-- Bind to the report, check the signature, fold, compare hash and sums. -/
def verifyAgainstReport (signed : SignedReport) (leaf : Node) (steps : List ProofStepDocument)
    (expectedDigestHex trustedPublicKeyHex : String) : Except VerificationFailure Unit := do
  let report := signed.report
  let digest := reportDigest sha256 report
  ensure (hexEncode digest.toList = expectedDigestHex) .digestMismatch
  ensure (signed.signature.publicKey = trustedPublicKeyHex) .unknownSigner
  (verifySignature ed trustedPublicKeyHex digest signed.signature.value).mapError fun
    | .badSignature => .badSignature
    | other => .malformed (.signature other)
  let steps ← steps.mapM readStep
  let rootHash ← hash32 report.rootHash "report root hash"
  let folded ← fold sha256 leaf ⟨steps⟩
  ensure (folded.hash = rootHash) .rootHashMismatch
  match firstSumDisagreement folded.sums report.rootSums with
  | some asset => .error (.rootSumsMismatch asset)
  | none => .ok ()

def verify (signed : SignedReport) (proof : ProofDocument) (trustedPublicKeyHex : String) :
    Except VerificationFailure Unit := do
  checkReportVersionAndManifest signed.report
  expectLeafKind signed.report .customer
  expectVersion "proof.format_version" proof.formatVersion proofFormatVersion
  expectVersion "signature.algorithm" signed.signature.algorithm signatureAlgorithm
  let salt ← hash32 proof.leaf.salt "leaf salt"
  let leaf ← (leafNode sha256 salt proof.leaf.userId proof.leaf.balances.entries).mapError
    fun e => .malformed (.leaf e)
  verifyAgainstReport sha256 ed signed leaf proof.steps proof.reportDigest trustedPublicKeyHex

def checkLeafMap (rules : ProfileRules) (leaf : LeafPreimageV2) (required : String) :
    Except VerificationFailure Unit :=
  ensure ((leaf.maps.get? required).any (fun m => !m.isEmpty) = true)
    (.profile (.missingLeafMap rules.name required leaf.subjectId))

def verifyV2 (signed : SignedReport) (proof : ProofDocumentV2) (trustedPublicKeyHex : String) :
    Except VerificationFailure Unit := do
  checkReportVersionAndManifest signed.report
  expectLeafV2 signed.report
  expectVersion "proof.format_version" proof.formatVersion proofFormatVersionV2
  expectVersion "signature.algorithm" signed.signature.algorithm signatureAlgorithm
  let rules ← validatedProfile signed.report
  forM rules.requiredLeafMaps (checkLeafMap rules proof.leaf)
  let salt ← hash32 proof.leaf.salt "leaf salt"
  let leaf ← (leafNodeV2 sha256 salt proof.leaf.subjectId proof.leaf.maps).mapError
    fun e => .malformed (.leaf e)
  verifyAgainstReport sha256 ed signed leaf proof.steps proof.reportDigest trustedPublicKeyHex

/-! ## What acceptance means -/

theorem firstSumDisagreement_eq_none {folded published : AmountMap} :
    firstSumDisagreement folded published = none ↔ amount folded = amount published := by
  rw [firstSumDisagreement, List.find?_eq_none]
  constructor
  · intro h
    funext a
    by_cases ha : a ∈ folded.keys ++ published.keys
    · have heq := h a ha
      simp only [decide_eq_true_eq, not_not] at heq
      rw [amount, amount, heq]
    · rw [List.mem_append, not_or] at ha
      rw [amount_of_not_mem ha.1, amount_of_not_mem ha.2]
  · intro h a _
    have heq := congrFun h a
    simpa [amount, Fin.ext_iff] using heq

variable {sha256 ed}

/-- The verifier's node rule returns what the tree's node rule returns. -/
theorem combine_eq_ok {left right n : Node} :
    combine sha256 left right = .ok n ↔ Merkle.combine sha256 left right = .ok n := by
  simp only [combine, Merkle.combine, bind_eq_ok, pure_eq_ok,
    addSums_eq_ok_iff _ MerkleError.sumOverflow]

theorem fold_eq_ok {leaf n : Node} {proof : Proof} :
    fold sha256 leaf proof = .ok n ↔ refold (Merkle.combine sha256) leaf proof.steps = .ok n := by
  rw [fold]
  obtain ⟨steps⟩ := proof
  induction steps generalizing leaf with
  | nil => simp [refold, pure, Except.pure]
  | cons step steps ih =>
    simp only [refold, List.foldlM_cons, bind_eq_ok] at ih ⊢
    refine exists_congr fun mid => and_congr ?_ ih
    unfold climb
    split_ifs <;> exact combine_eq_ok

theorem hash32_eq_ok {hexStr what : String} {d : Digest} :
    hash32 hexStr what = .ok d ↔ hexDecodeN 32 hexStr = some d := okOr_eq_ok

theorem readStep_eq_ok {step : ProofStepDocument} {s : Step Node} :
    readStep step = .ok s ↔ hexDecodeN 32 step.siblingHash = some s.sibling.hash ∧
      s.sibling.sums = step.siblingSums ∧ s.siblingOnLeft = step.siblingOnLeft := by
  simp only [readStep, bind_eq_ok, hash32_eq_ok, pure_eq_ok]
  constructor
  · rintro ⟨hash, hhash, rfl⟩
    exact ⟨hhash, rfl, rfl⟩
  · rintro ⟨hhash, hsums, hside⟩
    exact ⟨_, hhash, by rw [← hsums, ← hside]⟩

theorem validatedProfile_eq_ok {report : Report} {rules : ProfileRules} :
    validatedProfile report = .ok rules ↔ validate report = .ok rules := mapError_eq_ok

variable (sha256 ed) in
structure Folds (signed : SignedReport) (leaf : Node) (steps : List ProofStepDocument)
    (expectedDigestHex trustedPublicKeyHex : String) (read : List (Step Node)) (folded : Node) :
    Prop where
  digest : reportDigestHex sha256 signed.report = expectedDigestHex
  signer : signed.signature.publicKey = trustedPublicKeyHex
  signature : verifySignature ed trustedPublicKeyHex (reportDigest sha256 signed.report)
    signed.signature.value = .ok ()
  steps : List.Forall₂ (fun d s => readStep d = .ok s) steps read
  fold : refold (Merkle.combine sha256) leaf read = .ok folded
  rootHash : hexDecodeN 32 signed.report.rootHash = some folded.hash
  rootSums : amount folded.sums = amount signed.report.rootSums

theorem verifyAgainstReport_eq_ok {signed : SignedReport} {leaf : Node}
    {steps : List ProofStepDocument} {digestHex key : String} {u : Unit} :
    verifyAgainstReport sha256 ed signed leaf steps digestHex key = .ok u ↔
      ∃ read folded, Folds sha256 ed signed leaf steps digestHex key read folded := by
  simp only [verifyAgainstReport, bind_eq_ok, ensure_eq_ok, mapError_eq_ok, mapM_eq_ok,
    hash32_eq_ok, fold_eq_ok]
  constructor
  · rintro ⟨_, hdigest, _, hsigner, _, hsig, read, hread, rootHash, hroot, folded, hfold, _, rfl, hsums⟩
    refine ⟨read, folded, hdigest, hsigner, hsig, hread, hfold, hroot, ?_⟩
    cases hd : firstSumDisagreement folded.sums signed.report.rootSums with
    | none => exact firstSumDisagreement_eq_none.mp hd
    | some asset => simp [hd] at hsums
  · rintro ⟨read, folded, h⟩
    refine ⟨(), h.digest, (), h.signer, (), h.signature, read, h.steps, folded.hash, h.rootHash,
      folded, h.fold, (), rfl, ?_⟩
    rw [firstSumDisagreement_eq_none.mpr h.rootSums]

theorem verify_eq_ok {signed : SignedReport} {proof : ProofDocument} {key : String} {u : Unit} :
    verify sha256 ed signed proof key = .ok u ↔
      checkReportVersionAndManifest signed.report = .ok () ∧
      (∃ rules, validate signed.report = .ok rules ∧ rules.leaf = .customer) ∧
      proof.formatVersion = proofFormatVersion ∧
      signed.signature.algorithm = signatureAlgorithm ∧
      ∃ salt leaf read folded, hexDecodeN 32 proof.leaf.salt = some salt ∧
        leafNode sha256 salt proof.leaf.userId proof.leaf.balances.entries = .ok leaf ∧
        Folds sha256 ed signed leaf proof.steps proof.reportDigest key read folded := by
  simp only [verify, expectLeafKind, expectVersion, bind_eq_ok, ensure_eq_ok, mapError_eq_ok,
    hash32_eq_ok, validatedProfile_eq_ok, verifyAgainstReport_eq_ok]
  constructor
  · rintro ⟨_, hversion, _, ⟨rules, hrules, hkind⟩, _, hproof, _, halg, salt, hsalt, leaf, hleaf,
      read, folded, h⟩
    exact ⟨hversion, ⟨rules, hrules, hkind⟩, hproof, halg, salt, leaf, read, folded, hsalt, hleaf, h⟩
  · rintro ⟨hversion, ⟨rules, hrules, hkind⟩, hproof, halg, salt, leaf, read, folded, hsalt, hleaf, h⟩
    exact ⟨(), hversion, (), ⟨rules, hrules, hkind⟩, (), hproof, (), halg, salt, hsalt, leaf, hleaf,
      read, folded, h⟩

def CarriesMap (maps : Maps) (required : String) : Prop :=
  ∃ m, maps.get? required = some m ∧ m.isEmpty = false

theorem checkLeafMap_eq_ok {rules : ProfileRules} {leaf : LeafPreimageV2} {required : String}
    {u : Unit} : checkLeafMap rules leaf required = .ok u ↔ CarriesMap leaf.maps required := by
  rw [checkLeafMap, ensure_eq_ok, CarriesMap]
  cases leaf.maps.get? required with
  | none => simp
  | some m => simp

theorem verifyV2_eq_ok {signed : SignedReport} {proof : ProofDocumentV2} {key : String} {u : Unit} :
    verifyV2 sha256 ed signed proof key = .ok u ↔
      checkReportVersionAndManifest signed.report = .ok () ∧
      (∃ rules, validate signed.report = .ok rules ∧ rules.leaf.usesLeafV2 = true ∧
        ∀ required ∈ rules.requiredLeafMaps, CarriesMap proof.leaf.maps required) ∧
      proof.formatVersion = proofFormatVersionV2 ∧
      signed.signature.algorithm = signatureAlgorithm ∧
      ∃ salt leaf read folded, hexDecodeN 32 proof.leaf.salt = some salt ∧
        leafNodeV2 sha256 salt proof.leaf.subjectId proof.leaf.maps = .ok leaf ∧
        Folds sha256 ed signed leaf proof.steps proof.reportDigest key read folded := by
  simp only [verifyV2, expectLeafV2, expectVersion, bind_eq_ok, ensure_eq_ok, mapError_eq_ok,
    hash32_eq_ok, validatedProfile_eq_ok, verifyAgainstReport_eq_ok, forM_eq_ok, checkLeafMap_eq_ok]
  constructor
  · rintro ⟨_, hversion, _, ⟨rules, hrules, hkind⟩, _, hproof, _, halg, rules', hrules', _, hmaps,
      salt, hsalt, leaf, hleaf, read, folded, h⟩
    obtain rfl : rules = rules' := Except.ok.inj (hrules.symm.trans hrules')
    exact ⟨hversion, ⟨rules, hrules, hkind, hmaps⟩, hproof, halg, salt, leaf, read, folded, hsalt,
      hleaf, h⟩
  · rintro ⟨hversion, ⟨rules, hrules, hkind, hmaps⟩, hproof, halg, salt, leaf, read, folded, hsalt,
      hleaf, h⟩
    exact ⟨(), hversion, (), ⟨rules, hrules, hkind⟩, (), hproof, (), halg, rules, hrules, (), hmaps,
      salt, hsalt, leaf, hleaf, read, folded, h⟩

/-- A manifest speaks about known fields only, and agrees with the report about those in its
    body. -/
def ManifestConsistent (report : Report) (manifest : Manifest) : Prop :=
  ∀ e ∈ manifest.fields.entries, e.1 ∈ knownFields ∧
    (e.1 ∈ reportResidentFields → (e.2 = .published ↔ carriesData report e.1 = true))

theorem checkManifestConsistency_eq_ok {report : Report} {manifest : Manifest} {u : Unit} :
    checkManifestConsistency report manifest = .ok u ↔ ManifestConsistent report manifest := by
  unfold checkManifestConsistency ManifestConsistent
  rw [forM_eq_ok]
  refine forall₂_congr fun e _ => ?_
  unfold checkManifestField
  by_cases hknown : e.1 ∈ knownFields
  · by_cases hresident : e.1 ∈ reportResidentFields
    · rw [if_neg (not_not.mpr hknown), if_neg (not_not.mpr hresident)]
      cases e.2 <;> cases carriesData report e.1 <;> simp [hknown, hresident]
    · rw [if_neg (not_not.mpr hknown), if_pos hresident]
      simp [hknown, hresident]
  · rw [if_pos hknown]
    simp [hknown]

theorem checkReportVersionAndManifest_eq_ok {report : Report} {u : Unit} :
    checkReportVersionAndManifest report = .ok u ↔
      (report.formatVersion = reportFormatVersion ∧ report.manifest = none) ∨
      (report.formatVersion = reportFormatVersionV2 ∧
        ∃ m, report.manifest = some m ∧ ManifestConsistent report m) := by
  have hne : reportFormatVersion ≠ reportFormatVersionV2 := by decide
  unfold checkReportVersionAndManifest
  split_ifs with h1 h2
  · simp [h1, hne]
  · cases report.manifest with
    | none => simp [h1]
    | some m => simp [h2, checkManifestConsistency_eq_ok]
  · simp [h1, h2]

end AssuranceLayer.Verify
