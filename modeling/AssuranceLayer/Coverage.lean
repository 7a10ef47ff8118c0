import AssuranceLayer.Gates
import AssuranceLayer.Instant

set_option autoImplicit false

/-!
Coverage: a custody report against a liabilities report, asset by asset, and what has to be true of
the two reports for the verdict to mean that what is owed is held.
-/
namespace AssuranceLayer.Coverage
open Fallible Sums Merkle Document Digest Profile Sign Produce Verify Gates SortedMap

def coverageFormatVersion : String := "canton-solvency-coverage-v1"

structure CoverageStatement where
  formatVersion : String
  custodyReportDigest : String
  liabilitiesReportDigest : String
  custodyBasis : String
deriving DecidableEq

structure AssetCoverage where
  asset : String
  held : U128
  owed : U128
deriving DecidableEq

def AssetCoverage.covered (a : AssetCoverage) : Bool := a.owed ≤ a.held

structure CoverageOutcome where
  assets : List AssetCoverage
deriving DecidableEq

def CoverageOutcome.fullyCovered (outcome : CoverageOutcome) : Bool :=
  outcome.assets.all AssetCoverage.covered

def expectProfile (signed : SignedReport) (wanted : String) : Except VerificationFailure Unit :=
  ensure (signed.report.profile = wanted) (.profile (.expected wanted signed.report.profile))

/-- The comparison is driven by what is owed. -/
def assetCoverage (custody : Report) (e : String × U128) : AssetCoverage where
  asset := e.1
  held := (custody.rootSums.get? (qualified "held" e.1)).getD 0
  owed := e.2

variable (sha256 : List UInt8 → Digest) (ed : Ed25519)

def checkSignature (signed : SignedReport) (trustedKey : String) : Except VerificationFailure Unit := do
  ensure (signed.signature.publicKey = trustedKey) .unknownSigner
  (verifySignature ed trustedKey (reportDigest sha256 signed.report) signed.signature.value).mapError fun
    | .badSignature => .badSignature
    | other => .malformed (.signature other)

def verifyCoverage (custody liabilities : SignedReport) (statement : CoverageStatement)
    (custodyTrustedKey liabilitiesTrustedKey : String) (maxSkewSeconds : U64) :
    Except VerificationFailure CoverageOutcome := do
  expectVersion "coverage.format_version" statement.formatVersion coverageFormatVersion
  expectProfile custody "coverage.custody"
  expectProfile liabilities "solvency.liabilities"
  ensure (reportDigestHex sha256 custody.report = statement.custodyReportDigest) .digestMismatch
  ensure (reportDigestHex sha256 liabilities.report = statement.liabilitiesReportDigest) .digestMismatch
  checkSignature sha256 ed custody custodyTrustedKey
  checkSignature sha256 ed liabilities liabilitiesTrustedKey
  let skew ← okOr (Instant.skew custody.report.snapshotTime liabilities.report.snapshotTime)
    (.malformed (.notTimestamps custody.report.snapshotTime liabilities.report.snapshotTime))
  ensure (skew ≤ maxSkewSeconds.val) (.temporalMismatch custody.report.snapshotTime
    liabilities.report.snapshotTime skew maxSkewSeconds)
  return ⟨liabilities.report.rootSums.entries.map (assetCoverage custody.report)⟩

/-- The two times are instants at most this far apart. -/
def Within (maxSkewSeconds : U64) (custody liabilities : Report) : Prop :=
  ∃ s, Instant.skew custody.snapshotTime liabilities.snapshotTime = some s ∧ s ≤ maxSkewSeconds.val

def Covers (custody liabilities : Report) : Prop :=
  ∀ a ∈ liabilities.rootSums.keys,
    amount liabilities.rootSums a ≤ amount custody.rootSums (qualified "held" a)

/-- A full verdict means that both reports are well formed on their own, that they are as of one
    moment, and that what is owed is held. -/
structure SoundVerdict (maxSkewSeconds : U64) (custody liabilities : SignedReport) : Prop where
  versions : checkReportVersionAndManifest custody.report = .ok () ∧
    checkReportVersionAndManifest liabilities.report = .ok ()
  profiles : validate custody.report = .ok coverageCustody ∧
    validate liabilities.report = .ok solvencyLiabilities
  totals : (∃ k ∈ custody.report.rootSums.keys, startsWith "held/" k = true) ∧
    liabilities.report.rootSums.isEmpty = false
  algorithms : custody.signature.algorithm = signatureAlgorithm ∧
    liabilities.signature.algorithm = signatureAlgorithm
  moment : Within maxSkewSeconds custody.report liabilities.report
  covers : Covers custody.report liabilities.report

/-- The reports are of the two profiles, signed, as of one moment, and cover asset by asset. -/
structure Pairs (maxSkewSeconds : U64) (custody liabilities : SignedReport) : Prop where
  profiles : custody.report.profile = "coverage.custody" ∧
    liabilities.report.profile = "solvency.liabilities"
  signed : SelfSigned sha256 ed custody ∧ SelfSigned sha256 ed liabilities
  moment : Within maxSkewSeconds custody.report liabilities.report
  covers : Covers custody.report liabilities.report

variable {sha256 ed}

theorem checkSignature_eq_ok {signed : SignedReport} {key : String} {u : Unit} :
    checkSignature sha256 ed signed key = .ok u ↔
      signed.signature.publicKey = key ∧ SelfSigned sha256 ed signed := by
  simp only [checkSignature, bind_eq_ok, ensure_eq_ok, mapError_eq_ok, SelfSigned]
  constructor
  · rintro ⟨_, rfl, h⟩
    exact ⟨rfl, h⟩
  · rintro ⟨rfl, h⟩
    exact ⟨(), rfl, h⟩

theorem fullyCovered_iff {custody liabilities : Report} :
    (CoverageOutcome.mk (liabilities.rootSums.entries.map (assetCoverage custody))).fullyCovered = true ↔
      Covers custody liabilities := by
  rw [CoverageOutcome.fullyCovered, List.all_eq_true]
  simp only [List.mem_map, forall_exists_index, and_imp, forall_apply_eq_imp_iff₂, Covers]
  constructor
  · intro h a ha
    obtain ⟨v, hv⟩ := Option.isSome_iff_exists.mp (mem_keys.mp ha)
    rw [amount_of_get? hv]
    exact of_decide_eq_true (h (a, v) (get?_eq_some.mp hv))
  · rintro h ⟨a, v⟩ he
    have ha := h a (List.mem_map_of_mem he)
    rw [amount_of_get? (get?_eq_some.mpr he)] at ha
    exact decide_eq_true ha

/-- Some statement and keys make a full verdict exactly when the two reports pair. -/
theorem fullVerdict_iff {custody liabilities : SignedReport} {maxSkewSeconds : U64} :
    (∃ statement custodyKey liabilitiesKey outcome,
      verifyCoverage sha256 ed custody liabilities statement custodyKey liabilitiesKey maxSkewSeconds =
        .ok outcome ∧ outcome.fullyCovered = true) ↔
    Pairs sha256 ed maxSkewSeconds custody liabilities := by
  simp only [verifyCoverage, expectVersion, expectProfile, bind_eq_ok, ensure_eq_ok, okOr_eq_ok,
    checkSignature_eq_ok, pure_eq_ok]
  constructor
  · rintro ⟨statement, _, _, _, ⟨_, _, _, hc, _, hl, _, _, _, _, _, ⟨_, hsc⟩, _, ⟨_, hsl⟩, s, hs, _, hle,
      rfl⟩, hfull⟩
    exact ⟨⟨hc, hl⟩, ⟨hsc, hsl⟩, ⟨s, hs, hle⟩, fullyCovered_iff.mp hfull⟩
  · rintro ⟨⟨hc, hl⟩, ⟨hsc, hsl⟩, ⟨s, hs, hle⟩, hcovers⟩
    exact ⟨⟨coverageFormatVersion, reportDigestHex sha256 custody.report,
      reportDigestHex sha256 liabilities.report, ""⟩, _, _, _, ⟨(), rfl, (), hc, (), hl, (), rfl, (), rfl,
      (), ⟨rfl, hsc⟩, (), ⟨rfl, hsl⟩, s, hs, (), hle, rfl⟩, fullyCovered_iff.mpr hcovers⟩

theorem validate_custody {report : Report} (h : report.profile = "coverage.custody") :
    validate report = .ok coverageCustody ↔
      ∃ k ∈ report.rootSums.keys, startsWith "held/" k = true := by
  have hlookup : lookup report.profile = some coverageCustody := lookup_registry h (by simp [registry])
  have hqualified : ∀ pre, qualifiedPrefix "held/*" = some pre ↔ pre = "held/" := by
    have hheld : qualifiedPrefix "held/*" = some "held/" := by decide +kernel
    simp [hheld, eq_comm]
  rw [validate_eq_ok]
  simp only [coverageCustody, List.mem_singleton, forall_eq, reduceCtorEq, false_implies,
    implies_true, List.not_mem_nil, and_true, AggregatePresent, String.reduceEq, if_false, hqualified,
    exists_eq_left]
  exact and_iff_right hlookup

variable (sha256 ed) in
/-- Full verdicts about two reports are sound exactly when the reports do not pair, or are well
    declared and neither set of totals is empty of what its profile is about. -/
theorem full_verdict_sound_iff (custody liabilities : SignedReport) (maxSkewSeconds : U64) :
    (∀ statement custodyKey liabilitiesKey outcome,
      verifyCoverage sha256 ed custody liabilities statement custodyKey liabilitiesKey maxSkewSeconds =
        .ok outcome → outcome.fullyCovered = true → SoundVerdict maxSkewSeconds custody liabilities) ↔
    ¬ Pairs sha256 ed maxSkewSeconds custody liabilities ∨
      WellDeclared custody ∧ WellDeclared liabilities ∧
      liabilities.report.rootSums.isEmpty = false ∧
      ∃ k ∈ custody.report.rootSums.keys, startsWith "held/" k = true := by
  rw [← fullVerdict_iff, ← imp_iff_not_or]
  simp only [forall_exists_index, and_imp, wellDeclared_iff]
  refine forall_congr' fun statement => forall_congr' fun custodyKey =>
    forall_congr' fun liabilitiesKey => forall_congr' fun outcome => forall_congr' fun hok =>
    forall_congr' fun hfull => ?_
  have hpairs := fullVerdict_iff.mp ⟨statement, custodyKey, liabilitiesKey, outcome, hok, hfull⟩
  constructor
  · intro h
    exact ⟨⟨h.versions.1, h.algorithms.1⟩, ⟨h.versions.2, h.algorithms.2⟩, h.totals.2, h.totals.1⟩
  · rintro ⟨⟨hvc, hac⟩, ⟨hvl, hal⟩, htotals, hheld⟩
    exact ⟨⟨hvc, hvl⟩, ⟨(validate_custody hpairs.profiles.1).mpr hheld,
      (validate_balances List.mem_cons_self).mpr ⟨hpairs.profiles.2, htotals⟩⟩, ⟨hheld, htotals⟩,
      ⟨hac, hal⟩, hpairs.moment, hpairs.covers⟩

/-! ## Two verdicts that say nothing -/

def sampleReport (formatVersion profile : String) (rootSums : AmountMap) : Report where
  formatVersion := formatVersion
  profile := profile
  publisher := "venue::one"
  snapshotTime := "2026-09-09T10:00:00Z"
  ledgerOffset := "000000000000003042"
  rootHash := hexEncode (List.replicate 32 0xaa)
  leafCount := 1
  rootSums := rootSums
  markPrices := empty
  disclosures := ⟨empty, 0, empty⟩
  manifest := none

def signedSample (formatVersion algorithm profile : String) (rootSums : AmountMap) : SignedReport :=
  let signed := signReport Sha256.sha256 (goldenEd25519 []) (sampleReport formatVersion profile rootSums)
    goldenSigner
  { signed with signature := { signed.signature with algorithm := algorithm } }

def custodySample (formatVersion algorithm : String) (held : AmountMap) : SignedReport :=
  signedSample formatVersion algorithm "coverage.custody" held

def liabilitiesSample (formatVersion algorithm : String) (owed : AmountMap) : SignedReport :=
  signedSample formatVersion algorithm "solvency.liabilities" owed

theorem sample_fullVerdict (formatVersion algorithm : String) {held owed : AmountMap}
    (h : ∀ a ∈ owed.keys, amount owed a ≤ amount held (qualified "held" a)) :
    ∃ statement custodyKey liabilitiesKey outcome, verifyCoverage Sha256.sha256 (goldenEd25519 [])
      (custodySample formatVersion algorithm held) (liabilitiesSample formatVersion algorithm owed)
      statement custodyKey liabilitiesKey 0 = .ok outcome ∧ outcome.fullyCovered = true := by
  have hself : ∀ profile rootSums, SelfSigned Sha256.sha256 (goldenEd25519 [])
      (signedSample formatVersion algorithm profile rootSums) := fun profile rootSums =>
    signReport_selfSigned (recorded_acceptsOwn _ _ _) (sampleReport formatVersion profile rootSums)
      goldenSigner
  have hskew : Instant.skew "2026-09-09T10:00:00Z" "2026-09-09T10:00:00Z" = some 0 := by decide +kernel
  exact fullVerdict_iff.mpr ⟨⟨rfl, rfl⟩, ⟨hself _ _, hself _ _⟩, ⟨0, hskew, le_refl 0⟩, h⟩

/-- Nothing owed is fully covered by nothing held, and so is something owed under a version nobody
    knows, by reports that name no algorithm. -/
theorem full_verdict_unsound :
    ((∃ statement custodyKey liabilitiesKey outcome, verifyCoverage Sha256.sha256 (goldenEd25519 [])
        (custodySample reportFormatVersion "ed25519" empty)
        (liabilitiesSample reportFormatVersion "ed25519" empty) statement custodyKey liabilitiesKey 0 =
          .ok outcome ∧ outcome.fullyCovered = true) ∧
      ¬ SoundVerdict 0 (custodySample reportFormatVersion "ed25519" empty)
        (liabilitiesSample reportFormatVersion "ed25519" empty)) ∧
    (∃ statement custodyKey liabilitiesKey outcome, verifyCoverage Sha256.sha256 (goldenEd25519 [])
        (custodySample "canton-solvency-report-v9" "none" (ofList [("held/USDA", 7)]))
        (liabilitiesSample "canton-solvency-report-v9" "none" (ofList [("USDA", 7)])) statement custodyKey
          liabilitiesKey 0 = .ok outcome ∧ outcome.fullyCovered = true) ∧
      ¬ SoundVerdict 0 (custodySample "canton-solvency-report-v9" "none" (ofList [("held/USDA", 7)]))
        (liabilitiesSample "canton-solvency-report-v9" "none" (ofList [("USDA", 7)])) := by
  refine ⟨⟨sample_fullVerdict _ _ ?_, fun h => ?_⟩, sample_fullVerdict _ _ ?_, fun h => ?_⟩
  · simp [keys, empty]
  · exact absurd h.totals.2 (by decide)
  · decide +kernel
  · exact absurd h.algorithms.1 (by decide)

end AssuranceLayer.Coverage
