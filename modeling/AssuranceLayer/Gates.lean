import AssuranceLayer.Produce

set_option autoImplicit false

/-!
What a verifier of one report demands before it folds anything, read as conditions on the document,
and what a document needs to be accepted under the key it names itself.
-/
namespace AssuranceLayer.Gates
open Fallible Document Digest Profile Sign Verify Produce

/-- A known version with a manifest exactly when it covers one, that agrees with the body, and the
    algorithm this format knows. -/
structure WellDeclared (signed : SignedReport) : Prop where
  manifest : (signed.report.formatVersion = reportFormatVersion ∧ signed.report.manifest = none) ∨
    (signed.report.formatVersion = reportFormatVersionV2 ∧
      ∃ m, signed.report.manifest = some m ∧ ManifestConsistent signed.report m)
  algorithm : signed.signature.algorithm = signatureAlgorithm

theorem wellDeclared_iff {signed : SignedReport} : WellDeclared signed ↔
    checkReportVersionAndManifest signed.report = .ok () ∧
      signed.signature.algorithm = signatureAlgorithm := by
  rw [checkReportVersionAndManifest_eq_ok]
  exact ⟨fun h => ⟨h.manifest, h.algorithm⟩, fun h => ⟨h.1, h.2⟩⟩

variable (sha256 : List UInt8 → Digest) (ed : Ed25519)

def SelfSigned (signed : SignedReport) : Prop :=
  verifySignature ed signed.signature.publicKey (reportDigest sha256 signed.report)
    signed.signature.value = .ok ()

variable {sha256 ed}

theorem signReport_selfSigned (hsig : ed.AcceptsOwn) (report : Report) (signer : ReportSigner) :
    SelfSigned sha256 ed (signReport sha256 ed report signer) :=
  verifySignature_own hsig signer _

/-- A profile for leaves of one balance set is one of two, and asks for at least one total. -/
theorem validate_balances {report : Report} {rules : ProfileRules}
    (hrules : rules ∈ [solvencyLiabilities, solvencyGroup]) :
    validate report = .ok rules ↔ report.profile = rules.name ∧ report.rootSums.isEmpty = false := by
  have hregistry : rules ∈ registry := by
    revert hrules rules
    decide +kernel
  have haggregates : rules.requiredAggregates = ["root_sums"] ∧ rules.coverage = none ∧
      rules.unanimousMaps = [] := by
    revert hrules rules
    decide +kernel
  obtain ⟨hroot, hcoverage, hunanimous⟩ := haggregates
  rw [validate_eq_ok, hroot, hcoverage, hunanimous]
  simp only [List.mem_singleton, forall_eq, reduceCtorEq, false_implies, implies_true,
    List.not_mem_nil, and_true]
  refine and_congr ⟨fun h => (lookup_mem h).2.symm, fun h => lookup_registry h hregistry⟩ ?_
  rw [AggregatePresent, if_pos rfl]

end AssuranceLayer.Gates
