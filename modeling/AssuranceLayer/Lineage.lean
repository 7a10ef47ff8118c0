import AssuranceLayer.Grading

set_option autoImplicit false

/-!
Signed provenance graphs, the check of a graph in its own right, and the paths on which a graph is
relied on to call a figure ledger-derived.
-/
namespace AssuranceLayer.Lineage
open Fallible Document Digest Sign Verify Anchoring Assurance ProvenanceGraph Gates Grading SortedMap

def provenanceFormatVersion : String := "canton-solvency-provenance-v1"

structure SignedProvenance where
  provenance : Provenance
  signature : SignatureBlock
deriving DecidableEq

/-- A source's id joins the ids seen so far. -/
def checkSource (ids : List String) (source : Source) : Except VerificationFailure (List String) := do
  ensure (source.id ∉ ids) (.provenanceInconsistent "" (.sharedId source.id))
  ensure (source.kind = .offLedger → source.basis.any (fun b => trim b ≠ "") = true)
    (.provenanceInconsistent "" (.noBasis source.id))
  return source.id :: ids

def checkDerivation (ids seenFields : List String) (d : Derivation) :
    Except VerificationFailure (List String) := do
  ensure (d.field ∈ assessedFields) (.provenanceInconsistent d.field .unknownField)
  ensure (d.field ∉ seenFields) (.provenanceInconsistent d.field .declaredTwice)
  ensure (d.sources ≠ []) (.provenanceInconsistent d.field .noSources)
  forM d.sources fun id => ensure (id ∈ ids) (.provenanceInconsistent d.field (.undeclaredSource id))
  return d.field :: seenFields

variable (sha256 : List UInt8 → Digest) (ed : Ed25519)

def verifyProvenance (signedReport : SignedReport) (signed : SignedProvenance)
    (trustedPublicKeyHex : String) : Except VerificationFailure Unit := do
  let p := signed.provenance
  expectVersion "provenance.format_version" p.formatVersion provenanceFormatVersion
  ensure (p.reportDigest = reportDigestHex sha256 signedReport.report) .digestMismatch
  ensure (signed.signature.publicKey = trustedPublicKeyHex) .unknownSigner
  expectVersion "signature.algorithm" signed.signature.algorithm signatureAlgorithm
  (verifySignature ed trustedPublicKeyHex (provenanceDigest sha256 p) signed.signature.value).mapError
    fun _ => .badSignature
  let ids ← p.sources.foldlM checkSource []
  let _ ← p.derivations.foldlM (checkDerivation ids) []
  return ()

/-! ## What the check accepts -/

/-- Ids are unique, off-ledger sources say how their figure arrives, and every known field has at
    most one derivation, from declared sources. -/
structure WellFormed (p : Provenance) : Prop where
  ids : (p.sources.map Source.id).Nodup
  basis : ∀ s ∈ p.sources, s.kind = .offLedger → s.basis.any (fun b => trim b ≠ "") = true
  fields : (p.derivations.map Derivation.field).Nodup
  derivations : ∀ d ∈ p.derivations, d.field ∈ assessedFields ∧ d.sources ≠ [] ∧
    ∀ id ∈ d.sources, id ∈ p.sources.map Source.id

/-- The publisher's own graph for this report. -/
structure Genuine (signedReport : SignedReport) (key : String) (signed : SignedProvenance) : Prop where
  version : signed.provenance.formatVersion = provenanceFormatVersion
  digest : signed.provenance.reportDigest = reportDigestHex sha256 signedReport.report
  signer : signed.signature.publicKey = key
  algorithm : signed.signature.algorithm = signatureAlgorithm
  signature : verifySignature ed key (provenanceDigest sha256 signed.provenance)
    signed.signature.value = .ok ()
  graph : WellFormed signed.provenance

variable {sha256 ed}

theorem checkSources_eq_ok {sources : List Source} {seen ids : List String} :
    sources.foldlM checkSource seen = .ok ids ↔
      ids = (sources.map Source.id).reverse ++ seen ∧
      (sources.map Source.id).Nodup ∧ (∀ s ∈ sources, s.id ∉ seen) ∧
      ∀ s ∈ sources, s.kind = .offLedger → s.basis.any (fun b => trim b ≠ "") = true := by
  induction sources generalizing seen with
  | nil =>
    rw [List.foldlM_nil, pure_eq_ok]
    exact ⟨by rintro rfl; simp, by rintro ⟨rfl, _⟩; rfl⟩
  | cons s sources ih =>
    simp only [List.foldlM_cons, checkSource, bind_eq_ok, ensure_eq_ok, pure_eq_ok, List.map_cons,
      List.nodup_cons, List.forall_mem_cons, List.reverse_cons, List.append_assoc, List.singleton_append]
    constructor
    · rintro ⟨_, ⟨_, hfresh, _, hbasis, rfl⟩, hrest⟩
      obtain ⟨rfl, hnodup, hseen, hbases⟩ := ih.mp hrest
      simp only [List.mem_cons, not_or] at hseen
      refine ⟨rfl, ⟨?_, hnodup⟩, ⟨hfresh, fun t ht => (hseen t ht).2⟩, hbasis, hbases⟩
      rintro hmem
      obtain ⟨t, ht, heq⟩ := List.mem_map.mp hmem
      exact (hseen t ht).1 heq
    · rintro ⟨rfl, ⟨hnew, hnodup⟩, ⟨hfresh, hseen⟩, hbasis, hbases⟩
      refine ⟨_, ⟨(), hfresh, (), hbasis, rfl⟩, ih.mpr ⟨rfl, hnodup, fun t ht => ?_, hbases⟩⟩
      rw [List.mem_cons, not_or]
      exact ⟨fun heq => hnew (List.mem_map.mpr ⟨t, ht, heq⟩), hseen t ht⟩

theorem checkDerivations_eq_ok {ids : List String} {derivations : List Derivation}
    {seen : List String} :
    (∃ fields, derivations.foldlM (checkDerivation ids) seen = .ok fields) ↔
      (derivations.map Derivation.field).Nodup ∧ (∀ d ∈ derivations, d.field ∉ seen) ∧
      ∀ d ∈ derivations, d.field ∈ assessedFields ∧ d.sources ≠ [] ∧ ∀ id ∈ d.sources, id ∈ ids := by
  induction derivations generalizing seen with
  | nil => simp [pure, Except.pure]
  | cons d derivations ih =>
    simp only [List.foldlM_cons, checkDerivation, bind_eq_ok, ensure_eq_ok, pure_eq_ok, forM_eq_ok,
      List.map_cons, List.nodup_cons, List.forall_mem_cons]
    constructor
    · rintro ⟨fields, _, ⟨_, hknown, _, hfresh, _, hsome, _, hdeclared, rfl⟩, hrest⟩
      obtain ⟨hnodup, hseen, hall⟩ := ih.mp ⟨fields, hrest⟩
      simp only [List.mem_cons, not_or] at hseen
      refine ⟨⟨?_, hnodup⟩, ⟨hfresh, fun e he => (hseen e he).2⟩, ⟨hknown, hsome, hdeclared⟩, hall⟩
      intro hmem
      obtain ⟨e, he, heq⟩ := List.mem_map.mp hmem
      exact (hseen e he).1 heq
    · rintro ⟨⟨hnew, hnodup⟩, ⟨hfresh, hseen⟩, ⟨hknown, hsome, hdeclared⟩, hall⟩
      have hapart : ∀ e ∈ derivations, e.field ∉ d.field :: seen := fun e he => by
        rw [List.mem_cons, not_or]
        exact ⟨fun heq => hnew (List.mem_map.mpr ⟨e, he, heq⟩), hseen e he⟩
      obtain ⟨fields, hrest⟩ := ih.mpr ⟨hnodup, hapart, hall⟩
      exact ⟨fields, _, ⟨(), hknown, (), hfresh, (), hsome, (), hdeclared, rfl⟩, hrest⟩

theorem verifyProvenance_eq_ok {signedReport : SignedReport} {signed : SignedProvenance} {key : String}
    {u : Unit} : verifyProvenance sha256 ed signedReport signed key = .ok u ↔
      Genuine sha256 ed signedReport key signed := by
  simp only [verifyProvenance, expectVersion, bind_eq_ok, ensure_eq_ok, mapError_eq_ok, pure_eq_ok,
    checkSources_eq_ok]
  constructor
  · rintro ⟨_, hversion, _, hdigest, _, hsigner, _, halgorithm, _, hsig, ids, ⟨rfl, hids, _, hbasis⟩,
      fields, hfields, _⟩
    obtain ⟨hnodup, _, hall⟩ := checkDerivations_eq_ok.mp ⟨fields, hfields⟩
    exact ⟨hversion, hdigest, hsigner, halgorithm, hsig, hids, hbasis, hnodup, by simpa using hall⟩
  · rintro ⟨hversion, hdigest, hsigner, halgorithm, hsig, hids, hbasis, hnodup, hall⟩
    have hfields : ∃ fields, signed.provenance.derivations.foldlM
        (checkDerivation ((signed.provenance.sources.map Source.id).reverse ++ [])) [] = .ok fields :=
      checkDerivations_eq_ok.mpr ⟨hnodup, by simp, by simpa using hall⟩
    obtain ⟨fields, hfields⟩ := hfields
    exact ⟨(), hversion, (), hdigest, (), hsigner, (), halgorithm, (), hsig, _,
      ⟨rfl, hids, by simp, hbasis⟩, fields, hfields, trivial⟩

/-! ## The paths that rely on a graph -/

/-- What the command line and a corpus case load beside the report and the statement. -/
structure LoadedEvidence where
  proof : Option ProofDocument
  anchor : Option Anchor
  attestations : List SignedAttestation
  provenance : Option SignedProvenance
deriving DecidableEq

def LoadedEvidence.evidence (loaded : LoadedEvidence) : Evidence where
  proof := loaded.proof
  anchor := loaded.anchor
  attestations := loaded.attestations
  provenance := loaded.provenance.map SignedProvenance.provenance

structure AssuranceOutcome where
  accepted : SortedMap String AssuranceLevel
  established : SortedMap String (Finset AssuranceLevel)
  failure : Option VerificationFailure

def roleOf (role : String) : AttestorRole := if role = "issuer" then .issuer else .thirdParty

def trustedOf (trustedKey : String) (attestors : SortedMap String String) : TrustedKeys where
  publisher := trustedKey
  attestors := ofList (attestors.entries.map fun e => (e.1, roleOf e.2))

section
variable (sha256 : List UInt8 → Digest) (ed : Ed25519)

/-- The `assurance` verb of the command line. -/
def runAssurance (signed : SignedReport) (statement : AssuranceStatement) (loaded : LoadedEvidence)
    (attestors : SortedMap String String) (trustedKey : String) : AssuranceOutcome :=
  let trusted := trustedOf trustedKey attestors
  let established := establish sha256 ed signed loaded.evidence trusted
  match verifyAssurance sha256 ed signed statement loaded.evidence trusted with
  | .ok accepted => ⟨accepted, established, none⟩
  | .error e => ⟨empty, established, some e⟩

def runCase (signed : SignedReport) (statement : AssuranceStatement) (loaded : LoadedEvidence)
    (attestors : SortedMap String AttestorRole) (key : String) : Except VerificationFailure Unit := do
  let _ ← verifyAssurance sha256 ed signed statement loaded.evidence ⟨key, attestors⟩
  return ()

/-- The report is signed under the key, an anchor pins it, and the graph at hand derives a disclosed
    field from the ledger. -/
structure Upgrades (signed : SignedReport) (evidence : Evidence) (key : String) : Prop where
  signer : signed.signature.publicKey = key
  valid : SelfSigned sha256 ed signed
  anchored : ∃ a, evidence.anchor = some a ∧
    anchors signed.report a (reportDigestHex sha256 signed.report) = true
  derived : ∃ p, evidence.provenance = some p ∧ ∃ field ∈ assessedFields,
    withheld signed.report field = false ∧ derivesFromLedger p field = true

end

theorem ledgerDerived_mem {signed : SignedReport} {evidence : Evidence} {trusted : TrustedKeys}
    {field : String} : .ledgerDerived ∈ levelsOf sha256 ed signed evidence trusted field ↔
      withheld signed.report field = false ∧
      Supports sha256 ed signed evidence trusted field .ledgerDerived := by
  rw [mem_levelsOf]
  split_ifs with h
  · simp [h]
  · simp [h]

/-- Some statement has a field accepted as ledger-derived exactly when the evidence upgrades one. -/
theorem upgrades_iff {signed : SignedReport} {evidence : Evidence} {trusted : TrustedKeys} :
    (∃ statement accepted field, verifyAssurance sha256 ed signed statement evidence trusted = .ok accepted ∧
      accepted.get? field = some .ledgerDerived) ↔
    Upgrades sha256 ed signed evidence trusted.publisher := by
  constructor
  · rintro ⟨statement, accepted, field, hok, hfield⟩
    obtain ⟨_, _, ⟨hsigner, hself⟩, hlevels, rfl⟩ := verifyAssurance_eq_ok.mp hok
    obtain ⟨hassessed, hlevel⟩ := hlevels _ (get?_eq_some.mp hfield)
    obtain ⟨hshown, hanchor, p, hp, hderives⟩ := ledgerDerived_mem.mp hlevel
    exact ⟨hsigner, hself, hanchor, p, hp, field, hassessed, hshown, hderives⟩
  · rintro ⟨hsigner, hself, hanchor, p, hp, field, hassessed, hshown, hderives⟩
    have hlevel : .ledgerDerived ∈ levelsOf sha256 ed signed evidence trusted field :=
      ledgerDerived_mem.mpr ⟨hshown, hanchor, p, hp, hderives⟩
    obtain ⟨accepted, hok, hfield⟩ := (verifyAssurance_declares ⟨hsigner, hself⟩ hassessed).mpr hlevel
    exact ⟨_, accepted, field, hok, hfield⟩

theorem relied_iff {signed : SignedReport} {evidence : Evidence} {trusted : TrustedKeys} {Q : Prop} :
    (∀ statement accepted field, verifyAssurance sha256 ed signed statement evidence trusted = .ok accepted →
      accepted.get? field = some .ledgerDerived → Q) ↔
    ¬ Upgrades sha256 ed signed evidence trusted.publisher ∨ Q := by
  rw [← upgrades_iff, ← imp_iff_not_or]
  simp only [forall_exists_index, and_imp]

theorem runAssurance_accepts {signed : SignedReport} {statement : AssuranceStatement}
    {loaded : LoadedEvidence} {attestors : SortedMap String String} {key : String}
    {accepted : SortedMap String AssuranceLevel} :
    (runAssurance sha256 ed signed statement loaded attestors key).failure = none ∧
      (runAssurance sha256 ed signed statement loaded attestors key).accepted = accepted ↔
    verifyAssurance sha256 ed signed statement loaded.evidence (trustedOf key attestors) =
      .ok accepted := by
  unfold runAssurance
  cases h : verifyAssurance sha256 ed signed statement loaded.evidence (trustedOf key attestors) with
  | ok levels => simp [h]
  | error e => simp [h]

theorem runCase_eq_ok {signed : SignedReport} {statement : AssuranceStatement} {loaded : LoadedEvidence}
    {attestors : SortedMap String AttestorRole} {key : String} {u : Unit} :
    runCase sha256 ed signed statement loaded attestors key = .ok u ↔
      verifyAssurance sha256 ed signed statement loaded.evidence ⟨key, attestors⟩ =
        .ok statement.levels := by
  simp only [runCase, bind_eq_ok, pure_eq_ok, and_true]
  constructor
  · rintro ⟨accepted, hok⟩
    obtain ⟨_, _, _, _, rfl⟩ := verifyAssurance_eq_ok.mp hok
    exact hok
  · exact fun hok => ⟨_, hok⟩

variable (sha256 ed) in
/-- A figure accepted as ledger-derived rests on the publisher's own graph for the report exactly
    when the evidence upgrades nothing or carries that graph: in the library, on the command line
    and in a corpus case. -/
theorem ledger_derived_iff (signed : SignedReport) :
    (∀ evidence trusted,
      (∀ statement accepted field,
        verifyAssurance sha256 ed signed statement evidence trusted = .ok accepted →
        accepted.get? field = some .ledgerDerived → ∃ p block, evidence.provenance = some p ∧
          verifyProvenance sha256 ed signed ⟨p, block⟩ trusted.publisher = .ok ()) ↔
      ¬ Upgrades sha256 ed signed evidence trusted.publisher ∨ ∃ p block,
        evidence.provenance = some p ∧ Genuine sha256 ed signed trusted.publisher ⟨p, block⟩) ∧
    (∀ loaded attestors key,
      (∀ statement field,
        (runAssurance sha256 ed signed statement loaded attestors key).failure = none →
        (runAssurance sha256 ed signed statement loaded attestors key).accepted.get? field =
          some .ledgerDerived → ∃ graph, loaded.provenance = some graph ∧
          verifyProvenance sha256 ed signed graph key = .ok ()) ↔
      ¬ Upgrades sha256 ed signed loaded.evidence key ∨ ∃ graph,
        loaded.provenance = some graph ∧ Genuine sha256 ed signed key graph) ∧
    ∀ loaded attestors key,
      (∀ statement field, runCase sha256 ed signed statement loaded attestors key = .ok () →
        statement.levels.get? field = some .ledgerDerived → ∃ graph,
          loaded.provenance = some graph ∧
          verifyProvenance sha256 ed signed graph key = .ok ()) ↔
      ¬ Upgrades sha256 ed signed loaded.evidence key ∨ ∃ graph,
        loaded.provenance = some graph ∧ Genuine sha256 ed signed key graph := by
  simp only [verifyProvenance_eq_ok]
  refine ⟨fun evidence trusted => relied_iff, fun loaded attestors key => ?_,
    fun loaded attestors key => ?_⟩
  · rw [← show (trustedOf key attestors).publisher = key from rfl, ← relied_iff]
    constructor
    · intro h statement accepted field hok hfield
      obtain ⟨hnone, rfl⟩ := runAssurance_accepts.mpr hok
      exact h statement field hnone hfield
    · intro h statement field hnone hfield
      exact h statement _ field (runAssurance_accepts.mp ⟨hnone, rfl⟩) hfield
  · rw [← show (TrustedKeys.mk key attestors).publisher = key from rfl, ← relied_iff]
    constructor
    · intro h statement accepted field hok hfield
      obtain ⟨_, _, _, _, rfl⟩ := verifyAssurance_eq_ok.mp hok
      exact h statement field (runCase_eq_ok.mpr hok) hfield
    · intro h statement field hok hfield
      exact h statement _ field (runCase_eq_ok.mp hok) hfield

/-! ## A graph from nowhere -/

def strayGraph : Provenance where
  formatVersion := provenanceFormatVersion
  reportDigest := ""
  sources := [⟨"node", .participant, "participant::1", none⟩]
  derivations := [⟨"root_sums", ["node"], "sum of active holdings"⟩]

def strayEvidence : LoadedEvidence where
  proof := none
  anchor := some (anchorReport Sha256.sha256 (signedSilent none) none)
  attestations := []
  provenance := some ⟨strayGraph, ⟨"none", "", ""⟩⟩

theorem stray_upgrades : Upgrades Sha256.sha256 (goldenEd25519 []) (signedSilent none)
    strayEvidence.evidence goldenTrust.publisher := by
  have hanchors : ∀ digest, anchors (silentReport none)
      { anchorReport Sha256.sha256 (signedSilent none) none with reportDigest := digest } digest = true :=
    fun digest => decide_eq_true ⟨rfl, rfl, rfl, rfl, rfl, rfl⟩
  exact ⟨rfl, signReport_selfSigned (recorded_acceptsOwn _ _ _) (silentReport none) goldenSigner,
    ⟨_, rfl, hanchors _⟩, strayGraph, rfl, "root_sums", by decide, rfl, by decide +kernel⟩

/-- The level is granted on all three paths on a graph that is bound to no report and signed by
    nobody. -/
theorem ledger_derived_stray : ∃ statement field, statement.levels.get? field = some .ledgerDerived ∧
    verifyAssurance Sha256.sha256 (goldenEd25519 []) (signedSilent none) statement
      strayEvidence.evidence goldenTrust = .ok statement.levels ∧
    ((runAssurance Sha256.sha256 (goldenEd25519 []) (signedSilent none) statement strayEvidence empty
        goldenTrust.publisher).failure = none ∧
      (runAssurance Sha256.sha256 (goldenEd25519 []) (signedSilent none) statement strayEvidence empty
        goldenTrust.publisher).accepted = statement.levels) ∧
    runCase Sha256.sha256 (goldenEd25519 []) (signedSilent none) statement strayEvidence empty
      goldenTrust.publisher = .ok () ∧
    ∀ block, verifyProvenance Sha256.sha256 (goldenEd25519 []) (signedSilent none) ⟨strayGraph, block⟩
      goldenTrust.publisher ≠ .ok () := by
  obtain ⟨statement, accepted, field, hok, hfield⟩ := upgrades_iff.mpr stray_upgrades
  obtain ⟨_, _, _, _, rfl⟩ := verifyAssurance_eq_ok.mp hok
  refine ⟨statement, field, hfield, hok, runAssurance_accepts.mpr hok, runCase_eq_ok.mpr hok,
    fun block h => ?_⟩
  have hdigest := (verifyProvenance_eq_ok.mp h).digest
  have hempty : [] = (reportDigest Sha256.sha256 (silentReport none)).toList := hexEncode_inj hdigest
  have hlen := congrArg List.length hempty
  rw [List.Vector.toList_length] at hlen
  exact absurd hlen (by decide)

end AssuranceLayer.Lineage
