import AssuranceLayer.Anchoring
import AssuranceLayer.Completeness
import AssuranceLayer.Gates
import AssuranceLayer.ProvenanceGraph

set_option autoImplicit false

/-!
Assurance levels: what the evidence substantiates for each field of a report, the check of what a
publisher declares, and what of a signed report the grading depends on.
-/
namespace AssuranceLayer.Grading
open Fallible Document Digest Profile Sign Produce Verify Anchoring Assurance ProvenanceGraph Gates
open Completeness SortedMap

def assuranceFormatVersion : String := "canton-solvency-assurance-v1"
def attestationFormatVersion : String := "canton-solvency-attestation-v1"

structure SignedAttestation where
  attestation : Attestation
  signature : SignatureBlock
deriving DecidableEq

structure AssuranceStatement where
  formatVersion : String
  reportDigest : String
  levels : SortedMap String AssuranceLevel
deriving DecidableEq

/-- Everything the verifier was handed besides the report itself. -/
structure Evidence where
  proof : Option ProofDocument
  anchor : Option Anchor
  attestations : List SignedAttestation
  provenance : Option Provenance
deriving DecidableEq

structure TrustedKeys where
  publisher : String
  attestors : SortedMap String AttestorRole
deriving DecidableEq

def assessedFields : List String := reportResidentFields

/-- The manifest says so and the report carries nothing for the field. -/
def withheld (report : Report) (field : String) : Bool :=
  let declared := report.manifest.any fun m => m.fields.get? field = some .withheld
  declared && !carriesData report field

def anchors (report : Report) (anchor : Anchor) (digest : String) : Bool :=
  anchor.formatVersion = anchorFormatVersion ∧ anchor.reportDigest = digest ∧
    anchor.rootHash = report.rootHash ∧ anchor.snapshotTime = report.snapshotTime ∧
    anchor.ledgerOffset = report.ledgerOffset ∧ anchor.publisher = report.publisher

def derivesFromLedger (p : Provenance) (field : String) : Bool :=
  match p.derivations.find? fun d => d.field = field with
  | none => false
  | some derivation =>
    derivation.sources.any fun id => p.sources.any fun s => s.id = id ∧ s.kind.onLedger

def attestedLevel : AttestorRole → AssuranceLevel
  | .issuer => .issuerAttested
  | .thirdParty => .thirdPartyAttested

variable (sha256 : List UInt8 → Digest) (ed : Ed25519)

/-- Trust is by key and by role. -/
def attests (trusted : TrustedKeys) (digest field : String) (s : SignedAttestation) : Bool :=
  s.attestation.formatVersion = attestationFormatVersion ∧ s.attestation.field = field ∧
    s.attestation.reportDigest = digest ∧
    trusted.attestors.get? s.signature.publicKey = some s.attestation.role ∧
    s.signature.algorithm = signatureAlgorithm ∧
    verifySignature ed s.signature.publicKey (attestationDigest sha256 s.attestation)
      s.signature.value = .ok ()

def grant (substantiated : Bool) (level : AssuranceLevel) (levels : Finset AssuranceLevel) :
    Finset AssuranceLevel :=
  if substantiated then insert level levels else levels

def levelsOf (signed : SignedReport) (evidence : Evidence) (trusted : TrustedKeys) (field : String) :
    Finset AssuranceLevel :=
  let report := signed.report
  let digest := reportDigestHex sha256 report
  -- Only `root_sums` is bound into the tree.
  let recomputed := field = "root_sums" ∧
    evidence.proof.any fun p => verify sha256 ed signed p trusted.publisher = .ok ()
  let onLedger := (evidence.anchor.any fun a => anchors report a digest) &&
    evidence.provenance.any fun p => derivesFromLedger p field
  if withheld report field then {.notDisclosed}
  else
    evidence.attestations.foldl
      (fun levels s => grant (attests sha256 ed trusted digest field s)
        (attestedLevel s.attestation.role) levels)
      (grant onLedger .ledgerDerived (grant recomputed .cryptographicallyVerified {.claimedOnly}))

def establish (signed : SignedReport) (evidence : Evidence) (trusted : TrustedKeys) :
    SortedMap String (Finset AssuranceLevel) :=
  ofList (assessedFields.map fun field => (field, levelsOf sha256 ed signed evidence trusted field))

def accept (established : SortedMap String (Finset AssuranceLevel))
    (accepted : SortedMap String AssuranceLevel) (e : String × AssuranceLevel) :
    Except VerificationFailure (SortedMap String AssuranceLevel) := do
  let supported := (established.get? e.1).getD ∅
  ensure (e.2 ∈ supported) (.overClaimed e.1 e.2 supported)
  return accepted.insert e.1 e.2

def verifyAssurance (signed : SignedReport) (statement : AssuranceStatement) (evidence : Evidence)
    (trusted : TrustedKeys) : Except VerificationFailure (SortedMap String AssuranceLevel) := do
  expectVersion "assurance.format_version" statement.formatVersion assuranceFormatVersion
  ensure (statement.reportDigest = reportDigestHex sha256 signed.report) .digestMismatch
  ensure (signed.signature.publicKey = trusted.publisher) .unknownSigner
  (verifySignature ed trusted.publisher (reportDigest sha256 signed.report)
    signed.signature.value).mapError fun _ => .badSignature
  forM statement.levels.keys fun field =>
    ensure (field ∈ assessedFields) (.malformed (.unsubstantiable field))
  statement.levels.entries.foldlM (accept (establish sha256 ed signed evidence trusted)) empty

/-! ## What substantiates a level -/

/-- What each level needs, of a field that is not withheld. -/
def Supports (signed : SignedReport) (evidence : Evidence) (trusted : TrustedKeys) (field : String) :
    AssuranceLevel → Prop
  | .notDisclosed => False
  | .claimedOnly => True
  | .issuerAttested => ∃ s ∈ evidence.attestations, s.attestation.role = .issuer ∧
      attests sha256 ed trusted (reportDigestHex sha256 signed.report) field s = true
  | .thirdPartyAttested => ∃ s ∈ evidence.attestations, s.attestation.role = .thirdParty ∧
      attests sha256 ed trusted (reportDigestHex sha256 signed.report) field s = true
  | .ledgerDerived =>
      (∃ a, evidence.anchor = some a ∧
        anchors signed.report a (reportDigestHex sha256 signed.report) = true) ∧
      ∃ p, evidence.provenance = some p ∧ derivesFromLedger p field = true
  | .cryptographicallyVerified => field = "root_sums" ∧
      ∃ p, evidence.proof = some p ∧ verify sha256 ed signed p trusted.publisher = .ok ()

variable {sha256 ed}

@[simp] theorem mem_grant {c : Bool} {level l : AssuranceLevel} {levels : Finset AssuranceLevel} :
    l ∈ grant c level levels ↔ c = true ∧ l = level ∨ l ∈ levels := by
  cases c <;> simp [grant]

theorem mem_foldl_grant {c : SignedAttestation → Bool} {l : List SignedAttestation}
    {levels : Finset AssuranceLevel} {level : AssuranceLevel} :
    level ∈ l.foldl (fun levels s => grant (c s) (attestedLevel s.attestation.role) levels) levels ↔
      level ∈ levels ∨ ∃ s ∈ l, c s = true ∧ level = attestedLevel s.attestation.role := by
  induction l generalizing levels with
  | nil => simp
  | cons s l ih =>
    rw [List.foldl_cons, ih, List.exists_mem_cons_iff, mem_grant]
    tauto

theorem attestedLevel_eq {role : AttestorRole} {level : AssuranceLevel} :
    level = attestedLevel role ↔ match level with
      | .issuerAttested => role = .issuer
      | .thirdPartyAttested => role = .thirdParty
      | _ => False := by
  cases role <;> cases level <;> simp [attestedLevel]

theorem mem_levelsOf {signed : SignedReport} {evidence : Evidence} {trusted : TrustedKeys}
    {field : String} {level : AssuranceLevel} :
    level ∈ levelsOf sha256 ed signed evidence trusted field ↔
      if withheld signed.report field = true then level = .notDisclosed
      else Supports sha256 ed signed evidence trusted field level := by
  unfold levelsOf
  by_cases hwithheld : withheld signed.report field = true
  · rw [if_pos hwithheld, if_pos hwithheld, Finset.mem_singleton]
  rw [if_neg hwithheld, if_neg hwithheld, mem_foldl_grant]
  cases level <;> simp [Supports, attestedLevel_eq, Option.any_eq_true, and_comm]

theorem establish_get? {signed : SignedReport} {evidence : Evidence} {trusted : TrustedKeys}
    {field : String} (h : field ∈ assessedFields) :
    (establish sha256 ed signed evidence trusted).get? field =
      some (levelsOf sha256 ed signed evidence trusted field) := by
  have hkeys : ((assessedFields.map fun field =>
      (field, levelsOf sha256 ed signed evidence trusted field)).map Prod.fst).Nodup := by
    rw [List.map_map]
    exact (List.map_id assessedFields).symm ▸ (by decide +kernel : assessedFields.Nodup)
  exact (get?_ofList hkeys).mpr (List.mem_map_of_mem h)

theorem accept_all {established : SortedMap String (Finset AssuranceLevel)}
    {entries : List (String × AssuranceLevel)} {m accepted : SortedMap String AssuranceLevel} :
    entries.foldlM (accept established) m = .ok accepted ↔
      (∀ e ∈ entries, e.2 ∈ (established.get? e.1).getD ∅) ∧
        accepted = entries.foldl (fun m e => m.insert e.1 e.2) m := by
  induction entries generalizing m with
  | nil => simp [pure, Except.pure, eq_comm]
  | cons e entries ih =>
    simp only [List.foldlM_cons, accept, bind_eq_ok, ensure_eq_ok, pure_eq_ok, List.foldl_cons,
      List.forall_mem_cons, and_assoc]
    constructor
    · rintro ⟨_, ⟨_, hsupported, rfl⟩, hrest⟩
      exact ⟨hsupported, ih.mp hrest⟩
    · rintro ⟨hsupported, hrest⟩
      exact ⟨_, ⟨(), hsupported, rfl⟩, ih.mpr hrest⟩

/-- An accepted statement is returned as it is: every level it declares is substantiated. -/
theorem verifyAssurance_eq_ok {signed : SignedReport} {statement : AssuranceStatement}
    {evidence : Evidence} {trusted : TrustedKeys} {accepted : SortedMap String AssuranceLevel} :
    verifyAssurance sha256 ed signed statement evidence trusted = .ok accepted ↔
      statement.formatVersion = assuranceFormatVersion ∧
      statement.reportDigest = reportDigestHex sha256 signed.report ∧
      (signed.signature.publicKey = trusted.publisher ∧ SelfSigned sha256 ed signed) ∧
      (∀ e ∈ statement.levels.entries, e.1 ∈ assessedFields ∧
        e.2 ∈ levelsOf sha256 ed signed evidence trusted e.1) ∧ accepted = statement.levels := by
  have hkeys : (∀ field ∈ statement.levels.keys, field ∈ assessedFields) ↔
      ∀ e ∈ statement.levels.entries, e.1 ∈ assessedFields := List.forall_mem_map
  have hcollected : statement.levels.entries.foldl (fun m e => m.insert e.1 e.2) empty =
      statement.levels := ofList_entries statement.levels
  simp only [verifyAssurance, expectVersion, bind_eq_ok, ensure_eq_ok, mapError_eq_ok, forM_eq_ok,
    hkeys, accept_all, hcollected]
  constructor
  · rintro ⟨_, hversion, _, hdigest, _, hsigner, _, hsig, _, hfields, hlevels, rfl⟩
    refine ⟨hversion, hdigest, ⟨hsigner, ?_⟩, fun e he => ⟨hfields e he, ?_⟩, rfl⟩
    · rw [SelfSigned, hsigner]
      exact hsig
    · have hlevel := hlevels e he
      rwa [establish_get? (hfields e he), Option.getD_some] at hlevel
  · rintro ⟨hversion, hdigest, ⟨hsigner, hself⟩, hlevels, rfl⟩
    rw [SelfSigned, hsigner] at hself
    refine ⟨(), hversion, (), hdigest, (), hsigner, (), hself, (), fun e he => (hlevels e he).1,
      fun e he => ?_, rfl⟩
    rw [establish_get? (hlevels e he).1, Option.getD_some]
    exact (hlevels e he).2

def declares (sha256 : List UInt8 → Digest) (report : Report) (field : String) (level : AssuranceLevel) :
    AssuranceStatement where
  formatVersion := assuranceFormatVersion
  reportDigest := reportDigestHex sha256 report
  levels := ofList [(field, level)]

theorem declared_iff {field q : String} {level l : AssuranceLevel} {report : Report} :
    (q, l) ∈ (declares sha256 report field level).levels.entries ↔ q = field ∧ l = level := by
  have hentries : (declares sha256 report field level).levels.entries = [(field, level)] := rfl
  rw [hentries, List.mem_singleton, Prod.mk.injEq]

theorem verifyAssurance_declares {signed : SignedReport} {evidence : Evidence} {trusted : TrustedKeys}
    {field : String} {level : AssuranceLevel}
    (hsigned : signed.signature.publicKey = trusted.publisher ∧ SelfSigned sha256 ed signed)
    (hfield : field ∈ assessedFields) :
    (∃ accepted, verifyAssurance sha256 ed signed (declares sha256 signed.report field level) evidence
      trusted = .ok accepted ∧ accepted.get? field = some level) ↔
    level ∈ levelsOf sha256 ed signed evidence trusted field := by
  simp only [verifyAssurance_eq_ok]
  constructor
  · rintro ⟨accepted, ⟨_, _, _, hlevels, rfl⟩, hget⟩
    exact (hlevels _ (get?_eq_some.mp hget)).2
  · intro hlevel
    refine ⟨_, ⟨rfl, rfl, hsigned, ?_, rfl⟩, get?_eq_some.mpr (declared_iff.mpr ⟨rfl, rfl⟩)⟩
    rintro ⟨q, l⟩ he
    obtain ⟨rfl, rfl⟩ := declared_iff.mp he
    exact ⟨hfield, hlevel⟩

/-! ## What grading depends on -/

/-- Up to its manifest, and under a version that covers one with it, a report is determined by its
    digest. -/
theorem body_of_digest {r s : Report} (hr : ShortReport r) (hs : ShortReport s)
    (hcf : CollisionFreeOn sha256 [reportPreimage r, reportPreimage s])
    (h : reportDigest sha256 r = reportDigest sha256 s) :
    withoutManifest r = withoutManifest s ∧ (r.formatVersion = reportFormatVersionV2 → r = s) := by
  refine reportPreimage_body hr hs (hcf _ List.mem_cons_self _ ?_ h)
  exact List.mem_cons_of_mem _ List.mem_cons_self

def DeclaresWithheld (report : Report) (field : String) : Prop :=
  ∃ m, report.manifest = some m ∧ m.fields.get? field = some .withheld

theorem withheld_iff {report : Report} {field : String} : withheld report field = true ↔
    carriesData report field = false ∧ DeclaresWithheld report field := by
  simp [withheld, DeclaresWithheld, Option.any_eq_true, and_comm]

/-- Under a version that covers no manifest, the manifest leaves no trace in the preimage. -/
theorem reportPreimage_withoutManifest {r : Report} (hv : r.formatVersion ≠ reportFormatVersionV2) :
    reportPreimage (withoutManifest r) = reportPreimage r := by
  have hbare : (withoutManifest r).formatVersion ≠ reportFormatVersionV2 := hv
  simp only [reportPreimage, if_neg hv, if_neg hbare]
  rfl

def bare (signed : SignedReport) : SignedReport :=
  { signed with report := withoutManifest signed.report }

theorem verify_bare {signed : SignedReport} (hv : signed.report.formatVersion ≠ reportFormatVersionV2)
    {p : ProofDocument} {key : String} : verify sha256 ed signed p key = .ok () ↔
      signed.report.manifest = none ∧ verify sha256 ed (bare signed) p key = .ok () := by
  have hbare : signed.report.manifest = none → bare signed = signed := fun h => by
    obtain ⟨⟨⟩, _⟩ := signed
    simp only at h
    subst h
    rfl
  constructor
  · intro h
    have hnone : signed.report.manifest = none := by
      rcases checkReportVersionAndManifest_eq_ok.mp (verify_eq_ok.mp h).1 with ⟨_, hnone⟩ | ⟨hv2, _⟩
      · exact hnone
      · exact absurd hv2 hv
    exact ⟨hnone, (hbare hnone).symm ▸ h⟩
  · rintro ⟨hnone, h⟩
    rwa [hbare hnone] at h

/-- What a proof is accepted for has totals, so they are not withheld. -/
theorem carries_of_verify {signed : SignedReport} {p : ProofDocument} {key : String}
    (h : verify sha256 ed signed p key = .ok ()) : carriesData signed.report "root_sums" = true := by
  obtain ⟨_, ⟨rules, hrules, hleaf⟩, _⟩ := verify_eq_ok.mp h
  obtain rfl := customer_rules (lookup_mem (validate_eq_ok.mp hrules).1).1 hleaf
  have htotals := ((validate_balances List.mem_cons_self).mp hrules).2
  simp [carriesData, htotals]

/-- The same empty fields are withheld, and where the proof at hand is accepted for the report
    without a manifest, both or neither carry one. -/
structure SameGrading (sha256 : List UInt8 → Digest) (ed : Ed25519) (evidence : Evidence)
    (trusted : TrustedKeys) (r s : SignedReport) : Prop where
  withheld : ∀ field ∈ assessedFields, carriesData r.report field = false →
    (DeclaresWithheld r.report field ↔ DeclaresWithheld s.report field)
  proof : ∀ p, evidence.proof = some p → verify sha256 ed (bare r) p trusted.publisher = .ok () →
    (r.report.manifest = none ↔ s.report.manifest = none)

section
variable {r s : SignedReport} {evidence : Evidence} {trusted : TrustedKeys}

theorem establish_eq_iff : establish sha256 ed r evidence trusted = establish sha256 ed s evidence trusted ↔
    ∀ field ∈ assessedFields, levelsOf sha256 ed r evidence trusted field =
      levelsOf sha256 ed s evidence trusted field := by
  constructor
  · intro h field hfield
    have hget := congrArg (fun m => m.get? field) h
    simp only [establish_get? hfield] at hget
    exact Option.some.inj hget
  · intro h
    exact congrArg ofList (List.map_congr_left fun field hfield => by rw [h field hfield])

theorem verifyAssurance_congr (hdigest : reportDigest sha256 r.report = reportDigest sha256 s.report)
    (hsig : r.signature = s.signature)
    (h : establish sha256 ed r evidence trusted = establish sha256 ed s evidence trusted)
    (statement : AssuranceStatement) :
    verifyAssurance sha256 ed r statement evidence trusted =
      verifyAssurance sha256 ed s statement evidence trusted := by
  rw [verifyAssurance, verifyAssurance, reportDigestHex, reportDigestHex, hdigest, hsig, h]

/-- Of reports with one body and one digest, only recomputation can tell the two apart where neither
    withholds the field. -/
theorem supports_iff (hbody : withoutManifest r.report = withoutManifest s.report)
    (hdigest : reportDigest sha256 r.report = reportDigest sha256 s.report) {field : String}
    {level : AssuranceLevel} (hlevel : level ≠ .cryptographicallyVerified) :
    Supports sha256 ed r evidence trusted field level ↔
      Supports sha256 ed s evidence trusted field level := by
  have hanchors : ∀ a digest, anchors r.report a digest = anchors s.report a digest := by
    intro a digest
    change anchors (withoutManifest r.report) a digest = anchors (withoutManifest s.report) a digest
    rw [hbody]
  cases level with
  | cryptographicallyVerified => exact absurd rfl hlevel
  | _ => simp only [Supports, reportDigestHex, hdigest, hanchors]

theorem recomputed_iff (hbare : bare r = bare s) (hvr : r.report.formatVersion ≠ reportFormatVersionV2)
    (hvs : s.report.formatVersion ≠ reportFormatVersionV2) {p : ProofDocument} {key : String} :
    (verify sha256 ed r p key = .ok () ↔ verify sha256 ed s p key = .ok ()) ↔
      (verify sha256 ed (bare r) p key = .ok () →
        (r.report.manifest = none ↔ s.report.manifest = none)) := by
  rw [verify_bare hvr, verify_bare hvs, ← hbare]
  tauto

theorem notDisclosed_mem {signed : SignedReport} {field : String} :
    .notDisclosed ∈ levelsOf sha256 ed signed evidence trusted field ↔
      withheld signed.report field = true := by
  rw [mem_levelsOf]
  split_ifs with h
  · exact iff_of_true rfl h
  · exact iff_of_false id h

theorem recomputed_mem {signed : SignedReport} {p : ProofDocument} (hp : evidence.proof = some p) :
    .cryptographicallyVerified ∈ levelsOf sha256 ed signed evidence trusted "root_sums" ↔
      verify sha256 ed signed p trusted.publisher = .ok () := by
  rw [mem_levelsOf]
  split_ifs with h
  · refine iff_of_false (by simp) fun hverify => ?_
    rw [withheld_iff, carries_of_verify hverify] at h
    exact absurd h.1 (by simp)
  · simp [Supports, hp]

theorem levelsOf_congr (hbody : withoutManifest r.report = withoutManifest s.report)
    (hdigest : reportDigest sha256 r.report = reportDigest sha256 s.report) {field : String}
    (hwithheld : withheld r.report field = true ↔ withheld s.report field = true)
    (hproof : ∀ p, evidence.proof = some p → (verify sha256 ed r p trusted.publisher = .ok () ↔
      verify sha256 ed s p trusted.publisher = .ok ())) :
    levelsOf sha256 ed r evidence trusted field = levelsOf sha256 ed s evidence trusted field := by
  ext level
  rw [mem_levelsOf, mem_levelsOf]
  by_cases h : withheld r.report field = true
  · rw [if_pos h, if_pos (hwithheld.mp h)]
  · rw [if_neg h, if_neg (mt hwithheld.mpr h)]
    by_cases hlevel : level = .cryptographicallyVerified
    · subst hlevel
      exact and_congr_right fun _ => exists_congr fun p => and_congr_right fun hp => hproof p hp
    · exact supports_iff hbody hdigest hlevel

variable (sha256 ed) in
/-- Two reports of one digest and one signature are graded alike exactly when they withhold the same
    empty fields and neither has a manifest where only the other's proof could be checked. -/
theorem grading_alike_iff (hr : ShortReport r.report) (hs : ShortReport s.report)
    (hcf : CollisionFreeOn sha256 [reportPreimage r.report, reportPreimage s.report])
    (hdigest : reportDigest sha256 r.report = reportDigest sha256 s.report)
    (hsig : r.signature = s.signature) (evidence : Evidence) (trusted : TrustedKeys) :
    (establish sha256 ed r evidence trusted = establish sha256 ed s evidence trusted ∧
      ∀ statement, verifyAssurance sha256 ed r statement evidence trusted =
        verifyAssurance sha256 ed s statement evidence trusted) ↔
    SameGrading sha256 ed evidence trusted r s := by
  obtain ⟨hbody, hv2⟩ := body_of_digest hr hs hcf hdigest
  by_cases hvr : r.report.formatVersion = reportFormatVersionV2
  · obtain rfl : r = s := by
      cases r
      cases s
      exact (SignedReport.mk.injEq ..).mpr ⟨hv2 hvr, hsig⟩
    exact ⟨fun _ => ⟨fun _ _ _ => Iff.rfl, fun _ _ _ => Iff.rfl⟩, fun _ => ⟨rfl, fun _ => rfl⟩⟩
  have hvs : s.report.formatVersion ≠ reportFormatVersionV2 := by
    change (withoutManifest s.report).formatVersion ≠ _
    rw [← hbody]
    exact hvr
  have hbare : bare r = bare s := by rw [bare, bare, hbody, hsig]
  have hcarries : ∀ field, carriesData r.report field = carriesData s.report field := by
    intro field
    change carriesData (withoutManifest r.report) field = carriesData (withoutManifest s.report) field
    rw [hbody]
  rw [and_iff_left_of_imp (verifyAssurance_congr hdigest hsig), establish_eq_iff]
  constructor
  · intro h
    refine ⟨fun field hfield hempty => ?_, fun p hp => ?_⟩
    · have hboth : withheld r.report field = true ↔ withheld s.report field = true := by
        rw [← notDisclosed_mem, h field hfield, notDisclosed_mem]
      rwa [withheld_iff, withheld_iff, ← hcarries, and_iff_right hempty, and_iff_right hempty] at hboth
    · rw [← recomputed_iff hbare hvr hvs, ← recomputed_mem hp, h _ (by decide), recomputed_mem hp]
  · rintro ⟨hwithheld, hproof⟩ field hfield
    refine levelsOf_congr hbody hdigest ?_ fun p hp => (recomputed_iff hbare hvr hvs).mpr (hproof p hp)
    rw [withheld_iff, withheld_iff, ← hcarries]
    exact and_congr_right (hwithheld field hfield)

end

/-! ## A manifest nobody signed -/

def silentReport (manifest : Option Manifest) : Report where
  formatVersion := reportFormatVersion
  profile := "solvency.liabilities"
  publisher := "venue::one"
  snapshotTime := "2026-09-09T10:00:00Z"
  ledgerOffset := "000000000000003042"
  rootHash := hexEncode (List.replicate 32 0xaa)
  leafCount := 1
  rootSums := ofList [("USDA", 7)]
  markPrices := empty
  disclosures := ⟨empty, 0, empty⟩
  manifest := manifest

theorem silentReport_preimage (m : Option Manifest) :
    reportPreimage (silentReport m) = reportPreimage (silentReport none) := by
  have hv : (silentReport m).formatVersion ≠ reportFormatVersionV2 :=
    (by decide : reportFormatVersion ≠ reportFormatVersionV2)
  exact (reportPreimage_withoutManifest hv).symm

theorem silentReport_digest (m : Option Manifest) : reportDigest Sha256.sha256 (silentReport m) =
    reportDigest Sha256.sha256 (silentReport none) := by
  rw [reportDigest, reportDigest, silentReport_preimage]

def signedSilent (manifest : Option Manifest) : SignedReport :=
  signReport Sha256.sha256 (goldenEd25519 []) (silentReport manifest) goldenSigner

theorem signedSilent_signature (m : Option Manifest) :
    (signedSilent m).signature = (signedSilent none).signature := by
  simp only [signedSilent, signReport, silentReport_digest m]

def withholding (field : String) : Manifest := ⟨"public", ofList [(field, .withheld)]⟩

def noEvidence : Evidence := ⟨none, none, [], none⟩

def goldenTrust : TrustedKeys := ⟨goldenSigner.publicKeyHex (goldenEd25519 []), empty⟩

def undisclosedPrices : AssuranceStatement :=
  declares Sha256.sha256 (silentReport none) "mark_prices" .notDisclosed

theorem short_silentReport_none : ShortReport (silentReport none) where
  formatVersion := by decide +kernel
  profile := by decide +kernel
  publisher := by decide +kernel
  snapshotTime := by decide +kernel
  ledgerOffset := by decide +kernel
  rootHash := by decide +kernel
  rootSums := by decide +kernel
  markPrices := by decide +kernel
  badDebt := by decide +kernel
  excludedHouseTotals := by decide +kernel
  manifest := by simp [silentReport]

theorem withholding_entries (field : String) :
    (withholding field).fields.entries = [(field, .withheld)] := rfl

theorem short_silentReport {field : String} (h : Short field) :
    ShortReport (silentReport (some (withholding field))) :=
  { short_silentReport_none with
    manifest := by
      rintro m ⟨⟩
      rw [ShortManifest, withholding_entries]
      exact ⟨(by decide +kernel : Short "public"), by simp, by simpa using h⟩ }

theorem declaresWithheld_silent {field q : String} :
    DeclaresWithheld (silentReport (some (withholding field))) q ↔ q = field := by
  constructor
  · rintro ⟨m, ⟨⟩, h⟩
    rw [get?_eq_some, withholding_entries, List.mem_singleton] at h
    exact congrArg Prod.fst h
  · rintro rfl
    exact ⟨_, rfl, get?_eq_some.mpr (by rw [withholding_entries]; exact List.mem_singleton.mpr rfl)⟩

/-- A manifest about a field of the leaves changes no grade. -/
theorem grading_alike_iff_silent :
    establish Sha256.sha256 (goldenEd25519 []) (signedSilent (some (withholding "customer_balances")))
        noEvidence goldenTrust =
      establish Sha256.sha256 (goldenEd25519 []) (signedSilent none) noEvidence goldenTrust := by
  have hcf : CollisionFreeOn Sha256.sha256
      [reportPreimage (signedSilent (some (withholding "customer_balances"))).report,
        reportPreimage (signedSilent none).report] := by
    rw [show reportPreimage (signedSilent (some (withholding "customer_balances"))).report =
      reportPreimage (signedSilent none).report from silentReport_preimage _]
    exact collisionFreeOn_of_nodup (by simp)
  refine ((grading_alike_iff Sha256.sha256 (goldenEd25519 []) (short_silentReport (by decide +kernel))
    short_silentReport_none hcf (silentReport_digest _) (signedSilent_signature _) noEvidence
    goldenTrust).mpr ⟨fun field hfield _ => ?_, by simp [noEvidence]⟩).1
  refine iff_of_false (fun h => ?_) (by rintro ⟨m, hm, _⟩; cases hm)
  rw [declaresWithheld_silent.mp h] at hfield
  exact absurd hfield (by decide)

/-- A manifest that withholds an empty field moves it between two levels, under one digest and one
    signature. -/
theorem grading_not_alike :
    reportDigest Sha256.sha256 (signedSilent (some (withholding "mark_prices"))).report =
        reportDigest Sha256.sha256 (signedSilent none).report ∧
      (signedSilent (some (withholding "mark_prices"))).signature = (signedSilent none).signature ∧
      establish Sha256.sha256 (goldenEd25519 []) (signedSilent (some (withholding "mark_prices")))
          noEvidence goldenTrust ≠
        establish Sha256.sha256 (goldenEd25519 []) (signedSilent none) noEvidence goldenTrust ∧
      verifyAssurance Sha256.sha256 (goldenEd25519 []) (signedSilent (some (withholding "mark_prices")))
        undisclosedPrices noEvidence goldenTrust = .ok undisclosedPrices.levels ∧
      verifyAssurance Sha256.sha256 (goldenEd25519 []) (signedSilent none) undisclosedPrices noEvidence
        goldenTrust ≠ .ok undisclosedPrices.levels := by
  have hfield : "mark_prices" ∈ assessedFields := by decide
  have hin : .notDisclosed ∈ levelsOf Sha256.sha256 (goldenEd25519 [])
      (signedSilent (some (withholding "mark_prices"))) noEvidence goldenTrust "mark_prices" :=
    notDisclosed_mem.mpr (withheld_iff.mpr ⟨by decide, declaresWithheld_silent.mpr rfl⟩)
  have hout : .notDisclosed ∉ levelsOf Sha256.sha256 (goldenEd25519 []) (signedSilent none) noEvidence
      goldenTrust "mark_prices" := by
    rw [notDisclosed_mem, withheld_iff]
    rintro ⟨_, m, hm, _⟩
    cases hm
  refine ⟨silentReport_digest _, signedSilent_signature _, fun h => ?_, ?_, fun h => ?_⟩
  · rw [establish_eq_iff.mp h _ hfield] at hin
    exact hout hin
  · have hstatement : undisclosedPrices = declares Sha256.sha256
        (signedSilent (some (withholding "mark_prices"))).report "mark_prices" .notDisclosed := by
      rw [undisclosedPrices, declares, declares, reportDigestHex, reportDigestHex, ← silentReport_digest]
      rfl
    rw [hstatement, verifyAssurance_eq_ok]
    refine ⟨rfl, rfl, ⟨rfl, signReport_selfSigned (recorded_acceptsOwn _ _ _) _ _⟩, ?_, rfl⟩
    rintro ⟨q, l⟩ he
    obtain ⟨rfl, rfl⟩ := declared_iff.mp he
    exact ⟨hfield, hin⟩
  · exact hout ((verifyAssurance_eq_ok.mp h).2.2.2.1 _ (declared_iff.mpr ⟨rfl, rfl⟩)).2

end AssuranceLayer.Grading
