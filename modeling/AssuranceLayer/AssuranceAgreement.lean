import AssuranceLayer.BrowserAssurance
import AssuranceLayer.ChainAgreement
import AssuranceLayer.ManifestAgreement
import AssuranceLayer.ProvenanceAgreement
import AssuranceLayer.SumAgreement

set_option autoImplicit false

/-!
The two gradings of a report. They find the same levels, but an attestation under a trusted key that no
signature check can read stops the browser's, and one without a role is trusted there from anybody.
-/
namespace AssuranceLayer.AssuranceAgreement
open Fallible Utf16 JavaScript Json Json.Codec Json.Fields Reading KeySpelling CoverageAgreement
open ProvenanceAgreement SortedMap
open Document Digest Assurance Grading
open Sign (Ed25519 ReportSigner verifySignature goldenEd25519 goldenSigner)
open Verify (verify)
open Gates (SelfSigned signReport_selfSigned)
open Browser.Levels (spelling)

/-! ## Documents -/

def readLevel (s : String) : Option AssuranceLevel :=
  if s = "not-disclosed" then some .notDisclosed
  else if s = "claimed-only" then some .claimedOnly
  else if s = "issuer-attested" then some .issuerAttested
  else if s = "third-party-attested" then some .thirdPartyAttested
  else if s = "ledger-derived" then some .ledgerDerived
  else if s = "cryptographically-verified" then some .cryptographicallyVerified
  else none

def readRole (s : String) : Option AttestorRole :=
  if s = "issuer" then some .issuer else if s = "third-party" then some .thirdParty else none

/-- A name, or an object that gives the name a null. -/
def named {α : Type} (read : String → Option α) (spell : α → String) (h : ∀ a, read (spell a) = some a) :
    Codec α where
  encode a := .str (spell a)
  decode
    | .str s => read s
    | .obj [(s, .null)] => read s
    | _ => none
  decode_encode := h

def level : Codec AssuranceLevel := named readLevel spelling fun l => by cases l <;> rfl
def role : Codec AttestorRole := named readRole AttestorRole.spelling fun r => by cases r <;> rfl

def attestation : Codec Attestation :=
  record (((field "format_version" string).both ((field "report_digest" string).both
    ((field "field" string).both ((field "role" role).both ((field "attestor" string).both
    (field "basis" string)))))).iso
    (fun p => ⟨p.1, p.2.1, p.2.2.1, p.2.2.2.1, p.2.2.2.2.1, p.2.2.2.2.2⟩)
    (fun a => (a.formatVersion, a.reportDigest, a.field, a.role, a.attestor, a.basis)) fun _ => rfl) (by decide)

def signedAttestation : Codec SignedAttestation :=
  record (((field "attestation" attestation).both (field "signature" Wire.signatureBlock)).iso
    (fun p => ⟨p.1, p.2⟩) (fun s => (s.attestation, s.signature)) fun _ => rfl) (by decide)

def assuranceStatement : Codec AssuranceStatement :=
  record (((field "format_version" string).both ((field "report_digest" string).both
    (field "levels" (map level)))).iso
    (fun p => ⟨p.1, p.2.1, p.2.2⟩) (fun s => (s.formatVersion, s.reportDigest, s.levels)) fun _ => rfl) (by decide)

/-! ## What the browser reads in them -/

def ReadsLevel (v : Js) (l : AssuranceLevel) : Prop := v = Js.string (spelling l)

structure ReadsAttestation (v : Js) (a : Attestation) : Prop where
  object : IsObject v
  formatVersion : v.prop "format_version" = Js.string a.formatVersion
  reportDigest : v.prop "report_digest" = Js.string a.reportDigest
  field : v.prop "field" = Js.string a.field
  role : v.prop "role" = Js.string a.role.spelling
  attestor : v.prop "attestor" = Js.string a.attestor
  basis : v.prop "basis" = Js.string a.basis

structure ReadsSignedAttestation (v : Js) (s : SignedAttestation) : Prop where
  object : IsObject v
  attestation : ReadsAttestation (v.prop "attestation") s.attestation
  signature : ReadsSignature (v.prop "signature") s.signature

structure ReadsLevels (v : Js) (s : AssuranceStatement) : Prop where
  object : IsObject v
  formatVersion : v.prop "format_version" = Js.string s.formatVersion
  reportDigest : v.prop "report_digest" = Js.string s.reportDigest
  levels : ∃ props, v.prop "levels" = .obj props ∧ Mirrors ReadsLevel props s.levels

/-- What is not handed over is undefined. -/
def ReadsOptional {α : Type} (R : Js → α → Prop) (v : Js) : Option α → Prop
  | none => v = .undefined
  | some a => IsObject v ∧ R v a

structure ReadsEvidence (v : Browser.Levels.Evidence) (e : Evidence) : Prop where
  anchor : ReadsOptional ChainAgreement.Reads v.anchor e.anchor
  attestations : ReadsList ReadsSignedAttestation v.attestations e.attestations
  provenance : ReadsOptional ReadsGraph v.provenance e.provenance

structure ReadsTrust (v : Browser.Levels.TrustedKeys) (t : TrustedKeys) : Prop where
  publisher : v.publisher = ofString t.publisher
  attestors : Mirrors (fun w r => w = Js.string (AttestorRole.spelling r)) v.attestors t.attestors

/-! ## One piece of evidence at a time -/

theorem optionalGet_object {v : Js} (h : IsObject v) (name : String) : Browser.optionalGet v name = v.prop name := by
  obtain ⟨_, rfl⟩ := h
  rfl

theorem carriesData_reads {v : Js} {r : Report} (h : ReadsReport v r) (path : String) :
    Browser.Levels.carriesData v path = .ok (Document.carriesData r path) := by
  have hdisclosures := optionalGet_object h.disclosures.object
  have haccounts : ((v.prop "disclosures").prop "excluded_house_accounts").orElse (.num (.finite 0)) =
      .num (Binary64.ofNat r.disclosures.excludedHouseAccounts.val) := by
    rw [h.disclosures.excludedHouseAccounts]
    rfl
  have hpositive : (Js.num (Binary64.ofNat r.disclosures.excludedHouseAccounts.val)).toNumber =
      (.ok (Binary64.ofNat r.disclosures.excludedHouseAccounts.val) : Browser.Throws _) := rfl
  simp only [Browser.Levels.carriesData, Document.carriesData, h.object.get, ok_bind, hdisclosures, haccounts,
    hpositive, ManifestAgreement.isPositive_count, ManifestAgreement.entriesOf_reads h.rootSums,
    ManifestAgreement.entriesOf_reads h.markPrices, ManifestAgreement.entriesOf_reads h.disclosures.badDebt,
    ManifestAgreement.entriesOf_reads h.disclosures.excludedHouseTotals]
  split_ifs <;> rfl

theorem declares_reads {v : Js} {r : Report} (h : ReadsReport v r) (field : String) :
    (Browser.optionalGet (Browser.optionalGet (v.prop "manifest") "fields") field).is (ofString "withheld") =
      r.manifest.any fun m => m.fields.get? field = some .withheld := by
  have hread := h.manifest
  cases hm : r.manifest with
  | none =>
    rw [hm] at hread
    obtain heq | heq := hread <;> rw [heq] <;> rfl
  | some m =>
    rw [hm] at hread
    have hread : ReadsManifest (v.prop "manifest") m := hread
    obtain ⟨props, hprops, hfields⟩ := hread.fields
    rw [optionalGet_object hread.object, hprops, optionalGet_object ⟨_, rfl⟩, Js.prop, Option.any_some]
    cases hget : m.fields.get? field with
    | none =>
      rw [hfields.lookup_none hget]
      rfl
    | some d =>
      obtain ⟨w, hw, rfl⟩ := hfields.lookup hget
      rw [hw, Option.getD_some, Bool.eq_iff_iff, is_string, decide_eq_true_eq, Option.some.injEq]
      cases d <;> decide

theorem withheld_reads {v : Js} {r : Report} (h : ReadsReport v r) (field : String) :
    Browser.Levels.withheld v field = .ok (withheld r field) := by
  simp only [Browser.Levels.withheld, h.object.get, ok_bind, declares_reads h, carriesData_reads h, withheld]
  split_ifs with hdeclared
  · rw [hdeclared, Bool.true_and]
    rfl
  · rw [Bool.eq_false_iff.mpr hdeclared, Bool.false_and]
    rfl

theorem anchors_reads {v w : Js} {r : Report} {a : Anchoring.Anchor} (h : ReadsReport v r)
    (ha : ChainAgreement.Reads w a) (digest : String) :
    Browser.Levels.anchors v w (ofString digest) = .ok (anchors r a digest) := by
  have hsame : ∀ s t : String, (Js.string s).strictEq (Js.string t) = decide (s = t) := fun s t => by
    rw [Js.string, Js.string, Js.strictEq, decide_eq_decide, ofString_inj]
  have hversion : ∀ s : String, (Js.string s).is Browser.anchorFormatVersion =
      decide (s = Anchoring.anchorFormatVersion) := fun s => hsame s _
  have hdigest : ∀ s : String, (Js.string s).is (ofString digest) = decide (s = digest) := fun s => hsame s _
  simp only [Browser.Levels.anchors, h.object.get, ha.get, ok_bind, ha.formatVersion, ha.reportDigest, ha.rootHash,
    ha.snapshotTime, ha.ledgerOffset, ha.publisher, h.rootHash, h.snapshotTime, h.ledgerOffset, h.publisher, hsame,
    hversion, hdigest, anchors, Bool.decide_and, Bool.and_assoc]
  rfl

/-! ## Attestations -/

variable {sha256 : List UInt8 → Digest} {ed : Ed25519}

/-- A key of 32 bytes, and a signature that is hex. -/
structure Readable (b : SignatureBlock) : Prop where
  key : ∃ key, hexDecodeN 32 b.publicKey = some key
  value : ∃ bytes, hexDecode b.value = some bytes

theorem verifyEd25519_ok {b : SignatureBlock} {digest : Digest} {valid : Bool} :
    Browser.verifyEd25519 ed (ofString b.publicKey) (ofString (hexEncode digest.toList)) (Js.string b.value) =
      .ok valid ↔ Readable b ∧ valid = decide (verifySignature ed b.publicKey digest b.value = .ok ()) := by
  have hread : (∃ valid, Browser.verifyEd25519 ed (ofString b.publicKey) (ofString (hexEncode digest.toList))
      (Js.string b.value) = .ok valid) ↔ Readable b := by
    have hkey := HexTexts.hexToBytes_string b.publicKey
    have hmessage := HexTexts.hexToBytes_string (hexEncode digest.toList)
    rw [Js.string] at hkey hmessage
    simp only [Browser.verifyEd25519, hkey, hmessage, HexTexts.hexToBytes_string, hexDecode_encode, bind_eq_ok,
      pure_eq_ok, mapError_eq_ok, okOr_eq_ok, HexTexts.importKey_eq_some]
    constructor
    · rintro ⟨valid, raw, hraw, key, rfl, bytes, hbytes, _⟩
      exact ⟨⟨key, HexTexts.hexDecodeN_eq_some.mpr hraw⟩, bytes, hbytes⟩
    · rintro ⟨⟨key, hraw⟩, bytes, hbytes⟩
      exact ⟨_, key.toList, HexTexts.hexDecodeN_eq_some.mp hraw, key, rfl, bytes, hbytes, digest.toList, rfl, rfl⟩
  have htrue := @HexTexts.verifyEd25519_iff ed b.publicKey b.value digest
  constructor
  · intro h
    refine ⟨hread.mp ⟨valid, h⟩, ?_⟩
    rw [Bool.eq_iff_iff, decide_eq_true_eq, ← htrue, h, Except.ok.injEq]
  · rintro ⟨hreadable, rfl⟩
    obtain ⟨valid, h⟩ := hread.mpr hreadable
    rw [h, Except.ok.injEq, Bool.eq_iff_iff, decide_eq_true_eq, ← htrue, h, Except.ok.injEq]

/-- What is asked of an attestation before its signature is looked at. -/
structure Addressed (trusted : TrustedKeys) (digest field : String) (s : SignedAttestation) : Prop where
  version : s.attestation.formatVersion = attestationFormatVersion
  field : s.attestation.field = field
  report : s.attestation.reportDigest = digest
  trusted : trusted.attestors.get? s.signature.publicKey = some s.attestation.role
  algorithm : s.signature.algorithm = signatureAlgorithm

theorem attests_iff {trusted : TrustedKeys} {digest field : String} {s : SignedAttestation} :
    attests sha256 ed trusted digest field s = true ↔ Addressed trusted digest field s ∧
      verifySignature ed s.signature.publicKey (attestationDigest sha256 s.attestation) s.signature.value = .ok () := by
  rw [attests, decide_eq_true_eq]
  constructor
  · rintro ⟨hversion, hfield, hreport, htrusted, halgorithm, hsigned⟩
    exact ⟨⟨hversion, hfield, hreport, htrusted, halgorithm⟩, hsigned⟩
  · rintro ⟨⟨hversion, hfield, hreport, htrusted, halgorithm⟩, hsigned⟩
    exact ⟨hversion, hfield, hreport, htrusted, halgorithm, hsigned⟩

theorem attests_unaddressed {trusted : TrustedKeys} {digest field : String} {s : SignedAttestation}
    (h : ¬ Addressed trusted digest field s) : attests sha256 ed trusted digest field s = false :=
  Bool.eq_false_iff.mpr fun hyes => h (attests_iff.mp hyes).1

theorem attests_addressed {trusted : TrustedKeys} {digest field : String} {s : SignedAttestation}
    (h : Addressed trusted digest field s) : attests sha256 ed trusted digest field s =
      decide (verifySignature ed s.signature.publicKey (attestationDigest sha256 s.attestation)
        s.signature.value = .ok ()) := by
  rw [Bool.eq_iff_iff, decide_eq_true_eq, attests_iff, and_iff_right h]

theorem attestationDigestHex_reads {v : Js} {a : Attestation} (h : ReadsAttestation v a) :
    Browser.Levels.attestationDigestHex sha256 v = .ok (ofString (hexEncode (attestationDigest sha256 a).toList)) := by
  simp only [Browser.Levels.attestationDigestHex, Browser.Levels.attestationPreimage, h.object.get, ok_bind,
    h.formatVersion, h.reportDigest, h.field, h.role, h.attestor, h.basis, lp_string]
  rfl

theorem trustsFor_reads {props : List (JsString × Js)} {m : SortedMap String AttestorRole}
    (h : Mirrors (fun w r => w = Js.string (AttestorRole.spelling r)) props m) (key : String) (role : AttestorRole) :
    Browser.Levels.trustsFor props (ofString key) (Js.string role.spelling) = decide (m.get? key = some role) := by
  have hspelling : ∀ r : AttestorRole, (Js.string r.spelling).strictEq (Js.string role.spelling) =
      decide (r = role) := fun r => by cases r <;> cases role <;> decide
  rw [Browser.Levels.trustsFor]
  cases hget : m.get? key with
  | none =>
    rw [h.lookup_none hget]
    exact Bool.and_false _
  | some r =>
    obtain ⟨w, hw, rfl⟩ := h.lookup hget
    rw [hw]
    change (Js.string r.spelling).strictEq (Js.string role.spelling) = _
    rw [hspelling, decide_eq_decide, Option.some.injEq]

theorem attests_ok {props : List (JsString × Js)} {trusted : TrustedKeys} {v : Js} {s : SignedAttestation}
    (ht : Mirrors (fun w r => w = Js.string (AttestorRole.spelling r)) props trusted.attestors)
    (h : ReadsSignedAttestation v s) {digest field : String} {vouched : Bool} :
    Browser.Levels.attests sha256 ed props (ofString digest) field v = .ok vouched ↔
      (Addressed trusted digest field s → Readable s.signature) ∧
        vouched = attests sha256 ed trusted digest field s := by
  have hfalse : ¬ Addressed trusted digest field s → ((.ok false : Browser.Throws Bool) = .ok vouched ↔
      (Addressed trusted digest field s → Readable s.signature) ∧
        vouched = attests sha256 ed trusted digest field s) := fun hnot => by
    simp [attests_unaddressed hnot, hnot, eq_comm]
  have htext : ((Js.string s.signature.publicKey).text : Browser.Throws _) = .ok (ofString s.signature.publicKey) := rfl
  have hkeyed : ∀ message value, Browser.Levels.verifyKeyed ed (Js.string s.signature.publicKey) message value =
      Browser.verifyEd25519 ed (ofString s.signature.publicKey) message value := fun _ _ => rfl
  simp only [Browser.Levels.attests, h.object.get, ok_bind, optionalGet_object h.attestation.object,
    optionalGet_object h.signature.object, h.attestation.formatVersion, h.attestation.field,
    h.attestation.reportDigest, h.attestation.role, h.signature.object.get, h.signature.publicKey,
    h.signature.algorithm, h.signature.value, htext, trustsFor_reads ht, attestationDigestHex_reads h.attestation,
    hkeyed]
  split_ifs with hversion hfield htrusted halgorithm
  · refine hfalse fun ha => ?_
    rw [show (Js.string s.attestation.formatVersion).is Browser.Levels.attestationFormatVersion = true from
      is_string.mpr ha.version] at hversion
    cases hversion
  · refine hfalse fun ha => ?_
    rw [is_string.mpr ha.field, is_string.mpr ha.report] at hfield
    cases hfield
  · refine hfalse fun ha => ?_
    rw [decide_eq_true ha.trusted] at htrusted
    cases htrusted
  · refine hfalse fun ha => ?_
    rw [show (Js.string s.signature.algorithm).is Browser.signatureAlgorithm = true from
      is_string.mpr ha.algorithm] at halgorithm
    cases halgorithm
  · simp only [Bool.not_eq_true', Bool.not_eq_false, Bool.or_eq_true, not_or] at hversion hfield htrusted halgorithm
    have haddressed : Addressed trusted digest field s :=
      ⟨is_string.mp hversion, is_string.mp hfield.1, is_string.mp hfield.2, of_decide_eq_true htrusted,
        is_string.mp halgorithm⟩
    rw [verifyEd25519_ok, attests_addressed haddressed, imp_iff_right haddressed]

/-! ## Levels -/

/-- The levels of a list are those of a set. -/
def SameLevels (found : List AssuranceLevel) (levels : Finset AssuranceLevel) : Prop :=
  ∀ level, level ∈ found ↔ level ∈ levels

theorem sameLevels_grant {found : List AssuranceLevel} {levels : Finset AssuranceLevel} (h : SameLevels found levels)
    (supported : Bool) (level : AssuranceLevel) :
    SameLevels (Browser.Levels.grant found supported level) (grant supported level levels) := by
  intro l
  rw [mem_grant, ← h l, Browser.Levels.grant, Browser.Levels.addLevel]
  cases supported with
  | false => simp
  | true =>
    by_cases hmem : level ∈ found
    · rw [if_pos rfl, if_pos hmem]
      exact ⟨.inr, fun hl => hl.elim (fun heq => heq.2 ▸ hmem) id⟩
    · rw [if_pos rfl, if_neg hmem, List.mem_append, List.mem_singleton, or_comm]
      simp

theorem attestedLevel_reads {v : Js} {s : SignedAttestation} (h : ReadsSignedAttestation v s) :
    Browser.Levels.attestedLevel v = attestedLevel s.attestation.role := by
  rw [Browser.Levels.attestedLevel, h.attestation.role]
  cases s.attestation.role <;> rfl

section Attested
variable {props : List (JsString × Js)} {trusted : TrustedKeys} {digest field : String}

theorem attest_ok (ht : Mirrors (fun w r => w = Js.string (AttestorRole.spelling r)) props trusted.attestors)
    {v : Js} {s : SignedAttestation} (h : ReadsSignedAttestation v s) {found out : List AssuranceLevel} :
    Browser.Levels.attest sha256 ed props (ofString digest) field found v = .ok out ↔
      (Addressed trusted digest field s → Readable s.signature) ∧
        Browser.Levels.grant found (attests sha256 ed trusted digest field s)
          (attestedLevel s.attestation.role) = out := by
  simp only [Browser.Levels.attest, bind_eq_ok, attests_ok ht h, pure_eq_ok, attestedLevel_reads h]
  constructor
  · rintro ⟨_, ⟨hread, rfl⟩, hout⟩
    exact ⟨hread, hout⟩
  · rintro ⟨hread, hout⟩
    exact ⟨_, ⟨hread, rfl⟩, hout⟩

/-- One attestation after the other: all that are addressed are read, and what they vouch for is granted. -/
theorem attested_ok (ht : Mirrors (fun w r => w = Js.string (AttestorRole.spelling r)) props trusted.attestors)
    {items : List Js} {l : List SignedAttestation} (h : List.Forall₂ ReadsSignedAttestation items l)
    {found out : List AssuranceLevel} :
    items.foldlM (Browser.Levels.attest sha256 ed props (ofString digest) field) found = .ok out ↔
      (∀ s ∈ l, Addressed trusted digest field s → Readable s.signature) ∧
        l.foldl (fun found s => Browser.Levels.grant found (attests sha256 ed trusted digest field s)
          (attestedLevel s.attestation.role)) found = out := by
  induction h generalizing found with
  | nil => simp [pure, Except.pure]
  | cons hread _ ih =>
    simp only [List.foldlM_cons, bind_eq_ok, attest_ok ht hread, ih, List.forall_mem_cons, List.foldl_cons]
    constructor
    · rintro ⟨_, ⟨hfirst, rfl⟩, hrest, hout⟩
      exact ⟨⟨hfirst, hrest⟩, hout⟩
    · rintro ⟨⟨hfirst, hrest⟩, hout⟩
      exact ⟨_, ⟨hfirst, rfl⟩, hrest, hout⟩

theorem sameLevels_foldl (l : List SignedAttestation) {vouched : SignedAttestation → Bool}
    {found : List AssuranceLevel} {levels : Finset AssuranceLevel} (h : SameLevels found levels) :
    SameLevels
      (l.foldl (fun found s => Browser.Levels.grant found (vouched s) (attestedLevel s.attestation.role)) found)
      (l.foldl (fun levels s => grant (vouched s) (attestedLevel s.attestation.role) levels) levels) := by
  induction l generalizing found levels with
  | nil => exact h
  | cons s l ih => exact ih (sameLevels_grant h (vouched s) _)

end Attested

variable (sha256 ed) in
/-- A proof is handed over to both or to neither, and the browser's verdict on it is Rust's. -/
def SameVerdict (v proof : Js) (signed : SignedReport) (key : String) : Option ProofDocument → Prop
  | none => proof = .undefined
  | some p => IsObject proof ∧ Browser.Levels.proves sha256 ed v proof (ofString key) =
      .ok (decide (verify sha256 ed signed p key = .ok ()))

variable (sha256) in
/-- Every attestation that is addressed to a field with a figure is read. -/
def AllRead (signed : SignedReport) (evidence : Evidence) (trusted : TrustedKeys) (field : String) : Prop :=
  withheld signed.report field = false → ∀ s ∈ evidence.attestations,
    Addressed trusted (reportDigestHex sha256 signed.report) field s → Readable s.signature

section Graded
variable {v : Js} {signed : SignedReport} {evidence : Browser.Levels.Evidence} {given : Evidence}
  {trust : Browser.Levels.TrustedKeys} {trusted : TrustedKeys}

theorem pinned_reads (hv : ReadsReport v signed.report) (he : ReadsEvidence evidence given) (digest : String) :
    (if evidence.anchor.truthy then Browser.Levels.anchors v evidence.anchor (ofString digest) else .ok false) =
      .ok (given.anchor.any fun a => anchors signed.report a digest) := by
  have hread := he.anchor
  cases ha : given.anchor with
  | none =>
    rw [ha] at hread
    rw [show evidence.anchor = .undefined from hread]
    rfl
  | some a =>
    rw [ha] at hread
    rw [if_pos hread.1.truthy, anchors_reads hv hread.2, Option.any_some]

theorem onLedger_reads (he : ReadsEvidence evidence given) (pinned : Bool) (field : String) :
    (if pinned && evidence.provenance.truthy then Browser.derivesFromLedger evidence.provenance (ofString field)
      else .ok false) = .ok (pinned && given.provenance.any fun p => derivesFromLedger p field) := by
  have hread := he.provenance
  cases hp : given.provenance with
  | none =>
    rw [hp] at hread
    rw [show evidence.provenance = .undefined from hread, show Js.undefined.truthy = false from rfl,
      Bool.and_false, Option.any_none, Bool.and_false]
    rfl
  | some p =>
    rw [hp] at hread
    rw [hread.1.truthy, Bool.and_true, derivesFromLedger_reads hread.2, Option.any_some]
    cases pinned <;> rfl

theorem recomputed_reads {w : Js} {key : String}
    (hp : SameVerdict sha256 ed w evidence.proof signed key given.proof) (field : String) :
    (if field = "root_sums" ∧ evidence.proof.truthy = true then
      Browser.Levels.proves sha256 ed w evidence.proof (ofString key) else .ok false) =
      .ok (decide (field = "root_sums" ∧
        given.proof.any (fun p => verify sha256 ed signed p key = .ok ()) = true)) := by
  cases hproof : given.proof with
  | none =>
    rw [hproof] at hp
    rw [show evidence.proof = .undefined from hp]
    simp [Js.truthy]
  | some p =>
    rw [hproof] at hp
    by_cases hfield : field = "root_sums"
    · rw [if_pos ⟨hfield, hp.1.truthy⟩, hp.2, Option.any_some]
      simp [hfield]
    · rw [if_neg fun h => hfield h.1]
      simp [hfield]

theorem attestationsOf_reads {w : Js} {l : List SignedAttestation} (h : ReadsList ReadsSignedAttestation w l) :
    ∃ items, Browser.Levels.attestationsOf w = .ok items ∧ List.Forall₂ ReadsSignedAttestation items l := by
  obtain ⟨items, rfl, hitems⟩ := h
  exact ⟨items, rfl, hitems⟩

/-- The browser finds the levels of a field exactly when no attestation stops it, and then they are the same. -/
theorem levelsOf_ok {w : Js} (hv : ReadsReport v signed.report) (he : ReadsEvidence evidence given)
    (ht : ReadsTrust trust trusted) (hp : SameVerdict sha256 ed w evidence.proof signed trusted.publisher given.proof)
    (field : String) :
    let x := Browser.Levels.levelsOf sha256 ed w v (ofString (reportDigestHex sha256 signed.report)) evidence
      trust field
    ((∃ found, x = .ok found) ↔ AllRead sha256 signed given trusted field) ∧
      ∀ found, x = .ok found → SameLevels found (levelsOf sha256 ed signed given trusted field) := by
  intro x
  obtain ⟨items, hitems, hattestations⟩ := attestationsOf_reads he.attestations
  have hx : x = if withheld signed.report field = true then .ok [.notDisclosed] else
      items.foldlM (Browser.Levels.attest sha256 ed trust.attestors
        (ofString (reportDigestHex sha256 signed.report)) field)
      (Browser.Levels.grant (Browser.Levels.grant [.claimedOnly] (decide (field = "root_sums" ∧
          given.proof.any (fun p => verify sha256 ed signed p trusted.publisher = .ok ()) = true))
          .cryptographicallyVerified)
        ((given.anchor.any fun a => anchors signed.report a (reportDigestHex sha256 signed.report)) &&
          given.provenance.any fun p => derivesFromLedger p field) .ledgerDerived) := by
    simp only [x, Browser.Levels.levelsOf, withheld_reads hv, ok_bind, ht.publisher, recomputed_reads hp,
      pinned_reads hv he, onLedger_reads he, hitems]
    rfl
  rw [hx, levelsOf]
  by_cases hwithheld : withheld signed.report field = true
  · rw [if_pos hwithheld, if_pos hwithheld]
    refine ⟨iff_of_true ⟨_, rfl⟩ fun h => ?_, ?_⟩
    · rw [hwithheld] at h
      cases h
    · rintro found ⟨⟩ level
      rw [List.mem_singleton, Finset.mem_singleton]
  · rw [if_neg hwithheld, if_neg hwithheld, AllRead, imp_iff_right (Bool.eq_false_iff.mpr hwithheld)]
    simp only [attested_ok ht.attestors hattestations]
    refine ⟨⟨fun h => h.elim fun _ hfound => hfound.1, fun h => ⟨_, h, rfl⟩⟩, ?_⟩
    rintro found ⟨_, rfl⟩
    refine sameLevels_foldl _ (sameLevels_grant (sameLevels_grant ?_ _ _) _ _)
    intro level
    rw [List.mem_singleton, Finset.mem_singleton]

/-- What is found for a name, of results that stand in the order of the names. -/
theorem find_result {α ε : Type} {f : String → Except ε α} {names : List String} {out : List (String × α)}
    (h : List.Forall₂ (fun name e => e.1 = name ∧ f name = .ok e.2) names out) {name : String}
    (hname : name ∈ names) :
    ∃ a, (out.find? fun e => ofString e.1 = ofString name).map Prod.snd = some a ∧ f name = .ok a := by
  induction h with
  | nil => cases hname
  | @cons first e names out hfirst _ ih =>
    obtain ⟨rfl, hok⟩ := hfirst
    by_cases heq : e.1 = name
    · subst heq
      exact ⟨e.2, by simp, hok⟩
    · have hne : ofString e.1 ≠ ofString name := mt ofString_inj.mp heq
      rw [List.find?_cons_of_neg (by simpa using hne)]
      exact ih ((List.mem_cons.mp hname).resolve_left (Ne.symm heq))

theorem digest_reads {w : Js} (hw : ReadsSigned w signed) (hcounts : CountsKept sha256 signed) :
    Browser.reportDigestHex sha256 (w.prop "report") = .ok (ofString (reportDigestHex sha256 signed.report)) := by
  rw [reportDigestHex_reads hw.report]
  exact congrArg (fun d : Digest => Except.ok (ofString (hexEncode d.toList))) hcounts

theorem exists_results {α ε : Type} {f : String → Except ε α} {names : List String}
    (h : ∀ name ∈ names, ∃ a, f name = .ok a) :
    ∃ out : List (String × α), List.Forall₂ (fun name e => e.1 = name ∧ f name = .ok e.2) names out := by
  induction names with
  | nil => exact ⟨[], .nil⟩
  | cons name names ih =>
    obtain ⟨a, ha⟩ := h name List.mem_cons_self
    obtain ⟨out, hout⟩ := ih fun n hn => h n (List.mem_cons_of_mem _ hn)
    exact ⟨(name, a) :: out, .cons ⟨rfl, ha⟩ hout⟩

theorem establish_iff {w : Js} (hw : ReadsSigned w signed) (hcounts : CountsKept sha256 signed)
    {established : List (String × List AssuranceLevel)} :
    Browser.Levels.establish sha256 ed w evidence trust = .ok established ↔
      List.Forall₂ (fun field e => e.1 = field ∧ Browser.Levels.levelsOf sha256 ed w (w.prop "report")
        (ofString (reportDigestHex sha256 signed.report)) evidence trust field = .ok e.2)
        assessedFields established := by
  simp only [Browser.Levels.establish, hw.object.get, ok_bind, digest_reads hw hcounts, mapM_eq_ok]
  refine iff_of_eq (congrArg (fun R => List.Forall₂ R _ _) ?_)
  funext field e
  simp only [bind_eq_ok, pure_eq_ok, eq_iff_iff]
  constructor
  · rintro ⟨levels, hlevels, rfl⟩
    exact ⟨rfl, hlevels⟩
  · rintro ⟨rfl, hlevels⟩
    exact ⟨e.2, hlevels, rfl⟩

theorem establish_ok {w : Js} (hw : ReadsSigned w signed) (hcounts : CountsKept sha256 signed)
    (he : ReadsEvidence evidence given) (ht : ReadsTrust trust trusted)
    (hp : SameVerdict sha256 ed w evidence.proof signed trusted.publisher given.proof) :
    let x := Browser.Levels.establish sha256 ed w evidence trust
    ((∃ established, x = .ok established) ↔ ∀ field ∈ assessedFields, AllRead sha256 signed given trusted field) ∧
      ∀ established, x = .ok established → ∀ field ∈ assessedFields,
        SameLevels (((established.find? fun f => ofString f.1 = ofString field).map Prod.snd).getD [])
          (levelsOf sha256 ed signed given trusted field) := by
  intro x
  have hlevels := levelsOf_ok hw.report he ht hp
  constructor
  · constructor
    · rintro ⟨established, h⟩ field hfield
      obtain ⟨found, _, hfound⟩ := find_result ((establish_iff hw hcounts).mp h) hfield
      exact (hlevels field).1.mp ⟨found, hfound⟩
    · intro h
      obtain ⟨established, hall⟩ := exists_results fun field hfield => (hlevels field).1.mpr (h field hfield)
      exact ⟨established, (establish_iff hw hcounts).mpr hall⟩
  · intro established h field hfield
    obtain ⟨found, hfind, hfound⟩ := find_result ((establish_iff hw hcounts).mp h) hfield
    rw [hfind, Option.getD_some]
    exact (hlevels field).2 found hfound

/-! ## Statements -/

theorem grading_ok {α : Type} (a : α) : Browser.Levels.grading (.ok a) = .ok a := rfl

theorem spelling_inj {l m : AssuranceLevel} (h : spelling l = spelling m) : l = m := by
  have hread : ∀ l, readLevel (spelling l) = some l := fun l => by cases l <;> rfl
  exact Option.some.inj ((hread l).symm.trans (h ▸ hread m))

theorem checkDeclared_ok {established : List (String × List AssuranceLevel)} {p : JsString × Js} {field : String}
    {level : AssuranceLevel} (hname : p.1 = ofString field) (hlevel : ReadsLevel p.2 level)
    {levels : Finset AssuranceLevel}
    (hsame : SameLevels (((established.find? fun f => ofString f.1 = ofString field).map Prod.snd).getD []) levels) :
    Browser.Levels.checkDeclared established p = .ok () ↔ level ∈ levels := by
  rw [Browser.Levels.checkDeclared, ensure_eq_ok, ← hsame level, hname,
    show p.2 = Js.string (spelling level) from hlevel, List.any_eq_true]
  simp only [is_string]
  constructor
  · rintro ⟨l, hl, heq⟩
    exact spelling_inj heq ▸ hl
  · intro hl
    exact ⟨level, hl, rfl⟩

theorem checkStatementVersion_ok {s : String} {u : Unit} :
    Browser.Levels.checkStatementVersion (Js.string s) = .ok u ↔ s = assuranceFormatVersion := by
  rw [Browser.Levels.checkStatementVersion]
  cases hv : (Js.string s).is Browser.Levels.assuranceFormatVersion with
  | true => exact iff_of_true rfl (is_string.mp hv)
  | false =>
    refine iff_of_false ?_ fun h => ?_
    · rintro ⟨⟩
    · rw [show (Js.string s).is Browser.Levels.assuranceFormatVersion = true from is_string.mpr h] at hv
      cases hv

/-- What is asked of every property of an object is asked of every entry of the map. -/
theorem forall_mirrored {α β : Type} {R : α → β → Prop} {props : List (JsString × α)} {m : SortedMap String β}
    (h : Mirrors R props m) {P : JsString × α → Prop} {Q : String × β → Prop}
    (hPQ : ∀ k v b, R v b → (P (ofString k, v) ↔ Q (k, b))) : (∀ p ∈ props, P p) ↔ ∀ e ∈ m.entries, Q e := by
  constructor
  · rintro hall ⟨k, b⟩ he
    obtain ⟨v, hv, hread⟩ := h.lookup (get?_eq_some.mpr he)
    exact (hPQ k v b hread).mp (hall _ ((lookup_eq_some h.nodup).mp hv))
  · rintro hall ⟨name, v⟩ hp
    obtain ⟨k, b, rfl, hget, hread⟩ := h.sound _ hp
    exact (hPQ k v b hread).mpr (hall _ (get?_eq_some.mp hget))

theorem known_iff {field : String} : ofString field ∈ Browser.assessedFields.map ofString ↔ field ∈ assessedFields :=
  List.mem_map_of_injective fun _ _ heq => ofString_inj.mp heq

/-- What the browser asks, once the report, the statement and the key are read. -/
theorem browser_ok {toLowerCase : JsString → JsString} {w st : Js} {statement : AssuranceStatement}
    (hw : ReadsSigned w signed) (hs : ReadsLevels st statement) {props : List (JsString × Js)}
    (hprops : st.prop "levels" = .obj props) {key : String} (hkey : trust.publisher = ofString key)
    (hspelling : SameSpelling signed.signature.publicKey key) (hcounts : CountsKept sha256 signed)
    {accepted : List (JsString × Js)} :
    Browser.Levels.verifyAssurance sha256 ed toLowerCase w st evidence trust = .ok accepted ↔
      (statement.formatVersion = assuranceFormatVersion ∧
        statement.reportDigest = reportDigestHex sha256 signed.report ∧ SelfSigned sha256 ed signed) ∧
      (∀ p ∈ props, p.1 ∈ Browser.assessedFields.map ofString) ∧
      ∃ established, Browser.Levels.establish sha256 ed w evidence trust = .ok established ∧
        (∀ p ∈ props, Browser.Levels.checkDeclared established p = .ok ()) ∧ props = accepted := by
  have hlowered : Browser.lowered toLowerCase (Js.string key) = .ok (toLowerCase (ofString key)) := rfl
  have hsigned : Browser.verifyEd25519 ed (ofString key) (ofString (reportDigestHex sha256 signed.report))
      (Js.string signed.signature.value) = .ok true ↔ SelfSigned sha256 ed signed := by
    rw [SelfSigned, hspelling.1]
    exact HexTexts.verifyEd25519_iff
  simp only [Browser.Levels.verifyAssurance, optionalGet_object hs.object, hs.object.get, hw.object.get,
    hw.signature.object.get, ok_bind, grading_ok, hs.formatVersion, hs.reportDigest, digest_reads hw hcounts,
    hw.signature.publicKey, hw.signature.value, hspelling.1, hlowered, hkey, trim_ofString, hspelling.2, hprops]
  simp only [bind_eq_ok, checkStatementVersion_ok, ensure_eq_ok, is_string, exists_const, Browser.Levels.grading,
    mapError_eq_ok, forM_eq_ok, pure_eq_ok, true_and]
  constructor
  · rintro ⟨hversion, hdigest, valid, hvalid, rfl, hknown, established, hest, hdeclared, haccepted⟩
    exact ⟨⟨hversion, hdigest, hsigned.mp hvalid⟩, hknown, established, hest, hdeclared, haccepted⟩
  · rintro ⟨⟨hversion, hdigest, hvalid⟩, hknown, established, hest, hdeclared, haccepted⟩
    exact ⟨hversion, hdigest, true, hsigned.mpr hvalid, rfl, hknown, established, hest, hdeclared, haccepted⟩

variable (sha256 ed) in
/-- Under one spelling of the key, with counts that doubles keep and one verdict on the proof, the browser
    accepts what Rust accepts, unless an attestation under a trusted key cannot be read. -/
theorem statements_agree (toLowerCase : JsString → JsString) {w st : Js} {statement : AssuranceStatement}
    (hw : ReadsSigned w signed) (hs : ReadsLevels st statement) (he : ReadsEvidence evidence given)
    (ht : ReadsTrust trust trusted) (hspelling : SameSpelling signed.signature.publicKey trusted.publisher)
    (hcounts : CountsKept sha256 signed)
    (hp : SameVerdict sha256 ed w evidence.proof signed trusted.publisher given.proof) :
    (∃ accepted, Browser.Levels.verifyAssurance sha256 ed toLowerCase w st evidence trust = .ok accepted) ↔
      verifyAssurance sha256 ed signed statement given trusted = .ok statement.levels ∧
        ∀ field ∈ assessedFields, AllRead sha256 signed given trusted field := by
  obtain ⟨props, hprops, hlevels⟩ := hs.levels
  obtain ⟨hestablished, hfound⟩ := establish_ok hw hcounts he ht hp
  have hall : ∀ established, Browser.Levels.establish sha256 ed w evidence trust = .ok established →
      ((∀ p ∈ props, p.1 ∈ Browser.assessedFields.map ofString ∧
          Browser.Levels.checkDeclared established p = .ok ()) ↔
        ∀ e ∈ statement.levels.entries, e.1 ∈ assessedFields ∧
          e.2 ∈ levelsOf sha256 ed signed given trusted e.1) := fun established hest => by
    refine forall_mirrored hlevels fun field v level hread => ?_
    rw [known_iff]
    exact and_congr_right fun hfield => checkDeclared_ok rfl hread (hfound established hest field hfield)
  constructor
  · rintro ⟨accepted, h⟩
    obtain ⟨⟨hversion, hdigest, hself⟩, hknown, established, hest, hdeclared, _⟩ :=
      (browser_ok hw hs hprops ht.publisher hspelling hcounts).mp h
    have hentries := (hall established hest).mp fun p hp => ⟨hknown p hp, hdeclared p hp⟩
    exact ⟨verifyAssurance_eq_ok.mpr ⟨hversion, hdigest, ⟨hspelling.1, hself⟩, hentries, rfl⟩,
      hestablished.mp ⟨established, hest⟩⟩
  · rintro ⟨hrust, hread⟩
    obtain ⟨hversion, hdigest, ⟨_, hself⟩, hentries, _⟩ := verifyAssurance_eq_ok.mp hrust
    obtain ⟨established, hest⟩ := hestablished.mpr hread
    have hpasses := (hall established hest).mpr hentries
    refine ⟨props, (browser_ok hw hs hprops ht.publisher hspelling hcounts).mpr ⟨⟨hversion, hdigest, hself⟩, ?_⟩⟩
    exact ⟨fun p hp => (hpasses p hp).1, established, hest, fun p hp => (hpasses p hp).2, rfl⟩

end Graded

/-! ## Documents that are written -/

section Written
open Rendering

theorem reads_signature (b : SignatureBlock) : ReadsSignature (Js.ofJson (Wire.signatureBlock.encode b)) b :=
  readsSignature_of_decode (Wire.signatureBlock.decode_encode b) (isSignatureBlock b).object

theorem reads_attestation (a : Attestation) : ReadsAttestation (Js.ofJson (attestation.encode a)) a := by
  rw [attestation]
  exact ⟨⟨_, rfl⟩, prop_encode rfl rfl, prop_encode rfl rfl, prop_encode rfl rfl, prop_encode rfl rfl,
    prop_encode rfl rfl, prop_encode rfl rfl⟩

theorem reads_signedAttestation (s : SignedAttestation) :
    ReadsSignedAttestation (Js.ofJson (signedAttestation.encode s)) s := by
  refine ⟨⟨_, rfl⟩, ?_, ?_⟩
  · rw [signedAttestation, prop_encode rfl rfl]
    exact reads_attestation s.attestation
  · rw [signedAttestation, prop_encode rfl rfl]
    exact reads_signature s.signature

theorem reads_levels (m : SortedMap String AssuranceLevel) :
    ∃ props, Js.ofJson ((Codec.map level).encode m) = .obj props ∧ Mirrors ReadsLevel props m := by
  have hentries : List.Forall₂ (fun (p : JsString × Js) (e : String × AssuranceLevel) =>
      p.1 = ofString e.1 ∧ ReadsLevel p.2 e.2)
      (ofMembers (m.entries.map fun e => (e.1, level.encode e.2))) m.entries := by
    rw [ofMembers_eq_map, List.map_map, List.forall₂_map_left_iff, List.forall₂_same]
    exact fun e _ => ⟨rfl, rfl⟩
  have hmirrors := Mirrors.fromEntries hentries
  rw [ofList_entries] at hmirrors
  exact ⟨_, rfl, hmirrors⟩

theorem reads_statement (s : AssuranceStatement) : ReadsLevels (Js.ofJson (assuranceStatement.encode s)) s := by
  refine ⟨⟨_, rfl⟩, ?_, ?_, ?_⟩
  · rw [assuranceStatement]
    exact prop_encode rfl rfl
  · rw [assuranceStatement]
    exact prop_encode rfl rfl
  · rw [assuranceStatement, prop_encode rfl rfl]
    exact reads_levels s.levels

theorem reads_signed (s : SignedReport) : ReadsSigned (Js.ofJson (Wire.signedReport.encode s)) s :=
  readsSigned_of_decode (Wire.signedReport.decode_encode s) (isSignedReport s)

end Written

/-! ## An attestation under a trusted key that cannot be read -/

/-- A statement under an attestor's key whose signature is no hex. -/
def unreadable (key : String) : SignedAttestation where
  attestation :=
    { formatVersion := attestationFormatVersion
      reportDigest := reportDigestHex Sha256.sha256 (silentReport none)
      field := "mark_prices"
      role := .thirdParty
      attestor := "auditor::one"
      basis := "statement of account" }
  signature := { algorithm := signatureAlgorithm, publicKey := key, value := "signed by hand" }

def auditorKey : String := hexEncode (List.replicate 32 0x11)

def auditorTrust : TrustedKeys := { goldenTrust with attestors := SortedMap.empty.insert auditorKey .thirdParty }

def handwritten : Evidence := { noEvidence with attestations := [unreadable auditorKey] }

def onlyClaimed : AssuranceStatement := declares Sha256.sha256 (signedSilent none).report "mark_prices" .claimedOnly

theorem silent_sameSpelling : SameSpelling (signedSilent none).signature.publicKey goldenTrust.publisher :=
  ⟨rfl, trimmed_of_hex (hexDecodeN_encode ((goldenEd25519 []).publicKey goldenSigner.seed))⟩

theorem silent_selfSigned : SelfSigned Sha256.sha256 (goldenEd25519 []) (signedSilent none) :=
  signReport_selfSigned (Sign.recorded_acceptsOwn _ _ _) _ _

theorem silent_countsKept : CountsKept Sha256.sha256 (signedSilent none) :=
  countsKept_of_lt (by decide) (by decide)

theorem silent_shown : withheld (signedSilent none).report "mark_prices" = false := rfl

/-- Rust accepts that prices are claimed, and the browser accepts nothing about the report. -/
theorem statements_agree_unreadable :
    (∃ accepted, verifyAssurance Sha256.sha256 (goldenEd25519 []) (signedSilent none) onlyClaimed handwritten
        auditorTrust = .ok accepted ∧ accepted.get? "mark_prices" = some .claimedOnly) ∧
      ¬ ∃ accepted, Browser.Levels.verifyAssurance Sha256.sha256 (goldenEd25519 []) asciiLowerCase
        (Js.ofJson (Wire.signedReport.encode (signedSilent none))) (Js.ofJson (assuranceStatement.encode onlyClaimed))
        ⟨.undefined, .undefined, Js.ofJson ((Codec.list signedAttestation).encode [unreadable auditorKey]), .undefined⟩
        ⟨ofString auditorTrust.publisher, setProp [] (ofString auditorKey) (Js.string "third-party")⟩ =
          .ok accepted := by
  have hevidence : ReadsEvidence ⟨.undefined, .undefined,
      Js.ofJson ((Codec.list signedAttestation).encode [unreadable auditorKey]), .undefined⟩
      handwritten :=
    ⟨rfl, ⟨[_], rfl, .cons (reads_signedAttestation _) .nil⟩, rfl⟩
  have htrust : ReadsTrust ⟨ofString auditorTrust.publisher, setProp [] (ofString auditorKey) (Js.string "third-party")⟩
      auditorTrust := ⟨rfl, Mirrors.empty.set auditorKey rfl⟩
  have hfield : "mark_prices" ∈ assessedFields := by decide
  refine ⟨?_, fun hbrowser => ?_⟩
  · rw [onlyClaimed, verifyAssurance_declares ⟨rfl, silent_selfSigned⟩ hfield, mem_levelsOf,
      if_neg (Bool.eq_false_iff.mp silent_shown)]
    exact trivial
  · have hread := ((statements_agree Sha256.sha256 (goldenEd25519 []) asciiLowerCase (reads_signed _)
      (reads_statement _) hevidence htrust silent_sameSpelling silent_countsKept rfl).mp hbrowser).2
    have haddressed : Addressed auditorTrust (reportDigestHex Sha256.sha256 (signedSilent none).report) "mark_prices"
        (unreadable auditorKey) :=
      ⟨rfl, rfl, rfl, (get?_insert _ _ _ _).trans (if_pos rfl), rfl⟩
    obtain ⟨bytes, hbytes⟩ := (hread "mark_prices" hfield silent_shown _ List.mem_cons_self haddressed).value
    have hnone : hexDecode (unreadable auditorKey).signature.value = none := by decide +kernel
    cases hnone.symm.trans hbytes

/-! ## An attestation without a role -/

def rolelessEntries (digest field attestor basis : String) : List (String × Json) := [
  ("format_version", .str attestationFormatVersion),
  ("report_digest", .str digest),
  ("field", .str field),
  ("attestor", .str attestor),
  ("basis", .str basis)]

/-- What the browser hashes for them: a role that is undefined is an empty text. -/
def rolelessPreimage (digest field attestor basis : String) : List UInt8 :=
  utf8 "rocky-solvency-attestation-v1" ++ (lp attestationFormatVersion ++ (lp digest ++ (lp field ++
    (lp "" ++ (lp attestor ++ lp basis)))))

def forgedSignature (sha256 : List UInt8 → Digest) (ed : Ed25519) (forger : ReportSigner)
    (digest field attestor basis : String) : SignatureBlock where
  algorithm := signatureAlgorithm
  publicKey := forger.publicKeyHex ed
  value := forger.signDigest ed (sha256 (rolelessPreimage digest field attestor basis))

def forgedEntries (sha256 : List UInt8 → Digest) (ed : Ed25519) (forger : ReportSigner)
    (digest field attestor basis : String) : List (String × Json) := [
  ("attestation", .obj (rolelessEntries digest field attestor basis)),
  ("signature", Wire.signatureBlock.encode (forgedSignature sha256 ed forger digest field attestor basis))]

/-- An attestation that leaves its role out, signed by whoever sends it. -/
def forged (sha256 : List UInt8 → Digest) (ed : Ed25519) (forger : ReportSigner)
    (digest field attestor basis : String) : Json := .obj (forgedEntries sha256 ed forger digest field attestor basis)

/-- A key in hex is no name that every object has. -/
theorem not_inherited (forger : ReportSigner) : Browser.isInherited (ofString (forger.publicKeyHex ed)) = false := by
  rw [Bool.eq_false_iff, ne_eq, SumAgreement.isInherited_ofString]
  have hshort : ∀ name ∈ Browser.inheritedNames, name.toList.length < 64 := by decide +kernel
  intro hmem
  have hlen := hshort _ hmem
  rw [ReportSigner.publicKeyHex, length_hexEncode, List.Vector.toList_length] at hlen
  omega

section Forged
variable {forger : ReportSigner} {attestors : List (JsString × Js)} {digest field attestor basis : String}

theorem forged_decode : signedAttestation.decode (forged sha256 ed forger digest field attestor basis) = none := rfl

theorem roleless_nodup : ((rolelessEntries digest field attestor basis).map Prod.fst).Nodup := by
  change (["format_version", "report_digest", "field", "attestor", "basis"] : List String).Nodup
  decide

theorem roleless_prop {name s : String}
    (h : (rolelessEntries digest field attestor basis).lookup name = some (.str s)) :
    (Js.ofJson (.obj (rolelessEntries digest field attestor basis))).prop name = Js.string s :=
  prop_of_lookup roleless_nodup h

theorem roleless_role : (Js.ofJson (.obj (rolelessEntries digest field attestor basis))).prop "role" = .undefined :=
  prop_of_absent roleless_nodup rfl

theorem attestationDigestHex_roleless :
    Browser.Levels.attestationDigestHex sha256 (Js.ofJson (.obj (rolelessEntries digest field attestor basis))) =
      .ok (ofString (hexEncode (sha256 (rolelessPreimage digest field attestor basis)).toList)) := by
  have hobject : IsObject (Js.ofJson (.obj (rolelessEntries digest field attestor basis))) := ⟨_, rfl⟩
  have hformat := @roleless_prop digest field attestor basis "format_version" _ rfl
  have hdigest := @roleless_prop digest field attestor basis "report_digest" _ rfl
  have hfield := @roleless_prop digest field attestor basis "field" _ rfl
  have hattestor := @roleless_prop digest field attestor basis "attestor" _ rfl
  have hbasis := @roleless_prop digest field attestor basis "basis" _ rfl
  have hnone : Browser.lp Js.undefined = .ok (lp "") := rfl
  simp only [Browser.Levels.attestationDigestHex, Browser.Levels.attestationPreimage, hobject.get, ok_bind, hformat,
    hdigest, hfield, hattestor, hbasis, roleless_role, hnone, lp_string]
  rfl

theorem forged_signed (howns : ed.AcceptsOwn) :
    Browser.Levels.verifyKeyed ed (Js.string (forger.publicKeyHex ed))
      (ofString (hexEncode (sha256 (rolelessPreimage digest field attestor basis)).toList))
      (Js.string (forger.signDigest ed (sha256 (rolelessPreimage digest field attestor basis)))) = .ok true :=
  HexTexts.verifyEd25519_iff.mpr (Sign.verifySignature_own howns forger _)

theorem trustsFor_undefined (hunknown : attestors.lookup (ofString (forger.publicKeyHex ed)) = none) :
    Browser.Levels.trustsFor attestors (ofString (forger.publicKeyHex ed)) .undefined = true := by
  rw [Browser.Levels.trustsFor, hunknown]
  simp only [not_inherited, Js.strictEq, Bool.not_false, Bool.and_self]

/-- The role is undefined, and so is the trust in a key nobody named. -/
theorem attests_forged (howns : ed.AcceptsOwn)
    (hunknown : attestors.lookup (ofString (forger.publicKeyHex ed)) = none) (f : String) :
    Browser.Levels.attests sha256 ed attestors (ofString digest) f
      (Js.ofJson (forged sha256 ed forger digest field attestor basis)) = .ok (decide (f = field)) := by
  obtain ⟨v, hv⟩ : ∃ v, v = Js.ofJson (forged sha256 ed forger digest field attestor basis) := ⟨_, rfl⟩
  obtain ⟨a, ha⟩ : ∃ a, a = Js.ofJson (.obj (rolelessEntries digest field attestor basis)) := ⟨_, rfl⟩
  have hnodup : ((forgedEntries sha256 ed forger digest field attestor basis).map Prod.fst).Nodup := by
    change (["attestation", "signature"] : List String).Nodup
    decide
  have hobject : IsObject v := hv ▸ ⟨_, rfl⟩
  have hinner : IsObject a := ha ▸ ⟨_, rfl⟩
  have hattestation : v.prop "attestation" = a := by
    rw [hv, ha]
    exact prop_of_lookup hnodup rfl
  have hb : ReadsSignature (v.prop "signature") (forgedSignature sha256 ed forger digest field attestor basis) := by
    rw [hv, forged, prop_of_lookup hnodup rfl]
    exact reads_signature _
  have hversion : (a.prop "format_version").is Browser.Levels.attestationFormatVersion = true := by
    rw [ha, roleless_prop rfl]
    exact is_string.mpr rfl
  have hreport : (a.prop "report_digest").is (ofString digest) = true := by
    rw [ha, roleless_prop rfl]
    exact is_string.mpr rfl
  have hfield : a.prop "field" = Js.string field := ha ▸ roleless_prop rfl
  have hrole : a.prop "role" = .undefined := ha ▸ roleless_role
  have hkey : (Js.string (forger.publicKeyHex ed)).text = (.ok (ofString (forger.publicKeyHex ed)) :
      Browser.Throws _) := rfl
  have hmessage := @attestationDigestHex_roleless sha256 digest field attestor basis
  rw [← ha] at hmessage
  have hvalid := @forged_signed sha256 ed forger digest field attestor basis howns
  have hsignature : (Js.string signatureAlgorithm).is Browser.signatureAlgorithm = true := is_string.mpr rfl
  rw [← hv]
  simp only [Browser.Levels.attests, hobject.get, ok_bind, hattestation, optionalGet_object hinner, hversion, hreport,
    hfield, hrole, optionalGet_object hb.object, hb.object.get, hb.publicKey, hb.algorithm, hb.value, forgedSignature,
    hkey, trustsFor_undefined hunknown, hsignature, hmessage, hvalid]
  by_cases hf : f = field
  · subst hf
    rw [is_string.mpr rfl, decide_eq_true rfl]
    rfl
  · rw [Bool.eq_false_iff.mpr (mt is_string.mp (Ne.symm hf)), decide_eq_false hf]
    rfl

/-- The browser's levels of a field, of a report that comes with such an attestation alone. -/
theorem levelsOf_forged {w v : Js} {r : Report} (hv : ReadsReport v r) (howns : ed.AcceptsOwn)
    (hunknown : attestors.lookup (ofString (forger.publicKeyHex ed)) = none) {publisher : JsString} (f : String) :
    ∃ found, Browser.Levels.levelsOf sha256 ed w v (ofString digest) ⟨.undefined, .undefined,
        .arr [Js.ofJson (forged sha256 ed forger digest field attestor basis)], .undefined⟩
        ⟨publisher, attestors⟩ f = .ok found ∧
      (f = field → withheld r f = false → AssuranceLevel.thirdPartyAttested ∈ found) := by
  have hlevel : Browser.Levels.attestedLevel (Js.ofJson (forged sha256 ed forger digest field attestor basis)) =
      .thirdPartyAttested := rfl
  have hundefined : Js.undefined.truthy = false := rfl
  simp only [Browser.Levels.levelsOf, withheld_reads hv, ok_bind, hundefined, Bool.and_false, Bool.false_eq_true,
    and_false, if_false, Browser.Levels.attestationsOf, Js.isNullish, Js.elements, List.foldlM_cons, List.foldlM_nil,
    Browser.Levels.attest, attests_forged howns hunknown, hlevel]
  by_cases hwithheld : withheld r f = true
  · rw [if_pos hwithheld]
    refine ⟨_, rfl, fun _ hshown => ?_⟩
    rw [hwithheld] at hshown
    cases hshown
  · rw [if_neg hwithheld]
    refine ⟨_, rfl, fun hf _ => ?_⟩
    rw [decide_eq_true hf]
    decide

end Forged

variable (sha256 ed) in
/-- Of any signed report, anybody's attestation without a role makes the browser accept that a third party
    attests to a field, and is no attestation to Rust. -/
theorem forged_accepted (toLowerCase : JsString → JsString) {w : Js} {signed : SignedReport} {key : String}
    (hw : ReadsSigned w signed) (hspelling : SameSpelling signed.signature.publicKey key)
    (hcounts : CountsKept sha256 signed)
    (hself : SelfSigned sha256 ed signed) {field : String} (hfield : field ∈ assessedFields)
    (hshown : withheld signed.report field = false) (howns : ed.AcceptsOwn) (forger : ReportSigner)
    {attestors : List (JsString × Js)} (hunknown : attestors.lookup (ofString (forger.publicKeyHex ed)) = none)
    (attestor basis : String) :
    let attestation := forged sha256 ed forger (reportDigestHex sha256 signed.report) field attestor basis
    signedAttestation.decode attestation = none ∧
      ∃ accepted, Browser.Levels.verifyAssurance sha256 ed toLowerCase w
          (Js.ofJson (assuranceStatement.encode (declares sha256 signed.report field .thirdPartyAttested)))
          ⟨.undefined, .undefined, .arr [Js.ofJson attestation], .undefined⟩ ⟨ofString key, attestors⟩ = .ok accepted ∧
        accepted.lookup (ofString field) = some (Js.string "third-party-attested") := by
  intro attestation
  have hs := reads_statement (declares sha256 signed.report field .thirdPartyAttested)
  obtain ⟨props, hprops, hlevels⟩ := hs.levels
  have hfound : ∀ f, ∃ found, Browser.Levels.levelsOf sha256 ed w (w.prop "report")
      (ofString (reportDigestHex sha256 signed.report))
      ⟨.undefined, .undefined, .arr [Js.ofJson attestation], .undefined⟩ ⟨ofString key, attestors⟩ f = .ok found ∧
        (f = field → withheld signed.report f = false → AssuranceLevel.thirdPartyAttested ∈ found) :=
    fun f => levelsOf_forged hw.report howns hunknown f
  obtain ⟨established, hresults⟩ := exists_results fun f (_ : f ∈ assessedFields) => (hfound f).imp fun _ h => h.1
  obtain ⟨found, hfind, hok⟩ := find_result hresults hfield
  have hmem : AssuranceLevel.thirdPartyAttested ∈ found := by
    obtain ⟨_, hsame, hattested⟩ := hfound field
    obtain rfl := Except.ok.inj (hok.symm.trans hsame)
    exact hattested rfl hshown
  have hsame : SameLevels (((established.find? fun f => ofString f.1 = ofString field).map Prod.snd).getD [])
      found.toFinset := fun l => by rw [hfind, Option.getD_some, List.mem_toFinset]
  have hpasses : ∀ p ∈ props, p.1 ∈ Browser.assessedFields.map ofString ∧
      Browser.Levels.checkDeclared established p = .ok () := fun p hp => by
    obtain ⟨k, level, hname, hget, hread⟩ := hlevels.sound p hp
    obtain ⟨rfl, rfl⟩ := declared_iff.mp (get?_eq_some.mp hget)
    exact ⟨hname ▸ known_iff.mpr hfield, (checkDeclared_ok hname hread hsame).mpr (List.mem_toFinset.mpr hmem)⟩
  obtain ⟨level, hlookup, rfl⟩ := hlevels.lookup (get?_eq_some.mpr (declared_iff.mpr ⟨rfl, rfl⟩))
  refine ⟨forged_decode, props, (browser_ok hw hs hprops rfl hspelling hcounts).mpr ⟨⟨rfl, rfl, hself⟩, ?_⟩, hlookup⟩
  exact ⟨fun p hp => (hpasses p hp).1, established, (establish_iff hw hcounts).mpr hresults,
    fun p hp => (hpasses p hp).2, rfl⟩

/-- Somebody who is not the publisher. -/
def stranger : ReportSigner := ⟨Sign.bytesOf 32 7⟩

theorem forged_accepted_silent :
    ∃ accepted, Browser.Levels.verifyAssurance Sha256.sha256 (goldenEd25519 []) asciiLowerCase
        (Js.ofJson (Wire.signedReport.encode (signedSilent none)))
        (Js.ofJson (assuranceStatement.encode (declares Sha256.sha256 (silentReport none) "mark_prices"
          .thirdPartyAttested)))
        ⟨.undefined, .undefined, .arr [Js.ofJson (forged Sha256.sha256 (goldenEd25519 []) stranger
          (reportDigestHex Sha256.sha256 (silentReport none)) "mark_prices" "nobody" "none")], .undefined⟩
        ⟨ofString goldenTrust.publisher, []⟩ = .ok accepted ∧
      accepted.lookup (ofString "mark_prices") = some (Js.string "third-party-attested") :=
  (forged_accepted Sha256.sha256 (goldenEd25519 []) asciiLowerCase (reads_signed _) silent_sameSpelling
    silent_countsKept silent_selfSigned (by decide) rfl (Sign.recorded_acceptsOwn _ _ _) stranger rfl "nobody"
    "none").2

end AssuranceLayer.AssuranceAgreement
