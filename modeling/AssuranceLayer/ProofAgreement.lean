import AssuranceLayer.Aggregation
import AssuranceLayer.LeafAgreement
import AssuranceLayer.ProfileAgreement
import AssuranceLayer.RootTotals

set_option autoImplicit false

/-!
Inclusion proofs that Rust accepts, in the browser: which of them pass there.
-/
namespace AssuranceLayer.ProofAgreement
open Fallible Utf16 JavaScript Reading SumAgreement FoldAgreement LeafAgreement BrowserThrows
open Document LevelTree Verify Sign
open Digest (reportPreimage reportDigest reportDigestHex)
open Merkle (Node)
open Sums (AmountMap amount)
open NodeBinding (comboPreimage)
open Browser (inheritedNames)

variable {sha256 : List UInt8 → Digest} {ed : Ed25519}

/-! ## Reports -/

theorem counts_of_preimage {r : Report} (h : reportPreimage (asRead r) = reportPreimage r) :
    readCount r.leafCount = r.leafCount ∧
      readCount r.disclosures.excludedHouseAccounts = r.disclosures.excludedHouseAccounts := by
  have hfields : Digest.reportFields (asRead r) = Digest.reportFields r :=
    List.append_cancel_right (List.append_cancel_left h)
  simp only [Digest.reportFields, asRead, List.append_cancel_left_eq] at hfields
  obtain ⟨hleaves, hrest⟩ := Digest.framed_u64 _ _ trivial trivial _ _ hfields
  simp only [List.append_cancel_left_eq] at hrest
  exact ⟨hleaves, (Digest.framed_u64 _ _ trivial trivial _ _ hrest).1⟩

theorem asRead_of_kept {r : Report} (hleaves : readCount r.leafCount = r.leafCount)
    (haccounts : readCount r.disclosures.excludedHouseAccounts = r.disclosures.excludedHouseAccounts) :
    asRead r = r := by
  rw [asRead, hleaves, haccounts]

/-! ## The fold against a report -/

theorem checkSigned_iff {key value : String} {digest : Digest} :
    Browser.checkSigned ed (ofString key) (ofString (hexEncode digest.toList)) (Js.string value) = .ok () ↔
      verifySignature ed key digest value = .ok () := by
  rw [← HexTexts.verifyEd25519_iff, Browser.checkSigned]
  simp only [bind_eq_ok, mapError_eq_ok, ensure_eq_ok]
  constructor
  · rintro ⟨_, hvalid, rfl⟩
    exact hvalid
  · exact fun hvalid => ⟨true, hvalid, rfl⟩

theorem is_iff {s : String} {u : JsString} : (Js.string s).is u = true ↔ u = ofString s := by
  rw [Js.is, Js.string, Js.strictEq, decide_eq_true_eq, eq_comm]

theorem foldAgainstReport_iff {v : Js} {signed : SignedReport} (h : ReadsSigned v signed) {items : List Js}
    {node : Browser.SolvencyNode} {digest key : String} :
    Browser.foldAgainstReport sha256 ed v node (.arr items) (Js.string digest) (ofString key) = .ok () ↔
      reportDigestHex sha256 (asRead signed.report) = digest ∧ signed.signature.publicKey = key ∧
      verifySignature ed key (reportDigest sha256 (asRead signed.report)) signed.signature.value = .ok () ∧
      ∃ top published, items.foldlM (Browser.foldStep sha256 Browser.parseSums) node = .ok top ∧
        top.hashHex = ofString signed.report.rootHash ∧
        Browser.parseSums ((v.prop "report").prop "root_sums") = .ok published ∧
        Browser.checkTotals top.sums published = .ok () := by
  have hdigest : (Browser.reportDigestHex sha256 (v.prop "report") : Browser.Throws JsString) = _ :=
    reportDigestHex_reads h.report
  simp only [Browser.foldAgainstReport, uncaught_get h.object, uncaught_get h.signature.object,
    h.report.object.get, h.signature.publicKey, h.signature.value, h.report.rootHash,
    hdigest, ok_bind, bind_eq_ok, ensure_eq_ok, exists_const, Browser.caught, uncaught_eq_ok, mapError_eq_ok,
    Except.ok.injEq, exists_eq_left', is_iff, ofString_inj, Browser.foldSteps, Js.elements]
  constructor
  · rintro ⟨hdigest, rfl, _, hsigned, top, hfold, hroot, published, hpublished, htotals⟩
    exact ⟨hdigest, rfl, checkSigned_iff.mp hsigned, top, published, hfold, hroot, hpublished, htotals⟩
  · rintro ⟨hdigest, rfl, hsigned, top, published, hfold, hroot, hpublished, htotals⟩
    exact ⟨hdigest, rfl, (), checkSigned_iff.mpr hsigned, top, hfold, hroot, published, hpublished, htotals⟩

/-- What a fold ends in is spelled as a digest. -/
theorem fold_hash {items : List Js} {steps : List ProofStepDocument} (hitems : List.Forall₂ ReadsStep items steps)
    {read : List (Step Node)} (hread : List.Forall₂ (fun d s => readStep d = .ok s) steps read)
    {node top : Browser.SolvencyNode} {d : Digest} (hhash : node.hashHex = ofString (hexEncode d.toList))
    (hfold : items.foldlM (Browser.foldStep sha256 Browser.parseSums) node = .ok top) :
    ∃ d : Digest, top.hashHex = ofString (hexEncode d.toList) := by
  induction hitems generalizing read node d with
  | nil =>
    cases hfold
    exact ⟨d, hhash⟩
  | cons hstep _ ih =>
    cases hread with
    | cons hs hread =>
      rw [List.foldlM_cons] at hfold
      obtain ⟨next, hnext, hfold⟩ := bind_eq_ok.mp hfold
      obtain ⟨p, -, hdigest⟩ := foldStep_preimage hstep hs hnext
      exact ih hread hdigest hfold

/-! ## What passes -/

def pathNames (owned : Set String) (steps : List ProofStepDocument) : Set String :=
  steps.foldl (fun o s => o ∪ names s.siblingSums) owned

/-- What the browser asks of a report, and of the way up to its root, beyond what Rust asks. -/
structure ShownAlike (report : Report) (sums : AmountMap) (steps : List ProofStepDocument) : Prop where
  profile : report.profile ≠ Profile.coverageCustody.name
  leafCount : readCount report.leafCount = report.leafCount
  excludedHouseAccounts :
    readCount report.disclosures.excludedHouseAccounts = report.disclosures.excludedHouseAccounts
  rootHash : HexTexts.IsLowerCase report.rootHash
  path : PathOwns (names sums) steps
  totals : ∀ k ∈ inheritedNames, k ∈ pathNames (names sums) steps ↔ k ∈ report.rootSums.keys

section Fold
variable {v : Js} {signed : SignedReport} {items : List Js} {steps : List ProofStepDocument}
  {node : Browser.SolvencyNode} {n folded : Node} {digest key : String} {read : List (Step Node)}

/-- What Rust folds to a report, the browser does, where the names on the way allow it. -/
theorem folds_in_browser (hv : ReadsSigned v signed) (hitems : List.Forall₂ ReadsStep items steps)
    (hnode : ReadsNode node n) (hfolds : Folds sha256 ed signed n steps digest key read folded)
    (h : ShownAlike signed.report n.sums steps) :
    Browser.foldAgainstReport sha256 ed v node (.arr items) (Js.string digest) (ofString key) = .ok () := by
  obtain ⟨top, htop, hreads, hnames⟩ := (@fold_agrees sha256 _ _ _ hitems hfolds.steps _ _ hnode h.path).2
    folded hfolds.fold
  obtain ⟨published, hpublished, hholds⟩ := parseSums_reads hv.report.rootSums
  have hroot := (HexTexts.hexEncode_eq_iff hfolds.rootHash).mpr h.rootHash
  rw [foldAgainstReport_iff hv, asRead_of_kept h.leafCount h.excludedHouseAccounts]
  refine ⟨hfolds.digest, hfolds.signer, hfolds.signature, top, published, htop, ?_, hpublished, ?_⟩
  · rw [hreads.hash, hroot]
  · refine (checkTotals_iff hreads.sums hholds).mpr ⟨hfolds.rootSums, fun k hk => ?_⟩
    rw [← h.totals k hk, pathNames, ← hnames]
    exact Iff.rfl

/-- What both fold to a report is shown alike, if no two of the texts hashed on the way share a digest. -/
theorem shown_of_folds {hashed : List (List UInt8)} (hcf : CollisionFreeOn sha256 hashed)
    (hv : ReadsSigned v signed) (hitems : List.Forall₂ ReadsStep items steps) (hnode : ReadsNode node n)
    (hfolds : Folds sha256 ed signed n steps digest key read folded)
    (hreport : reportPreimage signed.report ∈ hashed) (hasRead : reportPreimage (asRead signed.report) ∈ hashed)
    (hpre : ∀ p ∈ foldPreimages sha256 node items, p ∈ hashed)
    (hcombos : ∀ c ∈ refoldCombos (Merkle.combine sha256) n read, comboPreimage c ∈ hashed)
    (hprofile : signed.report.profile ≠ Profile.coverageCustody.name)
    (h : Browser.foldAgainstReport sha256 ed v node (.arr items) (Js.string digest) (ofString key) = .ok ()) :
    ShownAlike signed.report n.sums steps := by
  obtain ⟨hdigest, -, -, top, published, hfold, hroot, hpublished, htotals⟩ := (foldAgainstReport_iff hv).mp h
  have hcounts := counts_of_preimage (hcf _ hasRead _ hreport
    (hexEncode_digest_inj (hdigest.trans hfolds.digest.symm)))
  -- the root hash is spelled as the browser spells a digest
  obtain ⟨d, hd⟩ := fold_hash hitems hfolds.steps hnode.hash hfold
  have hspelled : signed.report.rootHash = hexEncode d.toList := ofString_inj.mp (hroot.symm.trans hd)
  have hsame : d = folded.hash := by
    have hdecode := hfolds.rootHash
    rw [hspelled, hexDecodeN_encode] at hdecode
    exact Option.some.inj hdecode
  have htop : top.hashHex = ofString (hexEncode folded.hash.toList) := hsame ▸ hd
  have hpath := (fold_owns hcf hitems hfolds.steps hnode.hash hfold hfolds.fold hpre hcombos htop).2 hnode.sums
  obtain ⟨top', htop', hreads, hnames⟩ := (@fold_agrees sha256 _ _ _ hitems hfolds.steps _ _ hnode hpath).2
    folded hfolds.fold
  obtain rfl := Except.ok.inj (hfold.symm.trans htop')
  obtain ⟨published', hpublished', hholds⟩ := parseSums_reads hv.report.rootSums
  obtain rfl := Except.ok.inj (hpublished.symm.trans hpublished')
  refine ⟨hprofile, hcounts.1, hcounts.2, ?_, hpath, fun k hk => ?_⟩
  · exact (HexTexts.hexEncode_eq_iff hfolds.rootHash).mp (hsame ▸ hspelled.symm)
  · rw [← ((checkTotals_iff hreads.sums hholds).mp htotals).2 k hk, pathNames, ← hnames]
    exact Iff.rfl

end Fold

/-! ## The two verifiers -/

section Documents
variable {v p : Js} {signed : SignedReport} {formatVersion reportDigest key : String}
  {steps : List ProofStepDocument} {items : List Js}

theorem checkVersions_iff {leaf : Js → Prop} (hv : ReadsSigned v signed)
    (hp : ReadsProof p formatVersion reportDigest leaf steps) {want : String} :
    Browser.checkVersions v p (ofString want) = .ok () ↔
      formatVersion = want ∧ signed.signature.algorithm = signatureAlgorithm := by
  simp only [Browser.checkVersions, Browser.checkVersion, uncaught_get hv.object, uncaught_get hp.object,
    uncaught_get hv.signature.object, hp.formatVersion, hv.signature.algorithm, ok_bind, bind_eq_ok, ensure_eq_ok,
    exists_const, is_iff, Browser.signatureAlgorithm, ofString_inj]
  exact and_congr eq_comm eq_comm

theorem verifyReport_iff {leaf : LeafPreimage} (hv : ReadsSigned v signed)
    (hp : ReadsProof p formatVersion reportDigest (ReadsLeaf · leaf) steps)
    (hitems : p.prop "steps" = .arr items) : Browser.verifyReport sha256 ed v p (ofString key) = .ok () ↔
      (checkReportVersionAndManifest signed.report = .ok () ∧
        Browser.expectLeafKind (v.prop "report") .customer = .ok () ∧
        formatVersion = proofFormatVersion ∧ signed.signature.algorithm = signatureAlgorithm) ∧
      ∃ node, Browser.leafNode sha256 (p.prop "leaf") = .ok node ∧
        Browser.foldAgainstReport sha256 ed v node (.arr items) (Js.string reportDigest) (ofString key) = .ok () := by
  simp only [Browser.verifyReport, uncaught_get hv.object, hp.object.get, ok_bind, bind_eq_ok, Unique.exists_iff,
    PUnit.default_eq_unit, uncaught_eq_ok, Except.ok.injEq, exists_eq_left',
    ManifestAgreement.checkReportVersionAndManifest_agrees hv.report,
    show Browser.proofFormatVersion = ofString proofFormatVersion from rfl, checkVersions_iff hv hp, Browser.caught,
    mapError_eq_ok, hitems, hp.reportDigest, and_assoc]

theorem verifyReportV2_iff {leaf : LeafPreimageV2} (hv : ReadsSigned v signed)
    (hp : ReadsProof p formatVersion reportDigest (ReadsLeafV2 · leaf) steps)
    (hitems : p.prop "steps" = .arr items) : Browser.verifyReportV2 sha256 ed v p (ofString key) = .ok () ↔
      (checkReportVersionAndManifest signed.report = .ok () ∧ Browser.expectLeafV2 (v.prop "report") = .ok () ∧
        (formatVersion = proofFormatVersionV2 ∧ signed.signature.algorithm = signatureAlgorithm) ∧
        ∀ rules, Browser.lookupProfile ((v.prop "report").prop "profile") = some rules →
          ∀ required ∈ rules.requiredLeafMaps, CarriesMap leaf.maps required) ∧
      ∃ node, Browser.leafNodeV2 sha256 ((p.prop "leaf").prop "salt") ((p.prop "leaf").prop "subject_id")
          ((p.prop "leaf").prop "maps") = .ok node ∧
        Browser.foldAgainstReport sha256 ed v node (.arr items) (Js.string reportDigest) (ofString key) = .ok () := by
  simp only [Browser.verifyReportV2, uncaught_get hv.object, uncaught_get hv.report.object, uncaught_get hp.object,
    hp.leaf.object.get, ok_bind, bind_eq_ok, Unique.exists_iff, PUnit.default_eq_unit,
    ManifestAgreement.checkReportVersionAndManifest_agrees hv.report,
    show Browser.proofFormatVersionV2 = ofString proofFormatVersionV2 from rfl, checkVersions_iff hv hp,
    forM_eq_ok, checkLeafMap_agrees hp.leaf, Option.mem_toList, Browser.caught, mapError_eq_ok, hitems,
    hp.reportDigest, and_assoc]

end Documents

variable (sha256)

/-- What the browser hashes on the way up from a leaf. -/
def browserPreimages (leaf : Browser.Throws Browser.SolvencyNode) (steps : Js) : List (List UInt8) :=
  match leaf, steps with
  | .ok node, .arr items => foldPreimages sha256 node items
  | _, _ => []

/-- What the two verifiers hash of a report. -/
def reportPreimages (r : Report) : List (List UInt8) := [reportPreimage r, reportPreimage (asRead r)]

def preimages (signed : SignedReport) (proof : ProofDocument) (p : Js) : List (List UInt8) :=
  reportPreimages signed.report ++ (Aggregation.proofPreimages sha256 proof ++
    browserPreimages sha256 (Browser.leafNode sha256 (p.prop "leaf")) (p.prop "steps"))

def preimagesV2 (signed : SignedReport) (proof : ProofDocumentV2) (p : Js) : List (List UInt8) :=
  reportPreimages signed.report ++ (RootTotals.proofPreimagesV2 sha256 proof ++
    browserPreimages sha256 (Browser.leafNodeV2 sha256 ((p.prop "leaf").prop "salt")
      ((p.prop "leaf").prop "subject_id") ((p.prop "leaf").prop "maps")) (p.prop "steps"))

variable {sha256}

/-- All that is hashed on the way to a root is among the texts at hand. -/
theorem hashed_of_subset {r : Report} {rust browser hashed : List (List UInt8)}
    (h : hashed = reportPreimages r ++ (rust ++ browser)) :
    reportPreimage r ∈ hashed ∧ reportPreimage (asRead r) ∈ hashed ∧ (∀ p ∈ rust, p ∈ hashed) ∧
      ∀ p ∈ browser, p ∈ hashed := by
  subst h
  simp only [reportPreimages, List.mem_append, List.mem_cons, List.not_mem_nil, or_false]
  exact ⟨.inl (.inl trivial), .inl (.inr trivial), fun p hp => .inr (.inl hp), fun p hp => .inr (.inr hp)⟩

section Accepted
variable {v p : Js} {signed : SignedReport} {key : String}

theorem verifyReport_accepts (hv : ReadsSigned v signed) {proof : ProofDocument}
    (hp : ReadsProof p proof.formatVersion proof.reportDigest (ReadsLeaf · proof.leaf) proof.steps)
    (h : verify sha256 ed signed proof key = .ok ()) :
    (ShownAlike signed.report proof.leaf.balances proof.steps →
      Browser.verifyReport sha256 ed v p (ofString key) = .ok ()) ∧
    (CollisionFreeOn sha256 (preimages sha256 signed proof p) →
      Browser.verifyReport sha256 ed v p (ofString key) = .ok () →
        ShownAlike signed.report proof.leaf.balances proof.steps) := by
  obtain ⟨hversion, ⟨rules, hrules, hkind⟩, hproof, halgorithm, salt, leaf, read, folded, hsalt, hleaf, hfolds⟩ :=
    verify_eq_ok.mp h
  rw [Merkle.leafNode_entries, Except.ok.injEq] at hleaf
  obtain ⟨node, hnode, hreads⟩ := @leafNode_reads sha256 _ _ hp.leaf _ hsalt
  rw [hleaf] at hreads
  have hsums : leaf.sums = proof.leaf.balances := by rw [← hleaf]
  obtain ⟨items, hitems, hsteps⟩ := hp.steps
  rw [verifyReport_iff hv hp hitems, ← hsums]
  constructor
  · intro hshown
    have hprofile := (ProfileAgreement.expectLeafKind_agrees hv.report hshown.leafCount).mpr
      ⟨hshown.profile, rules, hrules, hkind⟩
    exact ⟨⟨hversion, hprofile, hproof, halgorithm⟩, node, hnode, folds_in_browser hv hsteps hreads hfolds hshown⟩
  · rintro hcf ⟨⟨-, hprofile, -⟩, node', hnode', hfold⟩
    obtain rfl := Except.ok.inj (hnode.symm.trans hnode')
    obtain ⟨hreport, hasRead, hrust, hbrowser⟩ := hashed_of_subset (rfl : preimages sha256 signed proof p = _)
    obtain ⟨_, hlookup, -⟩ := (expectLeafKind_eq_ok hv.report.object).mp hprofile
    rw [hnode, hitems] at hbrowser
    refine shown_of_folds hcf hv hsteps hreads hfolds hreport hasRead hbrowser (fun c hc => hrust _ ?_)
      (ProfileAgreement.profile_of_lookup hv.report hlookup).1 hfold
    rw [Aggregation.proofPreimages_eq hsalt hfolds.steps, hleaf]
    exact List.mem_cons_of_mem _ (List.mem_map_of_mem hc)

theorem verifyReportV2_accepts (hv : ReadsSigned v signed) {proof : ProofDocumentV2}
    (hp : ReadsProof p proof.formatVersion proof.reportDigest (ReadsLeafV2 · proof.leaf) proof.steps)
    (h : verifyV2 sha256 ed signed proof key = .ok ()) :
    (ShownAlike signed.report (Merkle.flatten proof.leaf.maps) proof.steps →
      Browser.verifyReportV2 sha256 ed v p (ofString key) = .ok ()) ∧
    (CollisionFreeOn sha256 (preimagesV2 sha256 signed proof p) →
      Browser.verifyReportV2 sha256 ed v p (ofString key) = .ok () →
        ShownAlike signed.report (Merkle.flatten proof.leaf.maps) proof.steps) := by
  obtain ⟨hversion, ⟨rules, hrules, hkind, hmaps⟩, hproof, halgorithm, salt, leaf, read, folded, hsalt, hleaf,
    hfolds⟩ := verifyV2_eq_ok.mp h
  obtain ⟨hsafe, hleaf⟩ := (Merkle.leafNodeV2_eq_ok sha256).mp hleaf
  obtain ⟨node, hnode, hreads⟩ := @leafNodeV2_reads sha256 _ _ hp.leaf hsafe _ hsalt
  rw [← hleaf] at hreads
  have hsums : leaf.sums = Merkle.flatten proof.leaf.maps := by rw [hleaf]
  obtain ⟨items, hitems, hsteps⟩ := hp.steps
  rw [verifyReportV2_iff hv hp hitems, ← hsums]
  constructor
  · intro hshown
    have hprofile := (ProfileAgreement.expectLeafV2_agrees hv.report hshown.leafCount).mpr
      ⟨hshown.profile, rules, hrules, hkind⟩
    refine ⟨⟨hversion, hprofile, ⟨hproof, halgorithm⟩, fun rules' hlookup => ?_⟩, node, hnode,
      folds_in_browser hv hsteps hreads hfolds hshown⟩
    have hsame := (ProfileAgreement.profile_of_lookup hv.report hlookup).2
    rw [(Profile.validate_eq_ok.mp hrules).1, Option.some.injEq] at hsame
    exact hsame ▸ hmaps
  · rintro hcf ⟨⟨-, hprofile, -⟩, node', hnode', hfold⟩
    obtain rfl := Except.ok.inj (hnode.symm.trans hnode')
    obtain ⟨hreport, hasRead, hrust, hbrowser⟩ := hashed_of_subset (rfl : preimagesV2 sha256 signed proof p = _)
    obtain ⟨_, hlookup, -⟩ := (expectLeafV2_eq_ok hv.report.object).mp hprofile
    rw [hnode, hitems] at hbrowser
    refine shown_of_folds hcf hv hsteps hreads hfolds hreport hasRead hbrowser (fun c hc => hrust _ ?_)
      (ProfileAgreement.profile_of_lookup hv.report hlookup).1 hfold
    rw [RootTotals.proofPreimagesV2_eq hsalt hfolds.steps, ← hleaf]
    exact List.mem_cons_of_mem _ (List.mem_cons_of_mem _ (List.mem_map_of_mem hc))

end Accepted

/-! ## Documents as they are written -/

def written {α : Type} (c : Json.Codec α) (a : α) : Js := Js.ofJson (c.encode a)

variable (sha256 ed) in
/-- What Rust accepts passes in the browser exactly when it is shown alike: under a profile the browser
    knows, with counts that doubles keep and a root hash in lower case, and with names that every object
    has in their places. -/
theorem accepted_passes_iff (signed : SignedReport) (key : String) :
    (∀ proof, verify sha256 ed signed proof key = .ok () →
      (ShownAlike signed.report proof.leaf.balances proof.steps →
        Browser.verifyReport sha256 ed (written Wire.signedReport signed) (written Wire.proofDocument proof)
          (ofString key) = .ok ()) ∧
      (CollisionFreeOn sha256 (preimages sha256 signed proof (written Wire.proofDocument proof)) →
        Browser.verifyReport sha256 ed (written Wire.signedReport signed) (written Wire.proofDocument proof)
          (ofString key) = .ok () → ShownAlike signed.report proof.leaf.balances proof.steps)) ∧
    ∀ proof, verifyV2 sha256 ed signed proof key = .ok () →
      (ShownAlike signed.report (Merkle.flatten proof.leaf.maps) proof.steps →
        Browser.verifyReportV2 sha256 ed (written Wire.signedReport signed) (written Wire.proofDocumentV2 proof)
          (ofString key) = .ok ()) ∧
      (CollisionFreeOn sha256 (preimagesV2 sha256 signed proof (written Wire.proofDocumentV2 proof)) →
        Browser.verifyReportV2 sha256 ed (written Wire.signedReport signed) (written Wire.proofDocumentV2 proof)
          (ofString key) = .ok () → ShownAlike signed.report (Merkle.flatten proof.leaf.maps) proof.steps) := by
  have hsigned : ReadsSigned (written Wire.signedReport signed) signed :=
    readsSigned_of_decode (Wire.signedReport.decode_encode signed) (Rendering.isSignedReport signed)
  constructor
  · intro proof h
    exact verifyReport_accepts hsigned
      (readsProof_of_decode (Wire.proofDocument.decode_encode proof) (Rendering.isProofDocument proof)) h
  · intro proof h
    exact verifyReportV2_accepts hsigned
      (readsProofV2_of_decode (Wire.proofDocumentV2.decode_encode proof) (Rendering.isProofDocumentV2 proof)) h

/-! ## A proof that passes in both, and one that does not -/

section Samples
open Aggregation (pairSigned pairProof pairReport pairEd25519 pairRoot holderBalances)
open RootTotals (custodySigned custodyProof custodyEd25519 otherMaps custody_accepted)

def aliceProof : ProofDocument := pairProof holderBalances "alice" "bob" false
def aliceKey : String := goldenSigner.publicKeyHex pairEd25519
def custodyShown : SignedReport := custodySigned (Merkle.flatten otherMaps) "000000000000000042"
def custodyShownProof : ProofDocumentV2 := custodyProof (Merkle.flatten otherMaps) "000000000000000042"
def custodyKey : String := goldenSigner.publicKeyHex custodyEd25519

theorem alice_accepted : verify Sha256.sha256 pairEd25519 (pairSigned holderBalances) aliceProof aliceKey = .ok () :=
  Aggregation.pair_accepted (eq_ok_getD (by decide +kernel)) (by decide +kernel) (by decide +kernel)
    aliceProof List.mem_cons_self

theorem custodyShown_accepted :
    verifyV2 Sha256.sha256 custodyEd25519 custodyShown custodyShownProof custodyKey = .ok () :=
  custody_accepted (eq_ok_getD (by decide +kernel)) (by decide +kernel)

theorem alice_plain : ∀ k ∈ inheritedNames,
    k ∉ holderBalances.keys ∧ k ∉ (pairRoot holderBalances).sums.keys := by decide +kernel

theorem alice_shown : ShownAlike (pairReport holderBalances) aliceProof.leaf.balances aliceProof.steps where
  profile := by decide
  leafCount := readCount_of_lt (by decide)
  excludedHouseAccounts := readCount_of_lt (by decide)
  rootHash := HexTexts.isLowerCase_hexEncode _
  path := ⟨fun k hk hmem => absurd hmem (alice_plain k hk).1, trivial⟩
  totals := fun k hk =>
    iff_of_false (fun h => h.elim (alice_plain k hk).1 (alice_plain k hk).1) (alice_plain k hk).2

theorem accepted_passes_iff_pair :
    Browser.verifyReport Sha256.sha256 pairEd25519 (written Wire.signedReport (pairSigned holderBalances))
      (written Wire.proofDocument aliceProof) (ofString aliceKey) = .ok () ∧
    Browser.verifyReportV2 Sha256.sha256 custodyEd25519 (written Wire.signedReport custodyShown)
      (written Wire.proofDocumentV2 custodyShownProof) (ofString custodyKey) ≠ .ok () := by
  have halice := (accepted_passes_iff Sha256.sha256 pairEd25519 (pairSigned holderBalances) aliceKey).1 aliceProof
    alice_accepted
  have hcustody := (accepted_passes_iff Sha256.sha256 custodyEd25519 custodyShown custodyKey).2 custodyShownProof
    custodyShown_accepted
  exact ⟨halice.1 alice_shown, fun h =>
    (hcustody.2 (collisionFreeOn_of_nodup (by decide +kernel)) h).profile rfl⟩

/-- A proof over custody leaves is accepted by Rust, and its profile is not in the browser's registry. -/
theorem custody_not_passed : ¬ ∀ (signed : SignedReport) (proof : ProofDocumentV2) (key : String),
    verifyV2 Sha256.sha256 custodyEd25519 signed proof key = .ok () →
      Browser.verifyReportV2 Sha256.sha256 custodyEd25519 (written Wire.signedReport signed)
        (written Wire.proofDocumentV2 proof) (ofString key) = .ok () := by
  intro h
  have hsigned : ReadsSigned (written Wire.signedReport custodyShown) custodyShown :=
    readsSigned_of_decode (Wire.signedReport.decode_encode _) (Rendering.isSignedReport _)
  have hproof := readsProofV2_of_decode (Wire.proofDocumentV2.decode_encode custodyShownProof)
    (Rendering.isProofDocumentV2 custodyShownProof)
  obtain ⟨items, hitems, -⟩ := hproof.steps
  obtain ⟨⟨-, hprofile, -⟩, -⟩ :=
    (verifyReportV2_iff hsigned hproof hitems).mp (h custodyShown custodyShownProof custodyKey custodyShown_accepted)
  obtain ⟨_, hlookup, -⟩ := (expectLeafV2_eq_ok hsigned.report.object).mp hprofile
  exact (ProfileAgreement.profile_of_lookup hsigned.report hlookup).1 rfl

end Samples

end AssuranceLayer.ProofAgreement
