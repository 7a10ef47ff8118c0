import AssuranceLayer.Completeness
import AssuranceLayer.Gates

set_option autoImplicit false

/-!
Group reports: a tree whose leaves are entities, each entering with the root and the totals of its
own book, and the check of a customer all the way up to the consolidated totals.
-/
namespace AssuranceLayer.Group
open Fallible Framing Sums Merkle LevelTree Document Digest Profile Sign Produce Verify SortedMap
open Completeness Gates

def entityDomain : String := "rocky-solvency-entity-v1"

structure EntityInput where
  entityId : String
  rootHash : Digest
  rootSums : AmountMap
deriving DecidableEq

def entityPreimage (entity : EntityInput) : List UInt8 :=
  utf8 entityDomain ++ (lp entity.entityId ++ (entity.rootHash.toList ++ lpmap entity.rootSums))

def groupMembershipFormatVersion : String := "canton-solvency-group-membership-v1"
def groupProfile : String := "solvency.group"

structure EntityRecord where
  entityId : String
  rootHash : String
  rootSums : AmountMap
deriving DecidableEq

/-- Proves one entity is committed in a group's consolidated total. -/
structure GroupMembershipDocument where
  formatVersion : String
  groupReportDigest : String
  entity : EntityRecord
  steps : List ProofStepDocument
deriving DecidableEq

/-- The group's report and one membership per entity, in the order of the entities. -/
abbrev GroupPublication := PublicationOf GroupMembershipDocument

variable (sha256 : List UInt8 → Digest) (ed : Ed25519)

def entityLeafNode (entity : EntityInput) : Node := ⟨sha256 (entityPreimage entity), entity.rootSums⟩

def membershipDocument (digestHex : String) (entity : EntityInput) (steps : List ProofStepDocument) :
    GroupMembershipDocument where
  formatVersion := groupMembershipFormatVersion
  groupReportDigest := digestHex
  entity :=
    { entityId := entity.entityId
      rootHash := hexEncode entity.rootHash.toList
      rootSums := entity.rootSums }
  steps := steps

/-- The profile of the metadata is replaced by the group's. -/
def publishGroup (entities : List EntityInput) (metadata : ReportMetadata) (signer : ReportSigner) :
    Except PublishError GroupPublication := do
  ensure (entities.isEmpty = false) .noEntities
  publishWith sha256 ed (fun entity => .ok (entityLeafNode sha256 entity)) membershipDocument entities
    { metadata with profile := groupProfile } signer

def verifyMembership (signed : SignedReport) (membership : GroupMembershipDocument)
    (trustedPublicKeyHex : String) : Except VerificationFailure Unit := do
  expectVersion "membership.format_version" membership.formatVersion groupMembershipFormatVersion
  expectLeafKind signed.report .entity
  let rootHash ← hash32 membership.entity.rootHash "entity root hash"
  let leaf := entityLeafNode sha256 ⟨membership.entity.entityId, rootHash, membership.entity.rootSums⟩
  verifyAgainstReport sha256 ed signed leaf membership.steps membership.groupReportDigest
    trustedPublicKeyHex

/-- A customer up to the group's totals: the proof against the entity's report, the membership
    against the group's, and that both describe the same book. -/
def verifyChain (groupSigned : SignedReport) (membership : GroupMembershipDocument)
    (entitySigned : SignedReport) (proof : ProofDocument) (groupTrustedKey entityTrustedKey : String) :
    Except VerificationFailure Unit := do
  verify sha256 ed entitySigned proof entityTrustedKey
  verifyMembership sha256 ed groupSigned membership groupTrustedKey
  ensure (membership.entity.rootHash = entitySigned.report.rootHash) .entityRootMismatch
  match firstSumDisagreement membership.entity.rootSums entitySigned.report.rootSums with
  | some asset => .error (.entitySumsMismatch asset)
  | none => .ok ()

variable {sha256 ed}

/-! ## What membership verification checks -/

theorem entity_rules {rules : ProfileRules} (h : rules ∈ registry) (hleaf : rules.leaf = .entity) :
    rules = solvencyGroup := by
  revert hleaf
  revert rules
  decide +kernel

theorem expectLeafKind_entity {report : Report} {u : Unit} :
    expectLeafKind report .entity = .ok u ↔
      report.profile = groupProfile ∧ report.rootSums.isEmpty = false := by
  have hgroup : validate report = .ok solvencyGroup ↔
      report.profile = groupProfile ∧ report.rootSums.isEmpty = false :=
    validate_balances (List.mem_cons_of_mem _ List.mem_cons_self)
  simp only [expectLeafKind, bind_eq_ok, ensure_eq_ok, validatedProfile_eq_ok]
  constructor
  · rintro ⟨rules, hrules, hleaf⟩
    obtain rfl := entity_rules (lookup_mem (validate_eq_ok.mp hrules).1).1 hleaf
    exact hgroup.mp hrules
  · intro h
    exact ⟨solvencyGroup, hgroup.mpr h, rfl⟩

variable (sha256) in
/-- A membership document is for this group report and folds to the root and the totals it
    prints. -/
structure Commits (report : Report) (membership : GroupMembershipDocument) : Prop where
  version : membership.formatVersion = groupMembershipFormatVersion
  profile : report.profile = groupProfile
  totals : report.rootSums.isEmpty = false
  digest : reportDigestHex sha256 report = membership.groupReportDigest
  folds : ∃ rootHash read folded, hexDecodeN 32 membership.entity.rootHash = some rootHash ∧
    List.Forall₂ (fun d s => readStep d = .ok s) membership.steps read ∧
    refold (Merkle.combine sha256) (entityLeafNode sha256
      ⟨membership.entity.entityId, rootHash, membership.entity.rootSums⟩) read = .ok folded ∧
    hexDecodeN 32 report.rootHash = some folded.hash ∧ amount folded.sums = amount report.rootSums

theorem verifyMembership_eq_ok {signed : SignedReport} {membership : GroupMembershipDocument}
    {key : String} {u : Unit} : verifyMembership sha256 ed signed membership key = .ok u ↔
      Commits sha256 signed.report membership ∧ signed.signature.publicKey = key ∧
        SelfSigned sha256 ed signed := by
  simp only [verifyMembership, expectVersion, bind_eq_ok, ensure_eq_ok, expectLeafKind_entity,
    hash32_eq_ok, verifyAgainstReport_eq_ok]
  constructor
  · rintro ⟨_, hversion, _, ⟨hprofile, htotals⟩, rootHash, hroot, read, folded, h⟩
    have hself : SelfSigned sha256 ed signed := by
      rw [SelfSigned, h.signer]
      exact h.signature
    exact ⟨⟨hversion, hprofile, htotals, h.digest, rootHash, read, folded, hroot, h.steps, h.fold,
      h.rootHash, h.rootSums⟩, h.signer, hself⟩
  · rintro ⟨h, hsigner, hself⟩
    obtain ⟨rootHash, read, folded, hroot, hread, hfold, hhash, hsums⟩ := h.folds
    rw [SelfSigned, hsigner] at hself
    exact ⟨(), h.version, (), ⟨h.profile, h.totals⟩, rootHash, hroot, read, folded, h.digest, hsigner,
      hself, hread, hfold, hhash, hsums⟩

variable (sha256 ed) in
/-- Every key that accepts a membership sees a well declared report exactly when the report is well
    declared, or it is not signed, or the membership is not for it. -/
theorem membership_gated_iff (signed : SignedReport) (membership : GroupMembershipDocument) :
    (∀ key, verifyMembership sha256 ed signed membership key = .ok () →
      checkReportVersionAndManifest signed.report = .ok () ∧
        signed.signature.algorithm = signatureAlgorithm) ↔
    WellDeclared signed ∨ ¬ SelfSigned sha256 ed signed ∨
      ¬ Commits sha256 signed.report membership := by
  simp only [verifyMembership_eq_ok, ← wellDeclared_iff]
  constructor
  · intro h
    by_cases hself : SelfSigned sha256 ed signed
    · by_cases hcommits : Commits sha256 signed.report membership
      · exact .inl (h _ ⟨hcommits, rfl, hself⟩)
      · exact .inr (.inr hcommits)
    · exact .inr (.inl hself)
  · rintro (h | h | h) key ⟨hcommits, _, hself⟩
    · exact h
    · exact absurd hself h
    · exact absurd hcommits h

def loneReport (formatVersion : String) (manifest : Option Manifest) (entity : EntityInput) : Report where
  formatVersion := formatVersion
  profile := groupProfile
  publisher := "group::holdings"
  snapshotTime := "2026-08-09T00:00:00Z"
  ledgerOffset := "000000000000000900"
  rootHash := hexEncode (entityLeafNode Sha256.sha256 entity).hash.toList
  leafCount := 1
  rootSums := entity.rootSums
  markPrices := empty
  disclosures := ⟨empty, 0, empty⟩
  manifest := manifest

def loneMembership (report : Report) (entity : EntityInput) : GroupMembershipDocument :=
  membershipDocument (reportDigestHex Sha256.sha256 report) entity []

theorem lone_commits (formatVersion : String) (manifest : Option Manifest) {entity : EntityInput}
    (h : entity.rootSums.isEmpty = false) :
    Commits Sha256.sha256 (loneReport formatVersion manifest entity)
      (loneMembership (loneReport formatVersion manifest entity) entity) where
  version := rfl
  profile := rfl
  totals := h
  digest := rfl
  folds := ⟨entity.rootHash, [], _, hexDecodeN_encode _, .nil, rfl, hexDecodeN_encode _, rfl⟩

def subsidiary : EntityInput := ⟨"sub-a", bytesOf 32 1, ofList [("USDA", 100), ("CBTC", 2)]⟩

def signedLone (formatVersion : String) (manifest : Option Manifest) (algorithm : String) :
    SignedReport :=
  let signed := signReport Sha256.sha256 (goldenEd25519 []) (loneReport formatVersion manifest subsidiary)
    goldenSigner
  { signed with signature := { signed.signature with algorithm := algorithm } }

def verifyLone (signed : SignedReport) : Except VerificationFailure Unit :=
  verifyMembership Sha256.sha256 (goldenEd25519 []) signed (loneMembership signed.report subsidiary)
    (goldenSigner.publicKeyHex (goldenEd25519 []))

theorem verifyLone_ok (formatVersion : String) (manifest : Option Manifest) (algorithm : String) :
    verifyLone (signedLone formatVersion manifest algorithm) = .ok () :=
  verifyMembership_eq_ok.mpr ⟨lone_commits formatVersion manifest (by decide), rfl,
    signReport_selfSigned (recorded_acceptsOwn _ _ _) _ goldenSigner⟩

/-- Memberships are accepted for a report of an unknown version, for one whose manifest its digest
    does not cover, and for one that names no algorithm. -/
theorem membership_not_gated :
    (verifyLone (signedLone "canton-solvency-report-v9" none "ed25519") = .ok () ∧
      checkReportVersionAndManifest (signedLone "canton-solvency-report-v9" none "ed25519").report ≠ .ok ()) ∧
    (verifyLone (signedLone reportFormatVersion (some ⟨"public", empty⟩) "ed25519") = .ok () ∧
      checkReportVersionAndManifest
        (signedLone reportFormatVersion (some ⟨"public", empty⟩) "ed25519").report ≠ .ok ()) ∧
    verifyLone (signedLone reportFormatVersion none "none") = .ok () ∧
      (signedLone reportFormatVersion none "none").signature.algorithm ≠ signatureAlgorithm := by
  refine ⟨⟨verifyLone_ok _ _ _, ?_⟩, ⟨verifyLone_ok _ _ _, ?_⟩, verifyLone_ok _ _ _, by decide⟩
  · rw [Ne, checkReportVersionAndManifest_eq_ok]
    rintro (⟨h, _⟩ | ⟨h, _⟩) <;> exact absurd h (by decide)
  · rw [Ne, checkReportVersionAndManifest_eq_ok]
    rintro (⟨_, h⟩ | ⟨h, _⟩) <;> exact absurd h (by decide)

/-! ## From the customers to the group -/

/-- An entity whose customers were published under `solvency.liabilities`, and the position it
    enters a group with. -/
structure PublishedEntity (sha256 : List UInt8 → Digest) (ed : Ed25519) where
  leaves : List LeafInput
  metadata : ReportMetadata
  signer : ReportSigner
  pub : Publication
  input : EntityInput
  published : publish sha256 ed leaves metadata signer = .ok pub
  profile : metadata.profile = "solvency.liabilities"
  totals : pub.signedReport.report.rootSums.isEmpty = false
  manifest : ∀ m, metadata.manifest = some m → ManifestConsistent pub.signedReport.report m
  rootHash : hexDecodeN 32 pub.signedReport.report.rootHash = some input.rootHash
  rootSums : input.rootSums = pub.signedReport.report.rootSums

def PublishedEntity.total (e : PublishedEntity sha256 ed) (asset : String) : ℕ :=
  (e.leaves.map fun l => amount l.balances asset).sum

theorem PublishedEntity.amount_eq (e : PublishedEntity sha256 ed) (asset : String) :
    amount e.input.rootSums asset = e.total asset := by
  obtain ⟨nodes, tree, h⟩ := publishWith_published e.published
  rw [e.rootSums, rootSums_amount h fun _ _ => inputNode_sums]
  rfl

theorem PublishedEntity.rootHash_eq (e : PublishedEntity sha256 ed) :
    hexEncode e.input.rootHash.toList = e.pub.signedReport.report.rootHash := by
  obtain ⟨nodes, tree, h⟩ := publishWith_published e.published
  have hspelled : e.pub.signedReport.report.rootHash = hexEncode tree.root.hash.toList := by
    rw [h.report]
    rfl
  have hroot := e.rootHash
  rw [hspelled, hexDecodeN_encode] at hroot
  rw [hspelled, Option.some.inj hroot]

theorem PublishedEntity.customer_verifies (hsig : ed.AcceptsOwn) (e : PublishedEntity sha256 ed)
    {proof : ProofDocument} (hproof : proof ∈ e.pub.proofs) :
    verify sha256 ed e.pub.signedReport proof (e.signer.publicKeyHex ed) = .ok () := by
  obtain ⟨nodes, tree, h⟩ := publishWith_published e.published
  have hvalid : validate e.pub.signedReport.report = .ok solvencyLiabilities :=
    (validate_balances List.mem_cons_self).mpr ⟨(profile_eq h).trans e.profile, e.totals⟩
  rw [h.documents] at hproof
  obtain ⟨⟨l, i⟩, hl, rfl⟩ := List.mem_map.mp hproof
  exact verify_published h hsig ⟨_, hvalid, rfl⟩ (h.versionAndManifest.mpr e.manifest)
    (List.mk_mem_zipIdx_iff_getElem?.mp hl)

theorem entityNode_sums {entity : EntityInput} {n : Node}
    (h : Except.ok (entityLeafNode sha256 entity) = (Except.ok n : Except MerkleError Node)) :
    n.sums = entity.rootSums := by
  rw [← Except.ok.inj h]
  rfl

theorem publishGroup_published {entities : List EntityInput} {metadata : ReportMetadata}
    {signer : ReportSigner} {group : GroupPublication}
    (h : publishGroup sha256 ed entities metadata signer = .ok group) : entities ≠ [] ∧ ∃ nodes tree,
      Published sha256 ed (fun entity => .ok (entityLeafNode sha256 entity)) membershipDocument entities
        { metadata with profile := groupProfile } signer group nodes tree := by
  simp only [publishGroup, bind_eq_ok, ensure_eq_ok] at h
  obtain ⟨_, hne, hpub⟩ := h
  exact ⟨by simpa using hne, publishWith_published hpub⟩

theorem membership_verifies (hsig : ed.AcceptsOwn) {entities : List EntityInput}
    {metadata : ReportMetadata} {signer : ReportSigner} {group : GroupPublication} {nodes : List Node}
    {tree : SumTree sha256}
    (h : Published sha256 ed (fun entity => .ok (entityLeafNode sha256 entity)) membershipDocument
      entities { metadata with profile := groupProfile } signer group nodes tree)
    (htotals : ∃ entity ∈ entities, entity.rootSums.isEmpty = false) {i : ℕ} {entity : EntityInput}
    (hentity : entities[i]? = some entity) :
    verifyMembership sha256 ed group.signedReport (membershipDocument
      (reportDigestHex sha256 group.signedReport.report) entity ((path i tree.levels).map stepDocument))
      (signer.publicKeyHex ed) = .ok () := by
  obtain ⟨n, hn, hnode⟩ := h.node_at hentity
  obtain rfl := Except.ok.inj hnode
  have hfolds := h.folds hsig hn
  rw [verifyMembership_eq_ok]
  refine ⟨⟨rfl, profile_eq h, (rootSums_not_empty h fun _ _ => entityNode_sums).mpr htotals, rfl,
    entity.rootHash, _, _, hexDecodeN_encode _, hfolds.steps, hfolds.fold, hfolds.rootHash,
    hfolds.rootSums⟩, hfolds.signer, ?_⟩
  rw [SelfSigned, hfolds.signer]
  exact hfolds.signature

theorem verifyChain_eq_ok {groupSigned entitySigned : SignedReport}
    {membership : GroupMembershipDocument} {proof : ProofDocument} {groupKey entityKey : String}
    {u : Unit} :
    verifyChain sha256 ed groupSigned membership entitySigned proof groupKey entityKey = .ok u ↔
      verify sha256 ed entitySigned proof entityKey = .ok () ∧
      verifyMembership sha256 ed groupSigned membership groupKey = .ok () ∧
      membership.entity.rootHash = entitySigned.report.rootHash ∧
      amount membership.entity.rootSums = amount entitySigned.report.rootSums := by
  simp only [verifyChain, bind_eq_ok, ensure_eq_ok, ← firstSumDisagreement_eq_none]
  cases firstSumDisagreement membership.entity.rootSums entitySigned.report.rootSums with
  | none => simp [Unique.exists_iff]
  | some asset => simp

variable (sha256) in
/-- Every customer of every entity verifies up to the group's totals, these are what the customers
    hold together, and an accepted chain is about one book. -/
theorem group_end_to_end (hsig : ed.AcceptsOwn) :
    (∀ (entities : List (PublishedEntity sha256 ed)) (metadata : ReportMetadata)
        (signer : ReportSigner) (group : GroupPublication),
      publishGroup sha256 ed (entities.map PublishedEntity.input) metadata signer = .ok group →
      (∀ (i : ℕ) (e : PublishedEntity sha256 ed), entities[i]? = some e → ∃ membership,
        group.proofs[i]? = some membership ∧ membership.entity.entityId = e.input.entityId ∧
        e.pub.proofs.length = e.leaves.length ∧
        ∀ proof ∈ e.pub.proofs, verifyChain sha256 ed group.signedReport membership
          e.pub.signedReport proof (signer.publicKeyHex ed) (e.signer.publicKeyHex ed) = .ok ()) ∧
      ∀ asset, amount group.signedReport.report.rootSums asset =
        (entities.map fun e => (e.leaves.map fun l => amount l.balances asset).sum).sum) ∧
    ∀ groupSigned membership entitySigned proof groupKey entityKey,
      verifyChain sha256 ed groupSigned membership entitySigned proof groupKey entityKey = .ok () →
      verify sha256 ed entitySigned proof entityKey = .ok () ∧
        membership.entity.rootHash = entitySigned.report.rootHash ∧
        ∀ asset, amount membership.entity.rootSums asset = amount entitySigned.report.rootSums asset := by
  constructor
  · intro entities metadata signer group hgroup
    obtain ⟨hne, nodes, tree, h⟩ := publishGroup_published hgroup
    have htotals : ∃ entity ∈ entities.map PublishedEntity.input, entity.rootSums.isEmpty = false := by
      obtain ⟨e, he⟩ := List.exists_mem_of_ne_nil _ (List.map_eq_nil_iff.not.mp hne)
      exact ⟨e.input, List.mem_map_of_mem he, by rw [e.rootSums]; exact e.totals⟩
    refine ⟨fun i e he => ?_, fun asset => ?_⟩
    · have hentity : (entities.map PublishedEntity.input)[i]? = some e.input := by
        rw [List.getElem?_map, he, Option.map_some]
      obtain ⟨_, _, hpub⟩ := publishWith_published e.published
      refine ⟨_, h.document_at hentity, rfl, proof_count hpub, fun proof hproof => ?_⟩
      rw [verifyChain_eq_ok]
      exact ⟨e.customer_verifies hsig hproof, membership_verifies hsig h htotals hentity,
        e.rootHash_eq, congrArg amount e.rootSums⟩
    · rw [rootSums_amount h fun _ _ => entityNode_sums, List.map_map]
      exact congrArg List.sum (List.map_congr_left fun e _ => e.amount_eq asset)
  · intro groupSigned membership entitySigned proof groupKey entityKey h
    obtain ⟨hverify, _, hroot, hsums⟩ := verifyChain_eq_ok.mp h
    exact ⟨hverify, hroot, fun asset => congrFun hsums asset⟩

/-! ## A group of two -/

def entryOf (entityId : String) (signed : SignedReport) : EntityInput where
  entityId := entityId
  rootHash := (hexDecodeN 32 signed.report.rootHash).getD (bytesOf 32 0)
  rootSums := signed.report.rootSums

theorem exists_publishedEntity {leaves : List LeafInput} {metadata : ReportMetadata}
    {signer : ReportSigner} {pub : Publication} (entityId : String)
    (hpub : publish sha256 ed leaves metadata signer = .ok pub)
    (hprofile : metadata.profile = "solvency.liabilities")
    (htotals : ∃ l ∈ leaves, l.balances.isEmpty = false) (hmanifest : metadata.manifest = none) :
    ∃ e : PublishedEntity sha256 ed, e.leaves = leaves ∧ e.pub = pub ∧
      e.input = entryOf entityId pub.signedReport := by
  obtain ⟨nodes, tree, h⟩ := publishWith_published hpub
  have hroot : hexDecodeN 32 pub.signedReport.report.rootHash = some tree.root.hash := by
    rw [h.report]
    exact hexDecodeN_encode _
  refine ⟨⟨leaves, metadata, signer, pub, entryOf entityId pub.signedReport, hpub, hprofile,
    (rootSums_not_empty h fun _ _ => inputNode_sums).mpr htotals, ?_, ?_, rfl⟩, rfl, rfl, rfl⟩
  · simp [hmanifest]
  · rw [entryOf, hroot, Option.getD_some]

def branchLeaves : List LeafInput :=
  [goldenLeaf "44444444-4444-7444-8444-444444444444" [("USDA", 5), ("CETH", 7)]]

def publishTwo : Except PublishError (Publication × Publication × GroupPublication) := do
  let a ← publish Sha256.sha256 (goldenEd25519 []) goldenLeaves goldenMetadata goldenSigner
  let b ← publish Sha256.sha256 (goldenEd25519 []) branchLeaves goldenMetadata goldenSigner
  let group ← publishGroup Sha256.sha256 (goldenEd25519 [])
    [entryOf "sub-a" a.signedReport, entryOf "sub-b" b.signedReport] goldenMetadata goldenSigner
  return (a, b, group)

theorem group_end_to_end_two : ∃ a b group, publishTwo = .ok (a, b, group) ∧
    amount group.signedReport.report.rootSums "USDA" = 101500000000000000006 ∧
    ∃ membership, group.proofs[1]? = some membership ∧ b.proofs.length = 1 ∧
      ∀ proof ∈ b.proofs, ∀ asset,
        amount membership.entity.rootSums asset = amount b.signedReport.report.rootSums asset := by
  obtain ⟨⟨a, b, group⟩, h⟩ : ∃ out, publishTwo = .ok out := exists_of_isOk (by decide +kernel)
  have hparts := h
  simp only [publishTwo, bind_eq_ok, pure_eq_ok, Prod.mk.injEq] at hparts
  obtain ⟨a, ha, b, hb, group, hgroup, rfl, rfl, rfl⟩ := hparts
  obtain ⟨ea, hla, hpa, hea⟩ := exists_publishedEntity "sub-a" ha rfl ⟨_, List.mem_cons_self, rfl⟩ rfl
  obtain ⟨eb, hlb, hpb, heb⟩ := exists_publishedEntity "sub-b" hb rfl ⟨_, List.mem_cons_self, rfl⟩ rfl
  rw [← hea, ← heb] at hgroup
  have hown : (goldenEd25519 []).AcceptsOwn := recorded_acceptsOwn _ _ _
  have hall := group_end_to_end Sha256.sha256 hown
  obtain ⟨hchains, hsums⟩ := hall.1 [ea, eb] goldenMetadata goldenSigner group hgroup
  obtain ⟨membership, hmembership, _, hcount, hchain⟩ := hchains 1 eb rfl
  refine ⟨a, b, group, h, ?_, membership, hmembership, ?_, fun proof hproof asset => ?_⟩
  · rw [hsums, List.map_cons, List.map_cons, List.map_nil, hla, hlb]
    decide +kernel
  · rw [← hpb, hcount, hlb]
    rfl
  · rw [← hpb] at hproof ⊢
    exact (hall.2 _ _ _ _ _ _ (hchain proof hproof)).2.2 asset

end AssuranceLayer.Group
