import AssuranceLayer.Verify

set_option autoImplicit false

/-!
The producer's side: committed leaves become a signed report and one proof document per leaf, in
the order of the leaves.
-/
namespace AssuranceLayer.Produce
open Fallible Sums Merkle LevelTree Document Digest Sign SortedMap

structure LeafInput where
  salt : Bytes 32
  userId : String
  balances : AmountMap
deriving DecidableEq

structure LeafInputV2 where
  salt : Bytes 32
  subjectId : String
  maps : Maps
deriving DecidableEq

structure ReportMetadata where
  profile : String
  publisher : String
  snapshotTime : String
  ledgerOffset : String
  markPrices : AmountMap
  disclosures : Disclosures
  manifest : Option Manifest
deriving DecidableEq

structure PublicationOf (δ : Type) where
  signedReport : SignedReport
  /-- One per input leaf, in the same order. -/
  proofs : List δ

abbrev Publication := PublicationOf ProofDocument
abbrev PublicationV2 := PublicationOf ProofDocumentV2

inductive PublishError where
  /-- "cannot publish a report with no leaves" -/
  | noLeaves
  /-- "cannot publish a group with no entities" -/
  | noEntities
  | merkle (e : MerkleError)
deriving DecidableEq

def assembleReport (root : Node) (leafCount : ℕ) (metadata : ReportMetadata) : Report where
  formatVersion := if metadata.manifest.isSome then reportFormatVersionV2 else reportFormatVersion
  profile := metadata.profile
  publisher := metadata.publisher
  snapshotTime := metadata.snapshotTime
  ledgerOffset := metadata.ledgerOffset
  rootHash := hexEncode root.hash.toList
  leafCount := asU64 leafCount
  rootSums := root.sums
  markPrices := metadata.markPrices
  disclosures := metadata.disclosures
  manifest := metadata.manifest

def stepDocument (step : Step Node) : ProofStepDocument where
  siblingHash := hexEncode step.sibling.hash.toList
  siblingSums := step.sibling.sums
  siblingOnLeft := step.siblingOnLeft

variable (sha256 : List UInt8 → Digest) (ed : Ed25519)

def signReport (report : Report) (signer : ReportSigner) : SignedReport where
  report := report
  signature :=
    { algorithm := signatureAlgorithm
      publicKey := signer.publicKeyHex ed
      value := signer.signDigest ed (reportDigest sha256 report) }

/-- Publishing over any kind of leaf: `node` commits one leaf, `document` writes its proof. -/
def publishWith {ι δ : Type} (node : ι → Except MerkleError Node)
    (document : String → ι → List ProofStepDocument → δ) (leaves : List ι)
    (metadata : ReportMetadata) (signer : ReportSigner) : Except PublishError (PublicationOf δ) := do
  ensure (leaves.isEmpty = false) .noLeaves
  let nodes ← (leaves.mapM node).mapError .merkle
  let tree ← (SumTree.build sha256 nodes).mapError .merkle
  let report := assembleReport tree.root leaves.length metadata
  let digestHex := reportDigestHex sha256 report
  let proofs ← leaves.zipIdx.mapM fun leaf => do
    let proof ← (tree.prove leaf.2).mapError .merkle
    return document digestHex leaf.1 (proof.steps.map stepDocument)
  return ⟨signReport sha256 ed report signer, proofs⟩

def inputNode (l : LeafInput) : Except MerkleError Node :=
  leafNode sha256 l.salt l.userId l.balances.entries

def inputNodeV2 (l : LeafInputV2) : Except MerkleError Node :=
  leafNodeV2 sha256 l.salt l.subjectId l.maps

def proofDocument (digestHex : String) (l : LeafInput) (steps : List ProofStepDocument) :
    ProofDocument where
  formatVersion := proofFormatVersion
  reportDigest := digestHex
  leaf := { salt := hexEncode l.salt.toList, userId := l.userId, balances := l.balances }
  steps := steps

def proofDocumentV2 (digestHex : String) (l : LeafInputV2) (steps : List ProofStepDocument) :
    ProofDocumentV2 where
  formatVersion := proofFormatVersionV2
  reportDigest := digestHex
  leaf := { salt := hexEncode l.salt.toList, subjectId := l.subjectId, maps := l.maps }
  steps := steps

def publish (leaves : List LeafInput) (metadata : ReportMetadata) (signer : ReportSigner) :
    Except PublishError Publication :=
  publishWith sha256 ed (inputNode sha256) proofDocument leaves metadata signer

def publishV2 (leaves : List LeafInputV2) (metadata : ReportMetadata) (signer : ReportSigner) :
    Except PublishError PublicationV2 :=
  publishWith sha256 ed (inputNodeV2 sha256) proofDocumentV2 leaves metadata signer

/-- What a publication consists of: a tree over the committed leaves, the signed report of its
    root, and the path of every leaf. -/
structure Published {ι δ : Type} (node : ι → Except MerkleError Node)
    (document : String → ι → List ProofStepDocument → δ) (leaves : List ι)
    (metadata : ReportMetadata) (signer : ReportSigner) (pub : PublicationOf δ) (nodes : List Node)
    (tree : SumTree sha256) : Prop where
  committed : List.Forall₂ (fun l n => node l = .ok n) leaves nodes
  built : SumTree.build sha256 nodes = .ok tree
  report : pub.signedReport =
    signReport sha256 ed (assembleReport tree.root leaves.length metadata) signer
  documents : pub.proofs = leaves.zipIdx.map fun leaf =>
    document (reportDigestHex sha256 pub.signedReport.report) leaf.1
      ((path leaf.2 tree.levels).map stepDocument)

variable {sha256 ed}

theorem publishWith_published {ι δ : Type} {node : ι → Except MerkleError Node}
    {document : String → ι → List ProofStepDocument → δ} {leaves : List ι}
    {metadata : ReportMetadata} {signer : ReportSigner} {pub : PublicationOf δ}
    (h : publishWith sha256 ed node document leaves metadata signer = .ok pub) :
    ∃ nodes tree, Published sha256 ed node document leaves metadata signer pub nodes tree := by
  simp only [publishWith, bind_eq_ok, ensure_eq_ok, mapError_eq_ok, pure_eq_ok] at h
  obtain ⟨_, _, nodes, hnodes, tree, htree, proofs, hproofs, rfl⟩ := h
  rw [mapM_eq_ok] at hnodes
  refine ⟨nodes, tree, hnodes, htree, rfl, ?_⟩
  refine Except.ok.inj (hproofs.symm.trans (mapM_eq_map fun leaf hleaf => ?_))
  have hi : leaf.2 < nodes.length := by
    have hlt := List.snd_lt_of_mem_zipIdx hleaf
    rw [← hnodes.length_eq]
    omega
  rw [(prove_eq_ok htree).mpr ⟨hi, rfl⟩]
  rfl

theorem readStep_stepDocument (step : Step Node) : Verify.readStep (stepDocument step) = .ok step := by
  rw [Verify.readStep_eq_ok]
  exact ⟨hexDecodeN_encode _, rfl, rfl⟩

theorem signReport_folds (hsig : ed.AcceptsOwn) {report : Report} {signer : ReportSigner}
    {leaf root : Node} {steps : List (Step Node)}
    (hfold : refold (combine sha256) leaf steps = .ok root)
    (hhash : report.rootHash = hexEncode root.hash.toList)
    (hsums : amount root.sums = amount report.rootSums) :
    Verify.Folds sha256 ed (signReport sha256 ed report signer) leaf (steps.map stepDocument)
      (reportDigestHex sha256 report) (signer.publicKeyHex ed) steps root where
  digest := rfl
  signer := rfl
  signature := verifySignature_own hsig signer _
  steps := by
    rw [List.forall₂_map_left_iff, List.forall₂_same]
    exact fun step _ => readStep_stepDocument step
  fold := hfold
  rootHash := by
    rw [signReport, hhash]
    exact hexDecodeN_encode _
  rootSums := hsums

section
variable {ι δ : Type} {node : ι → Except MerkleError Node}
  {document : String → ι → List ProofStepDocument → δ} {leaves : List ι}
  {metadata : ReportMetadata} {signer : ReportSigner} {pub : PublicationOf δ} {nodes : List Node}
  {tree : SumTree sha256}

theorem Published.document_at
    (h : Published sha256 ed node document leaves metadata signer pub nodes tree) {i : ℕ} {l : ι}
    (hl : leaves[i]? = some l) : pub.proofs[i]? = some (document
      (reportDigestHex sha256 pub.signedReport.report) l ((path i tree.levels).map stepDocument)) := by
  rw [h.documents, List.getElem?_map, List.getElem?_zipIdx, hl]
  simp

theorem Published.node_at
    (h : Published sha256 ed node document leaves metadata signer pub nodes tree) {i : ℕ} {l : ι}
    (hl : leaves[i]? = some l) : ∃ n, nodes[i]? = some n ∧ node l = .ok n := by
  obtain ⟨hi, rfl⟩ := List.getElem?_eq_some_iff.mp hl
  have hn : i < nodes.length := h.committed.length_eq ▸ hi
  exact ⟨nodes[i], List.getElem?_eq_getElem hn, List.Forall₂.get h.committed hi hn⟩

theorem Published.folds
    (h : Published sha256 ed node document leaves metadata signer pub nodes tree)
    (hsig : ed.AcceptsOwn) {i : ℕ} {n : Node} (hn : nodes[i]? = some n) :
    Verify.Folds sha256 ed pub.signedReport n ((path i tree.levels).map stepDocument)
      (reportDigestHex sha256 pub.signedReport.report) (signer.publicKeyHex ed) (path i tree.levels)
      tree.root := by
  rw [h.report]
  exact signReport_folds hsig (refold_prove h.built hn) rfl rfl

/-- The version a publication declares is right about its manifest, so that the report passes as
    soon as the manifest agrees with it. -/
theorem Published.versionAndManifest
    (h : Published sha256 ed node document leaves metadata signer pub nodes tree) {u : Unit} :
    Verify.checkReportVersionAndManifest pub.signedReport.report = .ok u ↔
      ∀ m, metadata.manifest = some m → Verify.ManifestConsistent pub.signedReport.report m := by
  have hne : reportFormatVersion ≠ reportFormatVersionV2 := by decide
  have hversion : pub.signedReport.report.formatVersion =
      if metadata.manifest.isSome then reportFormatVersionV2 else reportFormatVersion := by
    rw [h.report]; rfl
  have hmanifest : pub.signedReport.report.manifest = metadata.manifest := by rw [h.report]; rfl
  rw [Verify.checkReportVersionAndManifest_eq_ok, hversion, hmanifest]
  cases metadata.manifest with
  | none => simp
  | some m => simp [hne.symm]

end
end AssuranceLayer.Produce
