import AssuranceLayer.Completeness
import Mathlib.Data.List.Destutter

set_option autoImplicit false

/-!
One commitment packaged for several audiences: the same leaves published once for every manifest.
-/
namespace AssuranceLayer.Packaging
open Fallible Framing Sums Merkle LevelTree Document Digest Profile Sign Produce Verify Completeness SortedMap

inductive PackagingError where
  /-- "publishing for no audience is not a packaging" -/
  | noAudience
  /-- "two packagings name the same audience, so one would silently replace the other" -/
  | sameAudience
  | publish (e : PublishError)
deriving DecidableEq

variable (sha256 : List UInt8 → Digest) (ed : Ed25519)

def publishForAudiences (leaves : List LeafInput) (metadata : ReportMetadata) (manifests : List Manifest)
    (signer : ReportSigner) : Except PackagingError (List Publication) := do
  ensure (manifests.isEmpty = false) .noAudience
  let audiences := (manifests.map Manifest.audience).insertionSort (· ≤ ·)
  let distinct := (audiences.destutter (· ≠ ·)).length
  ensure (distinct = manifests.length) .sameAudience
  manifests.mapM fun manifest =>
    (publish sha256 ed leaves { metadata with manifest := some manifest } signer).mapError .publish

/-- Identical root and totals. -/
def sameCommitment (a b : Report) : Bool :=
  a.rootHash = b.rootHash && a.rootSums = b.rootSums && a.leafCount = b.leafCount

/-! ## Distinct audiences -/

/-- Sorting brings equal entries together, so nothing is dropped exactly when all of them differ. -/
theorem destutter_sorted_length (l : List String) :
    ((l.insertionSort (· ≤ ·)).destutter (· ≠ ·)).length = l.length ↔ l.Nodup := by
  have hperm := List.perm_insertionSort (· ≤ ·) l
  have hsorted := List.pairwise_insertionSort (· ≤ ·) l
  rw [← hperm.length_eq, ← hperm.nodup_iff]
  constructor
  · intro h
    have hself := (List.destutter_sublist (· ≠ ·) _).eq_of_length h
    have hchain := (List.destutter_eq_self_iff (· ≠ ·) _).mp hself
    rw [List.isChain_iff_getElem] at hchain
    have hlt : (l.insertionSort (· ≤ ·)).IsChain (· < ·) := List.isChain_iff_getElem.mpr fun i hi =>
      lt_of_le_of_ne (List.isChain_iff_getElem.mp hsorted.isChain i hi) (hchain i hi)
    exact hlt.pairwise.imp ne_of_lt
  · intro h
    rw [(List.destutter_eq_self_iff (· ≠ ·) _).mpr h.isChain]

variable {sha256 ed} {leaves : List LeafInput} {metadata : ReportMetadata} {manifests : List Manifest}
  {signer : ReportSigner}

theorem publishForAudiences_eq_ok {pubs : List Publication} :
    publishForAudiences sha256 ed leaves metadata manifests signer = .ok pubs ↔
      manifests.isEmpty = false ∧ (manifests.map Manifest.audience).Nodup ∧
      List.Forall₂ (fun manifest pub =>
        publish sha256 ed leaves { metadata with manifest := some manifest } signer = .ok pub) manifests pubs := by
  simp only [publishForAudiences, bind_eq_ok, ensure_eq_ok, mapM_eq_ok, mapError_eq_ok]
  rw [← List.length_map Manifest.audience, destutter_sorted_length]
  constructor
  · rintro ⟨_, hsome, _, hdistinct, hpubs⟩
    exact ⟨hsome, hdistinct, hpubs⟩
  · rintro ⟨hsome, hdistinct, hpubs⟩
    exact ⟨(), hsome, (), hdistinct, hpubs⟩

/-! ## Publishing does not look at the manifest -/

theorem exists_publish_iff : (∃ pub, publish sha256 ed leaves metadata signer = .ok pub) ↔
    leaves.isEmpty = false ∧ ∃ nodes tree, List.Forall₂ (fun l n => inputNode sha256 l = .ok n) leaves nodes ∧
      SumTree.build sha256 nodes = .ok tree := by
  constructor
  · rintro ⟨pub, hpub⟩
    obtain ⟨nodes, tree, h⟩ := publishWith_published hpub
    simp only [publish, publishWith, bind_eq_ok, ensure_eq_ok] at hpub
    obtain ⟨_, hsome, _⟩ := hpub
    exact ⟨hsome, nodes, tree, h.committed, h.built⟩
  · rintro ⟨hsome, nodes, tree, hnodes, htree⟩
    simp only [publish, publishWith, bind_eq_ok, ensure_eq_ok, mapError_eq_ok, pure_eq_ok]
    refine ⟨⟨signReport sha256 ed (assembleReport tree.root leaves.length metadata) signer,
      leaves.zipIdx.map fun leaf =>
        proofDocument (reportDigestHex sha256 (assembleReport tree.root leaves.length metadata)) leaf.1
          ((path leaf.2 tree.levels).map stepDocument)⟩,
      (), hsome, nodes, mapM_eq_ok.mpr hnodes, tree, htree, _, mapM_eq_map fun leaf hleaf => ?_, rfl⟩
    -- Every leaf of the tree has a path, whatever the report says.
    have hlt := List.snd_lt_of_mem_zipIdx hleaf
    rw [(prove_eq_ok htree).mpr ⟨by rw [← hnodes.length_eq]; omega, rfl⟩]
    rfl

theorem exists_error_iff {ε α : Type} {x : Except ε α} : (∃ e, x = .error e) ↔ ¬ ∃ a, x = .ok a := by
  cases x <;> simp

theorem publishForAudiences_error_iff (hmanifests : manifests ≠ []) :
    (∃ e, publishForAudiences sha256 ed leaves metadata manifests signer = .error e) ↔
      ¬ (manifests.map Manifest.audience).Nodup ∨ ∃ e, publish sha256 ed leaves metadata signer = .error e := by
  simp only [exists_error_iff, publishForAudiences_eq_ok]
  rw [← not_and_or, not_iff_not]
  constructor
  · rintro ⟨pubs, _, hdistinct, hpubs⟩
    obtain ⟨manifest, hmem⟩ := List.exists_mem_of_ne_nil _ hmanifests
    obtain ⟨pub, _, hpub⟩ := exists_of_forall₂ hpubs hmem
    exact ⟨hdistinct, exists_publish_iff.mpr (exists_publish_iff.mp ⟨pub, hpub⟩)⟩
  · rintro ⟨hdistinct, hpublish⟩
    have heach : ∀ m ∈ manifests, ∃ pub,
        publish sha256 ed leaves { metadata with manifest := some m } signer = .ok pub :=
      fun _ _ => exists_publish_iff.mpr (exists_publish_iff.mp hpublish)
    obtain ⟨pubs, hpubs⟩ := exists_mapM_eq_ok.mpr heach
    exact ⟨pubs, List.isEmpty_eq_false_iff.mpr hmanifests, hdistinct, mapM_eq_ok.mp hpubs⟩

/-! ## The packagings of one commitment -/

/-- The report a manifest gets over a tree of the leaves. -/
def packagedReport (leaves : List LeafInput) (metadata : ReportMetadata) (root : Node) (manifest : Manifest) : Report :=
  assembleReport root leaves.length { metadata with manifest := some manifest }

theorem packaged_sameCommitment (root : Node) (m m' : Manifest) :
    sameCommitment (packagedReport leaves metadata root m) (packagedReport leaves metadata root m') = true := by
  simp [sameCommitment, packagedReport, assembleReport]

theorem packaged_preimage (root : Node) (m : Manifest) :
    reportPreimage (packagedReport leaves metadata root m) = utf8 reportDigestDomainV2 ++
      (reportFields (withoutManifest (packagedReport leaves metadata root m)) ++ manifestSection m) := by
  simp [reportPreimage, packagedReport, assembleReport, reportFields, withoutManifest]

theorem packaged_preimage_ne {root : Node} {m m' : Manifest} (hm : Short m.audience) (hm' : Short m'.audience)
    (h : m.audience ≠ m'.audience) : reportPreimage (packagedReport leaves metadata root m) ≠
      reportPreimage (packagedReport leaves metadata root m') := by
  have hbody : withoutManifest (packagedReport leaves metadata root m) =
      withoutManifest (packagedReport leaves metadata root m') := rfl
  rw [packaged_preimage, packaged_preimage, hbody]
  intro heq
  have hsection := List.append_cancel_left (List.append_cancel_left heq)
  exact h (framed_lp m.audience m'.audience hm hm' _ _ hsection).1

/-- What the packagings of one commitment have in common, and what keeps them apart. -/
structure OneCommitment (sha256 : List UInt8 → Digest) (ed : Ed25519) (leaves : List LeafInput)
    (metadata : ReportMetadata) (manifests : List Manifest) (signer : ReportSigner) (pubs : List Publication) :
    Prop where
  inOrder : List.Forall₂ (fun manifest pub =>
    publish sha256 ed leaves { metadata with manifest := some manifest } signer = .ok pub ∧
      pub.signedReport.report.manifest = some manifest) manifests pubs
  same : ∀ p ∈ pubs, ∀ q ∈ pubs, sameCommitment p.signedReport.report q.signedReport.report = true
  digests : CollisionFreeOn sha256 (pubs.map fun p => reportPreimage p.signedReport.report) →
    (pubs.map fun p => reportDigest sha256 p.signedReport.report).Nodup
  accepted : ∀ p ∈ pubs, (∀ m, p.signedReport.report.manifest = some m → ManifestConsistent p.signedReport.report m) →
    ∀ proof ∈ p.proofs, verify sha256 ed p.signedReport proof (signer.publicKeyHex ed) = .ok ()
  bound : CollisionFreeOn sha256 (pubs.map fun p => reportPreimage p.signedReport.report) →
    ∀ (i j : ℕ) (p q : Publication), i ≠ j → pubs[i]? = some p → pubs[j]? = some q →
      ∀ proof ∈ p.proofs, ∀ key, verify sha256 ed q.signedReport proof key ≠ .ok ()

/-- The tree every packaging is over. -/
theorem packagings_published {pubs : List Publication} (h : List.Forall₂ (fun manifest pub =>
    publish sha256 ed leaves { metadata with manifest := some manifest } signer = .ok pub) manifests pubs)
    (hmanifests : manifests ≠ []) : ∃ nodes tree, List.Forall₂ (fun (manifest : Manifest) (pub : Publication) =>
      Published sha256 ed (inputNode sha256) proofDocument leaves { metadata with manifest := some manifest }
        signer pub nodes tree) manifests pubs := by
  obtain ⟨manifest, hmem⟩ := List.exists_mem_of_ne_nil _ hmanifests
  obtain ⟨pub, _, hpub⟩ := exists_of_forall₂ h hmem
  obtain ⟨nodes, tree, hpublished⟩ := publishWith_published hpub
  refine ⟨nodes, tree, h.imp fun m q hq => ?_⟩
  obtain ⟨nodes', tree', hother⟩ := publishWith_published hq
  have hnodes : nodes = nodes' := Except.ok.inj
    ((mapM_eq_ok.mpr hpublished.committed).symm.trans (mapM_eq_ok.mpr hother.committed))
  subst hnodes
  have htree : tree = tree' := Except.ok.inj (hpublished.built.symm.trans hother.built)
  rwa [← htree] at hother

theorem verify_digest {signed : SignedReport} {proof : ProofDocument} {key : String}
    (h : verify sha256 ed signed proof key = .ok ()) : reportDigestHex sha256 signed.report = proof.reportDigest := by
  obtain ⟨_, _, _, _, _, _, _, _, _, _, hfolds⟩ := verify_eq_ok.mp h
  exact hfolds.digest

theorem proof_digest {nodes : List Node} {tree : SumTree sha256} {pub : Publication}
    (h : Published sha256 ed (inputNode sha256) proofDocument leaves metadata signer pub nodes tree)
    {proof : ProofDocument} (hproof : proof ∈ pub.proofs) :
    proof.reportDigest = reportDigestHex sha256 pub.signedReport.report := by
  rw [h.documents] at hproof
  obtain ⟨leaf, _, rfl⟩ := List.mem_map.mp hproof
  rfl

theorem packaging_verifies {nodes : List Node} {tree : SumTree sha256} {pub : Publication} (hsig : ed.AcceptsOwn)
    (hprofile : metadata.profile = "solvency.liabilities") (hholders : ∃ l ∈ leaves, l.balances.isEmpty = false)
    (h : Published sha256 ed (inputNode sha256) proofDocument leaves metadata signer pub nodes tree)
    (hmanifest : ∀ m, metadata.manifest = some m → ManifestConsistent pub.signedReport.report m)
    {proof : ProofDocument} (hproof : proof ∈ pub.proofs) :
    verify sha256 ed pub.signedReport proof (signer.publicKeyHex ed) = .ok () := by
  have hlookup : lookup metadata.profile = some solvencyLiabilities := by rw [hprofile]; decide +kernel
  have hvalid := (validate_liabilities h hlookup).mpr hholders
  rw [h.documents] at hproof
  obtain ⟨leaf, hleaf, rfl⟩ := List.mem_map.mp hproof
  exact verify_published h hsig ⟨_, hvalid, rfl⟩ (h.versionAndManifest.mpr hmanifest)
    (List.mem_zipIdx_iff_getElem?.mp hleaf)

variable (sha256) in
/-- Reports for different audiences have different texts under their digests. -/
theorem packagings_digests {pubs : List Publication} {root : Node}
    (hreports : (pubs.map fun p => p.signedReport.report) = manifests.map (packagedReport leaves metadata root))
    (hdistinct : (manifests.map Manifest.audience).Nodup) (hshort : ∀ m ∈ manifests, Short m.audience)
    (hcf : CollisionFreeOn sha256 (pubs.map fun p => reportPreimage p.signedReport.report)) :
    (pubs.map fun p => reportDigest sha256 p.signedReport.report).Nodup := by
  have hmapped : ∀ {α : Type} (f : Report → α), (pubs.map fun p => f p.signedReport.report) =
      manifests.map fun m => f (packagedReport leaves metadata root m) := by
    intro α f
    have hmap := congrArg (List.map f) hreports
    rwa [List.map_map, List.map_map] at hmap
  rw [hmapped] at hcf ⊢
  rw [List.Nodup, List.pairwise_map]
  refine (List.pairwise_map.mp hdistinct).imp_of_mem fun hm hm' hne heq => ?_
  exact packaged_preimage_ne (hshort _ hm) (hshort _ hm') hne
    (hcf _ (List.mem_map_of_mem hm) _ (List.mem_map_of_mem hm') heq)

variable (sha256) in
/-- Packagings for distinct audiences are published exactly when the leaves are, share their root and
    totals, and are told apart by their digests, so that a proof stands under one of them only. -/
theorem audiences_one_commitment (hsig : ed.AcceptsOwn) (leaves : List LeafInput) (metadata : ReportMetadata)
    (manifests : List Manifest) (signer : ReportSigner) (hholders : ∃ l ∈ leaves, l.balances.isEmpty = false)
    (hprofile : metadata.profile = "solvency.liabilities") (hmanifests : manifests ≠ [])
    (hshort : ∀ m ∈ manifests, Short m.audience) :
    ((∃ e, publishForAudiences sha256 ed leaves metadata manifests signer = .error e) ↔
      ¬ (manifests.map Manifest.audience).Nodup ∨ ∃ e, publish sha256 ed leaves metadata signer = .error e) ∧
    ∀ pubs, publishForAudiences sha256 ed leaves metadata manifests signer = .ok pubs →
      OneCommitment sha256 ed leaves metadata manifests signer pubs := by
  refine ⟨publishForAudiences_error_iff hmanifests, fun pubs hpubs => ?_⟩
  obtain ⟨_, hdistinct, heach⟩ := publishForAudiences_eq_ok.mp hpubs
  obtain ⟨nodes, tree, hpublished⟩ := packagings_published heach hmanifests
  have hreport : List.Forall₂ (fun manifest (pub : Publication) =>
      pub.signedReport.report = packagedReport leaves metadata tree.root manifest) manifests pubs :=
    hpublished.imp fun m pub h => by rw [h.report]; rfl
  have hreports : (pubs.map fun p => p.signedReport.report) =
      manifests.map (packagedReport leaves metadata tree.root) := by
    rw [← List.forall₂_eq_eq_eq, List.forall₂_map_left_iff, List.forall₂_map_right_iff]
    exact hreport.flip
  have hdigests := packagings_digests sha256 hreports hdistinct hshort
  refine ⟨?_, fun p hp q hq => ?_, hdigests, fun p hp hm proof hproof => ?_,
    fun hcf i j p q hij hp hq proof hproof key hok => ?_⟩
  · refine heach.imp fun m pub hpub => ⟨hpub, ?_⟩
    obtain ⟨_, _, h⟩ := publishWith_published hpub
    rw [h.report]
    rfl
  · obtain ⟨m, _, hpm⟩ := exists_of_forall₂ hreport.flip hp
    obtain ⟨m', _, hqm⟩ := exists_of_forall₂ hreport.flip hq
    rw [hpm, hqm, packaged_sameCommitment]
  · obtain ⟨m, _, h⟩ := exists_of_forall₂ hpublished.flip hp
    refine packaging_verifies hsig (by exact hprofile) hholders h (fun m' hm' => hm m' ?_) hproof
    rw [h.report]
    exact hm'
  · obtain ⟨m, _, h⟩ := exists_of_forall₂ hpublished.flip (List.mem_of_getElem? hp)
    have hhex := (verify_digest hok).trans (proof_digest h hproof)
    have hlt : i < (pubs.map fun p => reportDigest sha256 p.signedReport.report).length := by
      rw [List.length_map]
      exact (List.getElem?_eq_some_iff.mp hp).1
    refine hij ((List.getElem?_inj hlt (hdigests hcf)).mp ?_)
    rw [List.getElem?_map, List.getElem?_map, hp, hq]
    exact congrArg some (hexEncode_digest_inj hhex).symm

/-! ## Two audiences -/

def twoManifests : List Manifest :=
  [⟨"public", ofList [("root_sums", .published)]⟩, ⟨"regulator", ofList [("root_sums", .published),
    ("customer_balances", .committed)]⟩]

def packageGolden (manifests : List Manifest) : Except PackagingError (List Publication) :=
  publishForAudiences Sha256.sha256 (goldenEd25519 []) goldenLeaves goldenMetadata manifests goldenSigner

theorem audiences_one_commitment_two :
    (∃ pubs, packageGolden twoManifests = .ok pubs ∧
      (pubs.map fun p => reportDigest Sha256.sha256 p.signedReport.report).Nodup ∧
      OneCommitment Sha256.sha256 (goldenEd25519 []) goldenLeaves goldenMetadata twoManifests goldenSigner pubs) := by
  obtain ⟨pubs, hpubs⟩ : ∃ pubs, packageGolden twoManifests = .ok pubs := exists_of_isOk (by decide +kernel)
  have hown : (goldenEd25519 []).AcceptsOwn := recorded_acceptsOwn _ _ _
  obtain ⟨_, hpackaged⟩ := audiences_one_commitment Sha256.sha256 hown goldenLeaves goldenMetadata twoManifests
    goldenSigner ⟨_, List.mem_cons_self, by decide +kernel⟩ rfl (by decide) (by decide)
  have hpreimages : ((packageGolden twoManifests).toOption.map fun pubs =>
      decide ((pubs.map fun p => reportPreimage p.signedReport.report).dedup.map Sha256.sha256).Nodup) =
        some true := by decide +kernel
  rw [hpubs] at hpreimages
  have hcf := collisionFreeOn_of_nodup (of_decide_eq_true (Option.some.inj hpreimages))
  have h := hpackaged pubs hpubs
  exact ⟨pubs, hpubs, h.digests hcf, h⟩

end AssuranceLayer.Packaging
