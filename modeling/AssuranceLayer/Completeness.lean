import AssuranceLayer.Produce

set_option autoImplicit false

/-!
What a publisher signs, a verifier accepts: every proof of a publication verifies, for every
number of leaves and every registered profile whose rules the holders satisfy.
-/
namespace AssuranceLayer.Completeness
open Fallible Sums Merkle LevelTree Document Digest Profile Sign Produce Verify SortedMap

def holdersTotal (holders : List Maps) (mapName asset : String) : ℕ :=
  (holders.map fun maps => amount ((maps.get? mapName).getD empty) asset).sum

/-- The rules of a profile over named maps, read as conditions on the holders. -/
structure HoldersSatisfy (rules : ProfileRules) (holders : List Maps) : Prop where
  aggregates : ∀ mapName, mapName ++ "/*" ∈ rules.requiredAggregates →
    ∃ maps ∈ holders, CarriesMap maps mapName
  coverage : ∀ c, rules.coverage = some c → ∀ asset,
    holdersTotal holders c.covered asset ≤ holdersTotal holders c.covering asset
  leafMaps : ∀ required ∈ rules.requiredLeafMaps, ∀ maps ∈ holders, CarriesMap maps required
  unanimous : ∀ mapName ∈ rules.unanimousMaps, ∀ rule,
    (∃ maps ∈ holders, ∃ m, maps.get? mapName = some m ∧ rule ∈ m.keys) →
      holdersTotal holders mapName rule = holders.length * 10 ^ 18

variable {sha256 : List UInt8 → Digest} {ed : Ed25519}

section
variable {ι δ : Type} {node : ι → Except MerkleError Node}
  {document : String → ι → List ProofStepDocument → δ} {leaves : List ι}
  {metadata : ReportMetadata} {signer : ReportSigner} {pub : PublicationOf δ} {nodes : List Node}
  {tree : SumTree sha256}

theorem leafCount_eq (h : Published sha256 ed node document leaves metadata signer pub nodes tree)
    (hlen : leaves.length < 2 ^ 64) : pub.signedReport.report.leafCount.val = leaves.length := by
  rw [h.report]
  exact Nat.mod_eq_of_lt hlen

theorem profile_eq (h : Published sha256 ed node document leaves metadata signer pub nodes tree) :
    pub.signedReport.report.profile = metadata.profile := by
  rw [h.report]
  rfl

theorem rules_eq (h : Published sha256 ed node document leaves metadata signer pub nodes tree)
    {rules rules' : ProfileRules} (hprofile : lookup metadata.profile = some rules)
    (hrules : validate pub.signedReport.report = .ok rules') : rules' = rules := by
  have hlookup := (validate_eq_ok.mp hrules).1
  rw [profile_eq h, hprofile] at hlookup
  exact (Option.some.inj hlookup).symm

theorem rootSums_amount
    (h : Published sha256 ed node document leaves metadata signer pub nodes tree) {f : ι → AmountMap}
    (hf : ∀ l n, node l = .ok n → n.sums = f l) (a : String) :
    amount pub.signedReport.report.rootSums a = (leaves.map fun l => amount (f l) a).sum := by
  have hsums : amount pub.signedReport.report.rootSums a = amount tree.root.sums a := by
    rw [h.report]
    rfl
  have hmap : (nodes.map fun n => amount n.sums a) = leaves.map fun l => amount (f l) a := by
    rw [← List.forall₂_eq_eq_eq, List.forall₂_map_left_iff, List.forall₂_map_right_iff]
    exact h.committed.flip.imp fun n l hn => by rw [hf l n hn]
  rw [hsums, root_amount h.built, hmap]

theorem rootSums_keys
    (h : Published sha256 ed node document leaves metadata signer pub nodes tree) {f : ι → AmountMap}
    (hf : ∀ l n, node l = .ok n → n.sums = f l) (a : String) :
    a ∈ pub.signedReport.report.rootSums.keys ↔ ∃ l ∈ leaves, a ∈ (f l).keys := by
  have hsums : pub.signedReport.report.rootSums = tree.root.sums := by
    rw [h.report]
    rfl
  rw [hsums, root_keys h.built]
  constructor
  · rintro ⟨n, hn, ha⟩
    obtain ⟨i, hi, rfl⟩ := List.getElem_of_mem hn
    have hl : i < leaves.length := h.committed.length_eq.symm ▸ hi
    have hnode := List.Forall₂.get h.committed hl hi
    exact ⟨leaves[i], List.getElem_mem hl, hf _ _ hnode ▸ ha⟩
  · rintro ⟨l, hl, ha⟩
    obtain ⟨i, hi, rfl⟩ := List.getElem_of_mem hl
    obtain ⟨n, hn, hnode⟩ := h.node_at (List.getElem?_eq_getElem hi)
    exact ⟨n, List.mem_of_getElem? hn, (hf _ _ hnode).symm ▸ ha⟩

end

/-! ## One balance set -/

theorem inputNode_sums {l : LeafInput} {n : Node} (h : inputNode sha256 l = .ok n) :
    n.sums = l.balances := by
  rw [inputNode, leafNode_entries, Except.ok.injEq] at h
  rw [← h]

theorem customer_rules {rules : ProfileRules} (h : rules ∈ registry) (hleaf : rules.leaf = .customer) :
    rules = solvencyLiabilities := by
  revert hleaf
  revert rules
  decide +kernel

theorem rootSums_not_empty {ι δ : Type} {node : ι → Except MerkleError Node}
    {document : String → ι → List ProofStepDocument → δ} {leaves : List ι}
    {metadata : ReportMetadata} {signer : ReportSigner} {pub : PublicationOf δ} {nodes : List Node}
    {tree : SumTree sha256}
    (h : Published sha256 ed node document leaves metadata signer pub nodes tree) {f : ι → AmountMap}
    (hf : ∀ l n, node l = .ok n → n.sums = f l) :
    pub.signedReport.report.rootSums.isEmpty = false ↔ ∃ l ∈ leaves, (f l).isEmpty = false := by
  simp only [isEmpty_eq_false_iff, rootSums_keys h hf]
  constructor
  · rintro ⟨k, l, hl, hk⟩
    exact ⟨l, hl, k, hk⟩
  · rintro ⟨l, hl, k, hk⟩
    exact ⟨k, l, hl, hk⟩

theorem validate_liabilities {leaves : List LeafInput} {metadata : ReportMetadata}
    {signer : ReportSigner} {pub : Publication} {nodes : List Node} {tree : SumTree sha256}
    (h : Published sha256 ed (inputNode sha256) proofDocument leaves metadata signer pub nodes tree)
    (hprofile : lookup metadata.profile = some solvencyLiabilities) :
    validate pub.signedReport.report = .ok solvencyLiabilities ↔
      ∃ l ∈ leaves, l.balances.isEmpty = false := by
  have hempty := rootSums_not_empty h (fun _ _ => inputNode_sums)
  rw [validate_eq_ok, profile_eq h, ← hempty]
  constructor
  · rintro ⟨_, haggregates, _⟩
    exact haggregates "root_sums" (by simp [solvencyLiabilities])
  · intro hsums
    refine ⟨hprofile, ?_, by simp [solvencyLiabilities], by simp [solvencyLiabilities]⟩
    simpa [solvencyLiabilities, AggregatePresent] using hsums

/-! ## Several named maps -/

theorem inputNodeV2_eq_ok {l : LeafInputV2} {n : Node} (h : inputNodeV2 sha256 l = .ok n) :
    SafeMaps l.maps ∧ n.sums = flatten l.maps := by
  obtain ⟨hsafe, rfl⟩ := (leafNodeV2_eq_ok sha256).mp h
  exact ⟨hsafe, rfl⟩

theorem amount_flatten {maps : Maps} (h : SafeMaps maps) {mapName : String}
    (hname : isSafeName mapName = true) (asset : String) :
    amount (flatten maps) (qualified mapName asset) =
      amount ((maps.get? mapName).getD empty) asset := by
  have hkey : ∀ v, (flatten maps).get? (qualified mapName asset) = some v ↔
      ∃ m, maps.get? mapName = some m ∧ m.get? asset = some v := by
    intro v
    rw [flatten_get? h]
    constructor
    · rintro ⟨name, amounts, asset', hm, he, hq⟩
      obtain ⟨rfl, rfl⟩ := qualified_inj hname (h _ hm).1 hq
      exact ⟨amounts, get?_eq_some.mpr hm, get?_eq_some.mpr he⟩
    · rintro ⟨m, hm, hv⟩
      exact ⟨mapName, m, asset, get?_eq_some.mp hm, get?_eq_some.mp hv, rfl⟩
  have hopt : (flatten maps).get? (qualified mapName asset) =
      ((maps.get? mapName).getD empty).get? asset := by
    ext v
    rw [hkey]
    cases maps.get? mapName with
    | none => simp
    | some m => simp
  rw [amount, amount, hopt]

theorem mem_flatten_keys {maps : Maps} (h : SafeMaps maps) {mapName : String}
    (hname : isSafeName mapName = true) {asset : String} :
    qualified mapName asset ∈ (flatten maps).keys ↔
      ∃ m, maps.get? mapName = some m ∧ asset ∈ m.keys := by
  rw [mem_keys, Option.isSome_iff_exists]
  simp only [flatten_get? h]
  constructor
  · rintro ⟨v, name, amounts, asset', hm, he, hq⟩
    obtain ⟨rfl, rfl⟩ := qualified_inj hname (h _ hm).1 hq
    exact ⟨amounts, get?_eq_some.mpr hm, List.mem_map_of_mem he⟩
  · rintro ⟨m, hm, hmem⟩
    obtain ⟨v, hv⟩ := Option.isSome_iff_exists.mp (mem_keys.mp hmem)
    exact ⟨v, mapName, m, asset, get?_eq_some.mp hm, get?_eq_some.mp hv, rfl⟩

def aggregateMaps : List String :=
  ["collateral", "exposure", "units", "entitlement", "delivered", "paid", "attested", "held"]

theorem aggregateMaps_qualified : ∀ mapName ∈ aggregateMaps, isSafeName mapName = true ∧
    mapName ++ "/*" ≠ "root_sums" ∧ mapName ++ "/*" ≠ "mark_prices" ∧
    qualifiedPrefix (mapName ++ "/*") = some (mapName ++ "/") := by
  decide +kernel

/-- The rules of a profile over named maps speak of qualified aggregates and of safe names. -/
theorem registry_names : ∀ rules ∈ registry, rules.leaf.usesLeafV2 = true →
    (∀ aggregate ∈ rules.requiredAggregates, ∃ mapName ∈ aggregateMaps, aggregate = mapName ++ "/*") ∧
    (∀ c ∈ rules.coverage, isSafeName c.covering = true ∧ isSafeName c.covered = true) ∧
    ∀ mapName ∈ rules.unanimousMaps, isSafeName mapName = true := by
  decide +kernel

theorem startsWith_append (p s : String) : startsWith p (p ++ s) = true := by
  rw [startsWith, List.isPrefixOf_iff_prefix, String.toList_append]
  exact List.prefix_append _ _

section
variable {leaves : List LeafInputV2} {metadata : ReportMetadata} {signer : ReportSigner}
  {pub : PublicationV2} {nodes : List Node} {tree : SumTree sha256}

theorem committed_safe
    (h : Published sha256 ed (inputNodeV2 sha256) proofDocumentV2 leaves metadata signer pub nodes tree)
    {l : LeafInputV2} (hl : l ∈ leaves) : SafeMaps l.maps := by
  obtain ⟨i, hi⟩ := List.mem_iff_getElem?.mp hl
  obtain ⟨n, _, hn⟩ := h.node_at hi
  exact (inputNodeV2_eq_ok hn).1

theorem rootSums_total
    (h : Published sha256 ed (inputNodeV2 sha256) proofDocumentV2 leaves metadata signer pub nodes tree)
    {mapName : String} (hname : isSafeName mapName = true) (asset : String) :
    amount pub.signedReport.report.rootSums (qualified mapName asset) =
      holdersTotal (leaves.map LeafInputV2.maps) mapName asset := by
  rw [rootSums_amount h fun _ _ hn => (inputNodeV2_eq_ok hn).2, holdersTotal, List.map_map]
  congr 1
  exact List.map_congr_left fun l hl => amount_flatten (committed_safe h hl) hname asset

theorem mem_rootSums_keys
    (h : Published sha256 ed (inputNodeV2 sha256) proofDocumentV2 leaves metadata signer pub nodes tree)
    {mapName : String} (hname : isSafeName mapName = true) {asset : String} :
    qualified mapName asset ∈ pub.signedReport.report.rootSums.keys ↔
      ∃ maps ∈ leaves.map LeafInputV2.maps, ∃ m, maps.get? mapName = some m ∧ asset ∈ m.keys := by
  rw [rootSums_keys h fun _ _ hn => (inputNodeV2_eq_ok hn).2]
  simp only [List.mem_map, exists_exists_and_eq_and]
  exact exists_congr fun l => and_congr_right fun hl =>
    mem_flatten_keys (committed_safe h hl) hname

theorem validate_holders
    (h : Published sha256 ed (inputNodeV2 sha256) proofDocumentV2 leaves metadata signer pub nodes tree)
    (hlen : leaves.length < 2 ^ 64) {rules : ProfileRules} (hprofile : lookup metadata.profile = some rules)
    (hv2 : rules.leaf.usesLeafV2 = true)
    (hholders : HoldersSatisfy rules (leaves.map LeafInputV2.maps)) :
    validate pub.signedReport.report = .ok rules := by
  obtain ⟨haggregates, hcoverage, hunanimous⟩ := registry_names rules (lookup_mem hprofile).1 hv2
  rw [validate_eq_ok, profile_eq h]
  refine ⟨hprofile, ?_, ?_, ?_⟩
  · intro aggregate hmem
    obtain ⟨mapName, hin, rfl⟩ := haggregates aggregate hmem
    obtain ⟨hsafe, hroot, hmark, hprefix⟩ := aggregateMaps_qualified mapName hin
    obtain ⟨maps, hmaps, m, hm, hne⟩ := hholders.aggregates mapName hmem
    obtain ⟨asset, hasset⟩ := isEmpty_eq_false_iff.mp hne
    rw [AggregatePresent, if_neg hroot, if_neg hmark]
    exact ⟨_, hprefix, qualified mapName asset,
      (mem_rootSums_keys h hsafe).mpr ⟨maps, hmaps, m, hm, hasset⟩, startsWith_append _ _⟩
  · intro c hc asset
    obtain ⟨hcovering, hcovered⟩ := hcoverage c hc
    have hle := hholders.coverage c hc asset
    rwa [← rootSums_total h hcovering, ← rootSums_total h hcovered] at hle
  · intro mapName hmem rule v hv
    have hsafe := hunanimous mapName hmem
    have hkey := mem_keys.mpr (Option.isSome_iff_exists.mpr ⟨v, hv⟩)
    have htotal := hholders.unanimous mapName hmem rule ((mem_rootSums_keys h hsafe).mp hkey)
    rw [← rootSums_total h hsafe, List.length_map] at htotal
    rw [leafCount_eq h hlen, ← htotal]
    exact (amount_of_get? hv).symm

end

theorem proof_count {ι δ : Type} {node : ι → Except MerkleError Node}
    {document : String → ι → List ProofStepDocument → δ} {leaves : List ι}
    {metadata : ReportMetadata} {signer : ReportSigner} {pub : PublicationOf δ} {nodes : List Node}
    {tree : SumTree sha256}
    (h : Published sha256 ed node document leaves metadata signer pub nodes tree) :
    pub.proofs.length = leaves.length := by
  rw [h.documents, List.length_map, List.length_zipIdx]

theorem verify_published {leaves : List LeafInput} {metadata : ReportMetadata}
    {signer : ReportSigner} {pub : Publication} {nodes : List Node} {tree : SumTree sha256}
    (h : Published sha256 ed (inputNode sha256) proofDocument leaves metadata signer pub nodes tree)
    (hsig : ed.AcceptsOwn)
    (hprofile : ∃ rules, validate pub.signedReport.report = .ok rules ∧ rules.leaf = .customer)
    (hmanifest : checkReportVersionAndManifest pub.signedReport.report = .ok ())
    {i : ℕ} {l : LeafInput} (hl : leaves[i]? = some l) :
    verify sha256 ed pub.signedReport (proofDocument (reportDigestHex sha256 pub.signedReport.report) l
      ((path i tree.levels).map stepDocument)) (signer.publicKeyHex ed) = .ok () := by
  obtain ⟨n, hn, hnode⟩ := h.node_at hl
  rw [verify_eq_ok]
  exact ⟨hmanifest, hprofile, rfl, by rw [h.report]; rfl, l.salt, n, path i tree.levels, tree.root,
    hexDecodeN_encode _, hnode, h.folds hsig hn⟩

theorem verifyV2_published {leaves : List LeafInputV2} {metadata : ReportMetadata}
    {signer : ReportSigner} {pub : PublicationV2} {nodes : List Node} {tree : SumTree sha256}
    (h : Published sha256 ed (inputNodeV2 sha256) proofDocumentV2 leaves metadata signer pub nodes tree)
    (hsig : ed.AcceptsOwn) {rules : ProfileRules}
    (hprofile : validate pub.signedReport.report = .ok rules) (hv2 : rules.leaf.usesLeafV2 = true)
    (hmanifest : checkReportVersionAndManifest pub.signedReport.report = .ok ())
    {i : ℕ} {l : LeafInputV2} (hl : leaves[i]? = some l)
    (hmaps : ∀ required ∈ rules.requiredLeafMaps, CarriesMap l.maps required) :
    verifyV2 sha256 ed pub.signedReport (proofDocumentV2 (reportDigestHex sha256 pub.signedReport.report)
      l ((path i tree.levels).map stepDocument)) (signer.publicKeyHex ed) = .ok () := by
  obtain ⟨n, hn, hnode⟩ := h.node_at hl
  rw [verifyV2_eq_ok]
  exact ⟨hmanifest, ⟨rules, hprofile, hv2, hmaps⟩, rfl, by rw [h.report]; rfl, l.salt, n,
    path i tree.levels, tree.root, hexDecodeN_encode _, hnode, h.folds hsig hn⟩

variable (sha256) in
/-- Publish/verify completeness, for leaves over balance sets and for leaves over named maps. -/
theorem publications_verify (hsig : ed.AcceptsOwn) (metadata : ReportMetadata) (signer : ReportSigner)
    (rules : ProfileRules) (hprofile : lookup metadata.profile = some rules) :
    (∀ (leaves : List LeafInput) (pub : Publication), leaves.length < 2 ^ 64 →
      rules.leaf = .customer → (∃ l ∈ leaves, l.balances.isEmpty = false) →
      publish sha256 ed leaves metadata signer = .ok pub →
      (∀ m, metadata.manifest = some m → ManifestConsistent pub.signedReport.report m) →
      pub.signedReport.report.leafCount.val = leaves.length ∧ pub.proofs.length = leaves.length ∧
      ∀ (i : ℕ) (l : LeafInput), leaves[i]? = some l → ∃ proof, pub.proofs[i]? = some proof ∧
        proof.leaf.userId = l.userId ∧ proof.leaf.balances = l.balances ∧
        verify sha256 ed pub.signedReport proof (signer.publicKeyHex ed) = .ok ()) ∧
    ∀ (leaves : List LeafInputV2) (pub : PublicationV2), leaves.length < 2 ^ 64 →
      rules.leaf.usesLeafV2 = true → HoldersSatisfy rules (leaves.map LeafInputV2.maps) →
      publishV2 sha256 ed leaves metadata signer = .ok pub →
      (∀ m, metadata.manifest = some m → ManifestConsistent pub.signedReport.report m) →
      pub.signedReport.report.leafCount.val = leaves.length ∧ pub.proofs.length = leaves.length ∧
      ∀ (i : ℕ) (l : LeafInputV2), leaves[i]? = some l → ∃ proof, pub.proofs[i]? = some proof ∧
        proof.leaf.subjectId = l.subjectId ∧ proof.leaf.maps = l.maps ∧
        verifyV2 sha256 ed pub.signedReport proof (signer.publicKeyHex ed) = .ok () := by
  constructor
  · intro leaves pub hlen hleaf hholders hpub hmanifest
    obtain ⟨nodes, tree, h⟩ := publishWith_published hpub
    obtain rfl := customer_rules (lookup_mem hprofile).1 hleaf
    have hvalid := (validate_liabilities h hprofile).mpr hholders
    refine ⟨leafCount_eq h hlen, proof_count h, fun i l hl => ⟨_, h.document_at hl, rfl, rfl, ?_⟩⟩
    exact verify_published h hsig ⟨_, hvalid, rfl⟩ (h.versionAndManifest.mpr hmanifest) hl
  · intro leaves pub hlen hv2 hholders hpub hmanifest
    obtain ⟨nodes, tree, h⟩ := publishWith_published hpub
    have hvalid := validate_holders h hlen hprofile hv2 hholders
    refine ⟨leafCount_eq h hlen, proof_count h, fun i l hl => ⟨_, h.document_at hl, rfl, rfl, ?_⟩⟩
    exact verifyV2_published h hsig hvalid hv2 (h.versionAndManifest.mpr hmanifest) hl
      fun required hr => hholders.leafMaps required hr _ (List.mem_map_of_mem (List.mem_of_getElem? hl))

/-! ## The golden publication -/

def goldenDigest : Digest :=
  bytesOf 32 0x0800c1047c9724ea429b238b01366f2032d674425d3ed745ed3402b2f534df61

def eligibleDigest : Digest :=
  bytesOf 32 0xb2d2e458c964988e1a8495770a6f1e5a03261751226ad4ead18f3a0bb99a003c

/-- The golden signer's signatures over the two reports below. -/
def publicationEd25519 : Ed25519 :=
  goldenEd25519
    [(goldenDigest, bytesOf 64
      (0xb1bf2a1fc11476610e385e5017cf7a568b13a0c84088b66ecf58ffa04b78499a * 2 ^ 256 +
        0xda7ff8ebf3c2ee7ec0d10d7130cdc868a8074ff51725252631c67f61ce575a07)),
      (eligibleDigest, bytesOf 64
      (0xdb50bd62461d5c96eb0d351ad7256e1dd9ffbfbee2310d8f6a673dbf2dcbc67a * 2 ^ 256 +
        0x85150984697d499420e8e124c1f56afcdc39ac7db318b1b96c6c531c6aefa70e))]

def goldenLeaf (userId : String) (balances : List (String × U128)) : LeafInput where
  salt := leafSalt Sha256.sha256 (utf8 "golden-v1") userId
  userId := userId
  balances := ofList balances

def goldenLeaves : List LeafInput := [
  goldenLeaf "11111111-1111-7111-8111-111111111111" [("USDA", 100500000000000000000)],
  goldenLeaf "22222222-2222-7222-8222-222222222222"
    [("CBTC", 250000000000000000), ("USDA", 1000000000000000001)],
  goldenLeaf "33333333-3333-7333-8333-333333333333" []]

def goldenMetadata : ReportMetadata where
  profile := "solvency.liabilities"
  publisher := "golden::publisher"
  snapshotTime := "2026-01-01T00:00:00Z"
  ledgerOffset := "000000000000000042"
  markPrices := ofList [("CBTC", 50000000000000000000000)]
  disclosures :=
    { badDebt := ofList [("USDA", 2500000000000000000)]
      excludedHouseAccounts := 1
      excludedHouseTotals := ofList [("USDA", 1000000000000000000000)] }
  manifest := none

example : (publish Sha256.sha256 publicationEd25519 goldenLeaves goldenMetadata goldenSigner).toOption.map
    (fun pub => reportDigest Sha256.sha256 pub.signedReport.report) = some goldenDigest := by
  decide +kernel

def eligibleLeaf (subjectId : String) (tag : ℕ) : LeafInputV2 where
  salt := bytesOf 32 tag
  subjectId := subjectId
  maps := ofList [("attested", ofList [("kyc_tier2", one)])]

def eligibleLeaves : List LeafInputV2 :=
  [eligibleLeaf "holder-1" 1, eligibleLeaf "holder-2" 2, eligibleLeaf "holder-3" 3]

def eligibleManifest : Manifest := ⟨"public", ofList [("customer_balances", .committed)]⟩

def eligibleMetadata : ReportMetadata :=
  { goldenMetadata with profile := "eligibility.holder", manifest := some eligibleManifest }

theorem eligible_holders : HoldersSatisfy eligibilityHolder (eligibleLeaves.map LeafInputV2.maps) where
  aggregates := by
    intro mapName hmem
    obtain rfl : mapName = "attested" := by
      have h : mapName ++ "/*" = "attested" ++ "/*" := by simpa [eligibilityHolder] using hmem
      rw [← String.toList_inj, String.toList_append, String.toList_append] at h
      exact String.toList_inj.mp (List.append_cancel_right h)
    exact ⟨_, List.mem_cons_self, _, rfl, rfl⟩
  coverage := by simp [eligibilityHolder]
  leafMaps := by
    intro required hr maps hmaps
    obtain rfl : required = "attested" := by simpa [eligibilityHolder] using hr
    simp only [eligibleLeaves, eligibleLeaf, List.map_cons, List.map_nil, List.mem_cons,
      List.not_mem_nil, or_false, or_self] at hmaps
    exact hmaps ▸ ⟨_, rfl, rfl⟩
  unanimous := by
    intro mapName hmem rule hrule
    obtain rfl : mapName = "attested" := by simpa [eligibilityHolder] using hmem
    obtain ⟨maps, hmaps, m, hm, hkey⟩ := hrule
    simp only [eligibleLeaves, eligibleLeaf, List.map_cons, List.map_nil, List.mem_cons,
      List.not_mem_nil, or_false, or_self] at hmaps
    subst hmaps
    obtain rfl : ofList [("kyc_tier2", one)] = m := Option.some.inj hm
    obtain rfl : rule = "kyc_tier2" := by simpa [keys_ofList] using hkey
    decide +kernel

theorem publications_verify_golden :
    (∃ pub, publish Sha256.sha256 publicationEd25519 goldenLeaves goldenMetadata goldenSigner = .ok pub ∧
      pub.signedReport.report.leafCount.val = 3 ∧ ∃ proof, pub.proofs[2]? = some proof ∧
        verify Sha256.sha256 publicationEd25519 pub.signedReport proof
          (goldenSigner.publicKeyHex publicationEd25519) = .ok ()) ∧
    ∃ pub, publishV2 Sha256.sha256 publicationEd25519 eligibleLeaves eligibleMetadata goldenSigner = .ok pub ∧
      pub.signedReport.report.leafCount.val = 3 ∧ ∃ proof, pub.proofs[2]? = some proof ∧
        verifyV2 Sha256.sha256 publicationEd25519 pub.signedReport proof
          (goldenSigner.publicKeyHex publicationEd25519) = .ok () := by
  have hown : publicationEd25519.AcceptsOwn := recorded_acceptsOwn _ _ _
  have hgolden := (publications_verify Sha256.sha256 hown goldenMetadata goldenSigner
    solvencyLiabilities (by decide +kernel)).1 goldenLeaves
  have heligible := (publications_verify Sha256.sha256 hown eligibleMetadata goldenSigner
    eligibilityHolder (by decide +kernel)).2 eligibleLeaves
  obtain ⟨pub, hpub⟩ : ∃ pub, publish Sha256.sha256 publicationEd25519 goldenLeaves goldenMetadata
      goldenSigner = .ok pub := exists_of_isOk (by decide +kernel)
  obtain ⟨pub2, hpub2⟩ : ∃ pub, publishV2 Sha256.sha256 publicationEd25519 eligibleLeaves
      eligibleMetadata goldenSigner = .ok pub := exists_of_isOk (by decide +kernel)
  have hsome : ∃ l ∈ goldenLeaves, l.balances.isEmpty = false :=
    ⟨_, List.mem_cons_self, rfl⟩
  obtain ⟨hcount, _, hverify⟩ := hgolden pub (by decide) rfl hsome hpub (by simp [goldenMetadata])
  obtain ⟨hcount2, _, hverify2⟩ := heligible pub2 (by decide) rfl eligible_holders hpub2 (by
    rintro m ⟨⟩ e he
    obtain rfl : e = ("customer_balances", .committed) := List.mem_singleton.mp he
    exact ⟨by decide, fun h => absurd h (by decide)⟩)
  obtain ⟨proof, hproof, _, _, hok⟩ := hverify 2 _ rfl
  obtain ⟨proof2, hproof2, _, _, hok2⟩ := hverify2 2 _ rfl
  exact ⟨⟨pub, hpub, hcount, proof, hproof, hok⟩, pub2, hpub2, hcount2, proof2, hproof2, hok2⟩

end AssuranceLayer.Completeness
