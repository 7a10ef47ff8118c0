import AssuranceLayer.Completeness

set_option autoImplicit false

/-!
What accepted proofs of a publication say about the leaves behind it: coverage of exposure by
collateral, trades with both legs, and rules every holder satisfies.
-/
namespace AssuranceLayer.LeafLaws
open Fallible Sums Merkle LevelTree Document Digest Profile Sign Produce Verify Completeness SortedMap

variable {sha256 : List UInt8 → Digest} {ed : Ed25519}

section
variable {leaves : List LeafInputV2} {metadata : ReportMetadata} {signer : ReportSigner}
  {pub : PublicationV2} {nodes : List Node} {tree : SumTree sha256} {key : String}

/-- One accepted proof shows that the report passes the profile it was published under. -/
theorem rules_of_verifyV2
    (h : Published sha256 ed (inputNodeV2 sha256) proofDocumentV2 leaves metadata signer pub nodes tree)
    {rules : ProfileRules} (hprofile : lookup metadata.profile = some rules) {proof : ProofDocumentV2}
    (hok : verifyV2 sha256 ed pub.signedReport proof key = .ok ()) :
    validate pub.signedReport.report = .ok rules ∧
      ∀ required ∈ rules.requiredLeafMaps, CarriesMap proof.leaf.maps required := by
  obtain ⟨_, ⟨rules', hrules, _, hmaps⟩, _⟩ := verifyV2_eq_ok.mp hok
  obtain rfl := rules_eq h hprofile hrules
  exact ⟨hrules, hmaps⟩

theorem exists_proof
    (h : Published sha256 ed (inputNodeV2 sha256) proofDocumentV2 leaves metadata signer pub nodes tree)
    {l : LeafInputV2} (hl : l ∈ leaves) : ∃ proof ∈ pub.proofs, proof.leaf.maps = l.maps := by
  obtain ⟨i, hi⟩ := List.mem_iff_getElem?.mp hl
  exact ⟨_, List.mem_of_getElem? (h.document_at hi), rfl⟩

theorem leaves_carry
    (h : Published sha256 ed (inputNodeV2 sha256) proofDocumentV2 leaves metadata signer pub nodes tree)
    {rules : ProfileRules} (hprofile : lookup metadata.profile = some rules)
    (hall : ∀ proof ∈ pub.proofs, verifyV2 sha256 ed pub.signedReport proof key = .ok ())
    {l : LeafInputV2} (hl : l ∈ leaves) {required : String} (hr : required ∈ rules.requiredLeafMaps) :
    CarriesMap l.maps required := by
  obtain ⟨proof, hproof, hmaps⟩ := exists_proof h hl
  exact hmaps ▸ (rules_of_verifyV2 h hprofile (hall proof hproof)).2 required hr

theorem holders_covered
    (h : Published sha256 ed (inputNodeV2 sha256) proofDocumentV2 leaves metadata signer pub nodes tree)
    {rules : ProfileRules} (hvalid : validate pub.signedReport.report = .ok rules) {c : Coverage}
    (hc : rules.coverage = some c) (hcovering : isSafeName c.covering = true)
    (hcovered : isSafeName c.covered = true) (asset : String) :
    holdersTotal (leaves.map LeafInputV2.maps) c.covered asset ≤
      holdersTotal (leaves.map LeafInputV2.maps) c.covering asset := by
  have hle := (validate_eq_ok.mp hvalid).2.2.1 c hc asset
  rw [← rootSums_total h hcovered, ← rootSums_total h hcovering]
  exact hle

end

variable (sha256 ed) in
/-- An accepted proof under `collateral.repo` covers every asset over all legs, and accepted proofs
    of all trades under `settlement.dvp` show both legs of every trade. -/
theorem repo_and_dvp_laws :
    (∀ (legs : List LeafInputV2) (metadata : ReportMetadata) (signer : ReportSigner)
        (pub : PublicationV2) (key : String), metadata.profile = "collateral.repo" →
      publishV2 sha256 ed legs metadata signer = .ok pub →
      (∃ proof ∈ pub.proofs, verifyV2 sha256 ed pub.signedReport proof key = .ok ()) → ∀ asset,
        (legs.map fun l => amount ((l.maps.get? "exposure").getD empty) asset).sum ≤
          (legs.map fun l => amount ((l.maps.get? "collateral").getD empty) asset).sum) ∧
    ∀ (trades : List LeafInputV2) (metadata : ReportMetadata) (signer : ReportSigner)
        (pub : PublicationV2) (key : String), metadata.profile = "settlement.dvp" →
      publishV2 sha256 ed trades metadata signer = .ok pub →
      (∀ proof ∈ pub.proofs, verifyV2 sha256 ed pub.signedReport proof key = .ok ()) →
      ∀ l ∈ trades, CarriesMap l.maps "delivered" ∧ CarriesMap l.maps "paid" := by
  constructor
  · rintro legs metadata signer pub key hprofile hpub ⟨proof, _, hok⟩ asset
    obtain ⟨nodes, tree, h⟩ := publishWith_published hpub
    have hlookup : lookup metadata.profile = some collateralRepo :=
      lookup_registry hprofile (by simp [registry])
    have hcovers := holders_covered h (rules_of_verifyV2 h hlookup hok).1 rfl (by decide +kernel)
      (by decide +kernel) asset
    rwa [holdersTotal, holdersTotal, List.map_map, List.map_map] at hcovers
  · intro trades metadata signer pub key hprofile hpub hall l hl
    obtain ⟨nodes, tree, h⟩ := publishWith_published hpub
    have hlookup : lookup metadata.profile = some settlementDvp :=
      lookup_registry hprofile (by simp [registry])
    exact ⟨leaves_carry h hlookup hall hl (by simp [settlementDvp]),
      leaves_carry h hlookup hall hl (by simp [settlementDvp])⟩

/-! ## Publications that pass their profile -/

def sampleLeaf (subjectId : String) (maps : List (String × AmountMap)) : LeafInputV2 where
  salt := bytesOf 32 7
  subjectId := subjectId
  maps := ofList maps

def sampleMetadata (profile : String) : ReportMetadata := { goldenMetadata with profile := profile }

/-- A publication of leaves that carry what the profile asks for, whose report passes it. -/
def publishValid (rules : ProfileRules) (leaves : List LeafInputV2) : Except PublishError PublicationV2 := do
  let pub ← publishV2 Sha256.sha256 (goldenEd25519 []) leaves (sampleMetadata rules.name) goldenSigner
  ensure (validate pub.signedReport.report = .ok rules ∧ rules.leaf.usesLeafV2 = true ∧
    ∀ l ∈ leaves, ∀ required ∈ rules.requiredLeafMaps,
      (l.maps.get? required).any (fun m => !m.isEmpty) = true) .noLeaves
  return pub

theorem publishValid_accepted {rules : ProfileRules} {leaves : List LeafInputV2} {pub : PublicationV2}
    (h : publishValid rules leaves = .ok pub) :
    publishV2 Sha256.sha256 (goldenEd25519 []) leaves (sampleMetadata rules.name) goldenSigner = .ok pub ∧
      ∀ proof ∈ pub.proofs, verifyV2 Sha256.sha256 (goldenEd25519 []) pub.signedReport proof
        (goldenSigner.publicKeyHex (goldenEd25519 [])) = .ok () := by
  simp only [publishValid, bind_eq_ok, ensure_eq_ok, pure_eq_ok] at h
  obtain ⟨_, hpub, _, ⟨hvalid, hv2, hmaps⟩, rfl⟩ := h
  obtain ⟨nodes, tree, hpublished⟩ := publishWith_published hpub
  refine ⟨hpub, fun proof hproof => ?_⟩
  rw [hpublished.documents] at hproof
  obtain ⟨⟨l, i⟩, hl, rfl⟩ := List.mem_map.mp hproof
  have hl := List.mk_mem_zipIdx_iff_getElem?.mp hl
  have hmanifest : checkReportVersionAndManifest _ = .ok () :=
    hpublished.versionAndManifest.mpr (by simp [sampleMetadata, goldenMetadata])
  refine verifyV2_published hpublished (recorded_acceptsOwn _ _ _) hvalid hv2 hmanifest hl ?_
  intro required hr
  obtain ⟨m, hm, hne⟩ := Option.any_eq_true _ _ |>.mp (hmaps l (List.mem_of_getElem? hl) required hr)
  exact ⟨m, hm, by simpa using hne⟩

def sampleLegs : List LeafInputV2 := [
  sampleLeaf "leg-1" [("collateral", ofList [("USDA", 110)]), ("exposure", ofList [("USDA", 50)])],
  sampleLeaf "leg-2" [("exposure", ofList [("USDA", 60)])]]

def sampleTrades : List LeafInputV2 := [
  sampleLeaf "trade-1" [("delivered", ofList [("CBTC", 1)]), ("paid", ofList [("USDA", 60)])],
  sampleLeaf "trade-2" [("delivered", ofList [("CETH", 4)]), ("paid", ofList [("USDA", 9)])]]

theorem repo_and_dvp_laws_two :
    (∃ pub, publishValid collateralRepo sampleLegs = .ok pub ∧
      (sampleLegs.map fun l => amount ((l.maps.get? "exposure").getD empty) "USDA").sum ≤
        (sampleLegs.map fun l => amount ((l.maps.get? "collateral").getD empty) "USDA").sum) ∧
    ∃ pub, publishValid settlementDvp sampleTrades = .ok pub ∧
      ∀ l ∈ sampleTrades, CarriesMap l.maps "delivered" ∧ CarriesMap l.maps "paid" := by
  obtain ⟨repo, hrepo⟩ : ∃ pub, publishValid collateralRepo sampleLegs = .ok pub :=
    exists_of_isOk (by decide +kernel)
  obtain ⟨dvp, hdvp⟩ : ∃ pub, publishValid settlementDvp sampleTrades = .ok pub :=
    exists_of_isOk (by decide +kernel)
  obtain ⟨hrepoPub, hrepoAll⟩ := publishValid_accepted hrepo
  obtain ⟨hdvpPub, hdvpAll⟩ := publishValid_accepted hdvp
  obtain ⟨nodes, tree, h⟩ := publishWith_published hrepoPub
  obtain ⟨proof, hproof, _⟩ := exists_proof h (List.mem_cons_self)
  have hlaws := repo_and_dvp_laws Sha256.sha256 (goldenEd25519 [])
  exact ⟨⟨repo, hrepo, hlaws.1 _ _ _ _ _ rfl hrepoPub ⟨proof, hproof, hrepoAll proof hproof⟩ "USDA"⟩,
    dvp, hdvp, hlaws.2 _ _ _ _ _ rfl hdvpPub hdvpAll⟩

/-! ## Unanimity -/

/-- What the holder of a leaf carries for an attested rule. -/
def indicator (l : LeafInputV2) (rule : String) : ℕ :=
  amount ((l.maps.get? "attested").getD empty) rule

/-- Every holder carries `1` for every rule the totals name. -/
def EveryHolderSatisfies (leaves : List LeafInputV2) (rootSums : AmountMap) : Prop :=
  ∀ rule, qualified "attested" rule ∈ rootSums.keys → ∀ l ∈ leaves,
    ∃ m, l.maps.get? "attested" = some m ∧ m.get? rule = some one

theorem indicator_eq_one_iff {l : LeafInputV2} {rule : String} :
    indicator l rule = 10 ^ 18 ↔ ∃ m, l.maps.get? "attested" = some m ∧ m.get? rule = some one := by
  constructor
  · intro hone
    cases hm : l.maps.get? "attested" with
    | none => simp [indicator, hm] at hone
    | some m =>
      cases hv : m.get? rule with
      | none => simp [indicator, hm, amount, hv] at hone
      | some v =>
        rw [indicator, hm, Option.getD_some, amount_of_get? hv] at hone
        exact ⟨m, rfl, hv.trans (congrArg some (Fin.ext hone))⟩
  · rintro ⟨m, hm, hv⟩
    rw [indicator, hm, Option.getD_some, amount_of_get? hv]
    rfl

section
variable {leaves : List LeafInputV2} {metadata : ReportMetadata} {signer : ReportSigner}
  {pub : PublicationV2} {nodes : List Node} {tree : SumTree sha256}

theorem indicators_total
    (h : Published sha256 ed (inputNodeV2 sha256) proofDocumentV2 leaves metadata signer pub nodes tree)
    (rule : String) :
    amount pub.signedReport.report.rootSums (qualified "attested" rule) =
      (leaves.map fun l => indicator l rule).sum := by
  rw [rootSums_total h (by decide +kernel), holdersTotal, List.map_map]
  rfl

/-- Under an accepted report the indicators of a named rule sum to the number of holders. -/
theorem indicators_unanimous
    (h : Published sha256 ed (inputNodeV2 sha256) proofDocumentV2 leaves metadata signer pub nodes tree)
    (hlen : leaves.length < 2 ^ 64)
    (hvalid : validate pub.signedReport.report = .ok eligibilityHolder) {rule : String}
    (hrule : qualified "attested" rule ∈ pub.signedReport.report.rootSums.keys) :
    (leaves.map fun l => indicator l rule).sum = (leaves.map fun _ => 10 ^ 18).sum := by
  obtain ⟨v, hv⟩ := Option.isSome_iff_exists.mp (mem_keys.mp hrule)
  have hone := (validate_eq_ok.mp hvalid).2.2.2 "attested" (by simp [eligibilityHolder]) rule v hv
  rw [← indicators_total h, amount_of_get? hv, hone, leafCount_eq h hlen, List.map_const',
    List.sum_replicate, smul_eq_mul]

theorem indicator_of_unnamed
    (h : Published sha256 ed (inputNodeV2 sha256) proofDocumentV2 leaves metadata signer pub nodes tree)
    {rule : String} (hrule : qualified "attested" rule ∉ pub.signedReport.report.rootSums.keys)
    {l : LeafInputV2} (hl : l ∈ leaves) : indicator l rule = 0 := by
  have htotal := indicators_total h rule
  rw [amount_of_not_mem hrule, eq_comm, List.sum_eq_zero_iff] at htotal
  exact htotal _ (List.mem_map_of_mem hl)

end

variable (sha256 ed) in
/-- Accepted proofs of all holders show unanimity exactly when no holder carries more than `1`. -/
theorem unanimity_iff (leaves : List LeafInputV2) (metadata : ReportMetadata) (signer : ReportSigner)
    (pub : PublicationV2) (key : String) (hprofile : metadata.profile = "eligibility.holder")
    (hlen : leaves.length < 2 ^ 64) (hpub : publishV2 sha256 ed leaves metadata signer = .ok pub)
    (hall : ∀ proof ∈ pub.proofs, verifyV2 sha256 ed pub.signedReport proof key = .ok ()) :
    EveryHolderSatisfies leaves pub.signedReport.report.rootSums ↔
      ∀ rule, ∀ l ∈ leaves, indicator l rule ≤ 10 ^ 18 := by
  obtain ⟨nodes, tree, h⟩ := publishWith_published hpub
  constructor
  · intro hevery rule l hl
    by_cases hrule : qualified "attested" rule ∈ pub.signedReport.report.rootSums.keys
    · exact (indicator_eq_one_iff.mpr (hevery rule hrule l hl)).le
    · exact (indicator_of_unnamed h hrule hl).le.trans (Nat.zero_le _)
  · intro hle rule hrule l hl
    have hlookup : lookup metadata.profile = some eligibilityHolder :=
      lookup_registry hprofile (by simp [registry])
    obtain ⟨proof, hproof, _⟩ := exists_proof h hl
    have hvalid := (rules_of_verifyV2 h hlookup (hall proof hproof)).1
    have hsum := indicators_unanimous h hlen hvalid hrule
    exact indicator_eq_one_iff.mp ((sum_eq_iff_of_le (hle rule)).mp hsum l hl)

def sampleHolder (subjectId : String) (kyc : U128) : LeafInputV2 :=
  sampleLeaf subjectId [("attested", ofList [("kyc_tier2", kyc)])]

def unanimousHolders : List LeafInputV2 := [sampleHolder "alice" one, sampleHolder "bob" one]

/-- A holder who fails the rule beside one whose indicator is `2`. -/
def paddedHolders : List LeafInputV2 :=
  [sampleHolder "alice" ⟨2 * 10 ^ 18, by decide⟩, sampleHolder "mallory" 0]

theorem unanimity_two : ∃ pub, publishValid eligibilityHolder unanimousHolders = .ok pub ∧
    (EveryHolderSatisfies unanimousHolders pub.signedReport.report.rootSums ↔
      ∀ rule, ∀ l ∈ unanimousHolders, indicator l rule ≤ 10 ^ 18) := by
  obtain ⟨pub, hvalid⟩ : ∃ pub, publishValid eligibilityHolder unanimousHolders = .ok pub :=
    exists_of_isOk (by decide +kernel)
  obtain ⟨hpub, hall⟩ := publishValid_accepted hvalid
  exact ⟨pub, hvalid, unanimity_iff Sha256.sha256 (goldenEd25519 []) _ _ _ _ _ rfl (by decide) hpub hall⟩

/-- The accepted report of the padded holders hides the one who fails the rule. -/
theorem unanimity_fails : ¬ ∀ (leaves : List LeafInputV2) (metadata : ReportMetadata)
    (signer : ReportSigner) (pub : PublicationV2) (key : String),
    metadata.profile = "eligibility.holder" → leaves.length < 2 ^ 64 →
    publishV2 Sha256.sha256 (goldenEd25519 []) leaves metadata signer = .ok pub →
    (∀ proof ∈ pub.proofs,
      verifyV2 Sha256.sha256 (goldenEd25519 []) pub.signedReport proof key = .ok ()) →
    EveryHolderSatisfies leaves pub.signedReport.report.rootSums := by
  intro hclaim
  obtain ⟨pub, hvalid⟩ : ∃ pub, publishValid eligibilityHolder paddedHolders = .ok pub :=
    exists_of_isOk (by decide +kernel)
  obtain ⟨hpub, hall⟩ := publishValid_accepted hvalid
  obtain ⟨nodes, tree, h⟩ := publishWith_published hpub
  have hkey : qualified "attested" "kyc_tier2" ∈ pub.signedReport.report.rootSums.keys :=
    (mem_rootSums_keys h (by decide +kernel)).mpr (by decide +kernel)
  have hmallory := hclaim _ _ _ _ _ rfl (by decide) hpub hall _ hkey
    (sampleHolder "mallory" 0) (by simp [paddedHolders])
  rw [← indicator_eq_one_iff] at hmallory
  revert hmallory
  decide +kernel

end AssuranceLayer.LeafLaws
