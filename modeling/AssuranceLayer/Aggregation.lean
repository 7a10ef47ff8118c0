import AssuranceLayer.NodeBinding
import AssuranceLayer.SiblingCover
import AssuranceLayer.Produce

set_option autoImplicit false

/-!
What the balances of several accepted proofs add up to against the totals of their report. Proofs
at different positions never stand above one another, but nothing ties the sums a proof shows for
a sibling to those that are combined in the sibling's hash.
-/
namespace AssuranceLayer.Aggregation
open Fallible Amount Sums Canonical Merkle LevelTree NodeBinding Document Digest Profile Sign Verify
  SiblingCover SortedMap Produce

/-- The left and right choices of a proof, read from the root. -/
def position (p : ProofDocument) : List Bool :=
  SiblingCover.position ProofDocument.steps ProofStepDocument.siblingOnLeft p

/-- At every node where proofs meet, each shows for its sibling no less of an asset than the others that
    pass the sibling combine there. -/
def SiblingsShown (proofs : List ProofDocument) (asset : String) : Prop :=
  ShowsGathered ProofDocument.steps ProofStepDocument.siblingOnLeft (fun s => amount s.siblingSums asset)
    (fun p => amount p.leaf.balances asset) proofs

variable (sha256 : List UInt8 → Digest)

def proofPreimages (p : ProofDocument) : List (List UInt8) :=
  match hexDecodeN 32 p.leaf.salt, p.steps.mapM readStep with
  | some salt, .ok steps =>
    let leaf := leafPreimage sha256 salt p.leaf.userId (sumsCanonical p.leaf.balances)
    leaf :: (refoldCombos (Merkle.combine sha256) ⟨sha256 leaf, p.leaf.balances⟩ steps).map
      comboPreimage
  | _, _ => []

variable {sha256} {ed : Ed25519} {signed : SignedReport} {key : String}

theorem proofPreimages_eq {p : ProofDocument} {salt : Bytes 32} (hsalt : hexDecodeN 32 p.leaf.salt = some salt)
    {read : List (Step Node)} (hsteps : List.Forall₂ (fun d s => readStep d = .ok s) p.steps read) :
    proofPreimages sha256 p = leafPreimage sha256 salt p.leaf.userId (sumsCanonical p.leaf.balances) ::
      (refoldCombos (Merkle.combine sha256)
        ⟨sha256 (leafPreimage sha256 salt p.leaf.userId (sumsCanonical p.leaf.balances)), p.leaf.balances⟩ read).map
        comboPreimage := by
  simp only [proofPreimages, hsalt, mapM_eq_ok.mpr hsteps]

theorem accepted_folds {p : ProofDocument} (h : verify sha256 ed signed p key = .ok ()) :
    ∃ leaf read folded, leaf.sums = p.leaf.balances ∧
      Folds sha256 ed signed leaf p.steps p.reportDigest key read folded ∧
      ∀ preimages, (∀ q ∈ proofPreimages sha256 p, q ∈ preimages) →
        HashedLeaf sha256 preimages leaf ∧
        Hashed sha256 preimages (refoldCombos (Merkle.combine sha256) leaf read) := by
  obtain ⟨_, _, _, _, salt, leaf, read, folded, hsalt, hleaf, hfolds⟩ := verify_eq_ok.mp h
  rw [leafNode_entries, Except.ok.injEq] at hleaf
  refine ⟨leaf, read, folded, by rw [← hleaf], hfolds, fun preimages hmem => ?_⟩
  rw [proofPreimages_eq hsalt hfolds.steps, hleaf] at hmem
  constructor
  · exact ⟨leafDomain, _, _, _, List.mem_cons_self, hmem _ List.mem_cons_self, by rw [← hleaf]; rfl⟩
  · exact hashed_refold fun c hc => hmem _ (List.mem_cons_of_mem _ (List.mem_map_of_mem hc))

theorem position_read {p : ProofDocument} {read : List (Step Node)}
    (h : List.Forall₂ (fun d s => readStep d = .ok s) p.steps read) :
    position p = LevelTree.position read := by
  have hsides : p.steps.map ProofStepDocument.siblingOnLeft = read.map Step.siblingOnLeft := by
    rw [← List.forall₂_eq_eq_eq, List.forall₂_map_left_iff, List.forall₂_map_right_iff]
    exact h.imp fun d s hs => (readStep_eq_ok.mp hs).2.2.symm
  rw [position, SiblingCover.position, LevelTree.position, hsides]

theorem accepted_total {p : ProofDocument} (h : verify sha256 ed signed p key = .ok ())
    (a : String) : amount signed.report.rootSums a =
      amount p.leaf.balances a + siblingTotal p.steps a := by
  obtain ⟨leaf, read, folded, hsums, hfolds, _⟩ := accepted_folds h
  rw [← hfolds.rootSums, refold_amount hfolds.fold, hsums, siblingTotal_read hfolds.steps]

/-- No accepted proof stands strictly above another. -/
theorem accepted_incomparable {p q : ProofDocument} (hp : verify sha256 ed signed p key = .ok ())
    (hq : verify sha256 ed signed q key = .ok ()) {preimages : List (List UInt8)}
    (hcf : CollisionFreeOn sha256 preimages)
    (hmem : ∀ x ∈ proofPreimages sha256 p ++ proofPreimages sha256 q, x ∈ preimages)
    (hpre : position p <+: position q) : position p = position q := by
  obtain ⟨leaf, read, folded, _, hfolds, hhashed⟩ := accepted_folds hp
  obtain ⟨leaf', read', folded', _, hfolds', hhashed'⟩ := accepted_folds hq
  obtain ⟨hleaf, hcombos⟩ := hhashed preimages fun x hx => hmem x (List.mem_append_left _ hx)
  obtain ⟨_, hcombos'⟩ := hhashed' preimages fun x hx => hmem x (List.mem_append_right _ hx)
  have hroot : folded.hash = folded'.hash :=
    Option.some.inj (hfolds.rootHash.symm.trans hfolds'.rootHash)
  rw [position_read hfolds.steps, position_read hfolds'.steps] at hpre ⊢
  exact refold_meet hfolds.fold hfolds'.fold hroot (hcombos.binds hcf hcombos')
    (hleaf.fresh hcf hcombos') hpre

variable (sha256 ed) in
/-- Proofs accepted at different positions add up to no more than the report's totals, of every asset of
    which they show for one another's nodes what is combined in them. -/
theorem aggregation_of_shown (signed : SignedReport) (key : String) (proofs : List ProofDocument)
    (haccepted : ∀ p ∈ proofs, verify sha256 ed signed p key = .ok ())
    (hpositions : proofs.Pairwise fun p q => position p ≠ position q)
    (hcf : CollisionFreeOn sha256 (proofs.flatMap (proofPreimages sha256))) (a : String)
    (hshown : SiblingsShown proofs a) :
    (proofs.map fun p => amount p.leaf.balances a).sum ≤ amount signed.report.rootSums a := by
  have hmem : ∀ p ∈ proofs, ∀ x ∈ proofPreimages sha256 p,
      x ∈ proofs.flatMap (proofPreimages sha256) :=
    fun p hp x hx => List.mem_flatMap.mpr ⟨p, hp, hx⟩
  have hincomparable : ∀ p ∈ proofs, ∀ q ∈ proofs, position p <+: position q →
      position p = position q := fun p hp q hq =>
    accepted_incomparable (haccepted p hp) (haccepted q hq) hcf fun x hx =>
      (List.mem_append.mp hx).elim (hmem p hp x) (hmem q hq x)
  cases proofs with
  | nil => exact Nat.zero_le _
  | cons p rest =>
    have hp : p ∈ p :: rest := List.mem_cons_self
    have hsum := sum_le_gathered hpositions hincomparable hshown hp
    rwa [gathered_top, ← siblingTotal, ← accepted_total (haccepted p hp)] at hsum

/-! ## Two holders of one hundred each -/

def holderBalances : AmountMap := ofList [("USDA", 100)]

def holderNode (userId : String) : Node where
  hash := Sha256.sha256
    (leafPreimage Sha256.sha256 (bytesOf 32 7) userId (sumsCanonical holderBalances))
  sums := holderBalances

/-- The root of the two leaves when each proof shows `shown` for the other leaf. -/
def pairRoot (shown : AmountMap) : Node :=
  ((Merkle.combine Sha256.sha256 (holderNode "alice") ⟨(holderNode "bob").hash, shown⟩).toOption).getD
    (holderNode "alice")

def pairReport (shown : AmountMap) : Report where
  formatVersion := reportFormatVersion
  profile := "solvency.liabilities"
  publisher := "venue::example"
  snapshotTime := "2026-01-01T00:00:00Z"
  ledgerOffset := "000000000000000042"
  rootHash := hexEncode (pairRoot shown).hash.toList
  leafCount := 2
  rootSums := (pairRoot shown).sums
  markPrices := empty
  disclosures := ⟨empty, 0, empty⟩
  manifest := none

def pairStep (shown : AmountMap) (sibling : String) (siblingOnLeft : Bool) : Step Node :=
  ⟨⟨(holderNode sibling).hash, shown⟩, siblingOnLeft⟩

def pairProof (shown : AmountMap) (userId sibling : String) (siblingOnLeft : Bool) : ProofDocument :=
  proofDocument (reportDigestHex Sha256.sha256 (pairReport shown)) ⟨bytesOf 32 7, userId, holderBalances⟩
    ([pairStep shown sibling siblingOnLeft].map stepDocument)

def pairProofs (shown : AmountMap) : List ProofDocument :=
  [pairProof shown "alice" "bob" false, pairProof shown "bob" "alice" true]

def pairEd25519 : Ed25519 :=
  goldenEd25519
    [(bytesOf 32 0xc0d44f04a62a2120eb6d59ee2a6dc020f5723387e8d5c11d261084598292acd4, bytesOf 64
      (0xa52e4db7f56ae76389fa434d11d68487703e1aca41204769780ac9595aa7e7d7 * 2 ^ 256 +
        0x5f071e895a14ac0ed885e75ced67998e0d3947fe57d25593f3ece815dd9b3602)),
      (bytesOf 32 0xc03d0774d86bb8f3a818960f5c690b79baf8441e9cbf6da2c4f30caf81da79af, bytesOf 64
      (0x04fbe0f2fcf914e8661209e9d18ad645b7e3921f2827d87c0507f620e751ef4b * 2 ^ 256 +
        0x70fbacd79bc9e84972f6c96a75c2fa0ac2c0d8eabfe71435d60402073bae0206))]

def pairSigned (shown : AmountMap) : SignedReport :=
  signReport Sha256.sha256 pairEd25519 (pairReport shown) goldenSigner

theorem pair_accepted {shown : AmountMap} (hroot : Merkle.combine Sha256.sha256 (holderNode "alice")
      ⟨(holderNode "bob").hash, shown⟩ = .ok (pairRoot shown))
    (hsums : addSums MerkleError.sumOverflow shown holderBalances = .ok (pairRoot shown).sums)
    (hprofile : validate (pairReport shown) = .ok solvencyLiabilities) :
    ∀ p ∈ pairProofs shown, verify Sha256.sha256 pairEd25519 (pairSigned shown) p
      (goldenSigner.publicKeyHex pairEd25519) = .ok () := by
  have haccepted : ∀ (userId sibling : String) (siblingOnLeft : Bool),
      refold (Merkle.combine Sha256.sha256) (holderNode userId) [pairStep shown sibling siblingOnLeft] =
        .ok (pairRoot shown) →
      verify Sha256.sha256 pairEd25519 (pairSigned shown) (pairProof shown userId sibling siblingOnLeft)
        (goldenSigner.publicKeyHex pairEd25519) = .ok () := fun userId sibling siblingOnLeft hfold =>
    verify_eq_ok.mpr ⟨checkReportVersionAndManifest_eq_ok.mpr (.inl ⟨rfl, rfl⟩), ⟨_, hprofile, rfl⟩,
      rfl, rfl, bytesOf 32 7, _, _, _, hexDecodeN_encode _, leafNode_entries _ _ _ _,
      signReport_folds (recorded_acceptsOwn _ _ _) hfold rfl rfl⟩
  intro p hp
  rcases List.mem_pair.mp hp with rfl | rfl
  · exact haccepted _ _ _ (bind_eq_ok.mpr ⟨_, hroot, rfl⟩)
  · have hbob : Merkle.combine Sha256.sha256 ⟨(holderNode "alice").hash, shown⟩ (holderNode "bob") =
        .ok (pairRoot shown) := combine_eq_ok.mpr ⟨hsums, (combine_eq_ok.mp hroot).2⟩
    exact haccepted _ _ _ (bind_eq_ok.mpr ⟨_, hbob, rfl⟩)

/-- Each of two holders of one hundred is shown nothing beside it, and both proofs are accepted
    against a report that prints one hundred. -/
theorem aggregation_fails :
    (∀ p ∈ pairProofs empty, verify Sha256.sha256 pairEd25519 (pairSigned empty) p
      (goldenSigner.publicKeyHex pairEd25519) = .ok ()) ∧
    (pairProofs empty).Pairwise (fun p q => position p ≠ position q) ∧
    CollisionFreeOn Sha256.sha256 ((pairProofs empty).flatMap (proofPreimages Sha256.sha256)) ∧
    amount (pairSigned empty).report.rootSums "USDA" = 100 ∧
    ((pairProofs empty).map fun p => amount p.leaf.balances "USDA").sum = 200 :=
  ⟨pair_accepted (eq_ok_getD (by decide +kernel)) (by decide +kernel) (by decide +kernel),
    by decide +kernel, collisionFreeOn_of_nodup (by decide +kernel), by decide +kernel, by decide +kernel⟩

theorem pair_shown (a : String) : SiblingsShown (pairProofs holderBalances) a := by
  intro p hp under step above hsteps q hq _
  obtain ⟨siblingOnLeft, sibling, hone⟩ : ∃ siblingOnLeft sibling,
      p.steps = [stepDocument (pairStep holderBalances sibling siblingOnLeft)] := by
    rcases List.mem_pair.mp hp with rfl | rfl
    · exact ⟨false, "bob", rfl⟩
    · exact ⟨true, "alice", rfl⟩
  have hsplit := List.append_eq_singleton_iff.mp (hsteps.symm.trans hone)
  obtain ⟨rfl, hlast⟩ := hsplit.resolve_right fun h => List.cons_ne_nil _ _ h.2
  obtain ⟨rfl, rfl⟩ := List.cons.inj hlast
  rcases List.mem_pair.mp hq with rfl | rfl <;> exact le_rfl

theorem aggregation_of_shown_pair :
    ((pairProofs holderBalances).map fun p => amount p.leaf.balances "USDA").sum ≤
      amount (pairSigned holderBalances).report.rootSums "USDA" := by
  have haccepted := pair_accepted (eq_ok_getD (show (Merkle.combine Sha256.sha256 (holderNode "alice")
    ⟨(holderNode "bob").hash, holderBalances⟩).toOption.isSome = true by decide +kernel))
    (by decide +kernel) (by decide +kernel)
  have hpositions : (pairProofs holderBalances).Pairwise fun p q => position p ≠ position q := by
    decide +kernel
  have hcf : CollisionFreeOn Sha256.sha256
      ((pairProofs holderBalances).flatMap (proofPreimages Sha256.sha256)) :=
    collisionFreeOn_of_nodup (by decide +kernel)
  exact aggregation_of_shown Sha256.sha256 pairEd25519 _ _ _ haccepted hpositions hcf "USDA" (pair_shown "USDA")

end AssuranceLayer.Aggregation
