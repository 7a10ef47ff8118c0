import AssuranceLayer.Group
import AssuranceLayer.LeafLaws
import AssuranceLayer.NodeBinding

set_option autoImplicit false

/-!
What an accepted proof says of the totals: each is what the holder has and what the siblings have,
and nothing wraps around.
-/
namespace AssuranceLayer.Acceptance
open Fallible Sums Merkle LevelTree Document Digest Profile Sign Produce Verify SortedMap
open NodeBinding Completeness AssuranceLayer.Group LeafLaws

/-- What the maps of a leaf come to under a qualified name. -/
def mapsTotal (maps : Maps) (a : String) : ℕ :=
  (maps.entries.map fun m => entryTotal a (m.2.entries.map fun e => (qualified m.1 e.1, e.2))).sum

theorem amount_ofList_of_nodup {l : List (String × U128)} (h : (l.map Prod.fst).Nodup) (a : String) :
    amount (ofList l) a = entryTotal a l :=
  amount_ofList_eq_iff.mpr ((List.pairwise_map.mp h).imp fun hne heq => absurd heq hne) a

theorem amount_flatten {maps : Maps} (h : SafeMaps maps) (a : String) :
    amount (flatten maps) a = mapsTotal maps a := by
  rw [flatten, amount_ofList_of_nodup (flatten_nodup h), entryTotal_flatMap, mapsTotal]

theorem amount_flatten_qualified {maps : Maps} (h : SafeMaps maps) {name : String} {amounts : AmountMap}
    (hname : maps.get? name = some amounts) (asset : String) :
    amount (flatten maps) (qualified name asset) = amount amounts asset := by
  have hmem := get?_eq_some.mp hname
  cases hasset : amounts.get? asset with
  | some v =>
    rw [amount_of_get? hasset]
    exact amount_of_get? ((flatten_get? h).mpr ⟨name, amounts, asset, hmem, get?_eq_some.mp hasset, rfl⟩)
  | none =>
    rw [amount_of_not_mem (get?_eq_none.mp hasset)]
    refine amount_of_not_mem fun hkey => ?_
    obtain ⟨v, hv⟩ := Option.isSome_iff_exists.mp (mem_keys.mp hkey)
    obtain ⟨name', amounts', asset', hmem', hv', heq⟩ := (flatten_get? h).mp hv
    obtain ⟨rfl, rfl⟩ := qualified_inj (h _ hmem).1 (h _ hmem').1 heq
    obtain rfl := Option.some.inj (hname.symm.trans (get?_eq_some.mpr hmem'))
    rw [get?_eq_some.mpr hv'] at hasset
    cases hasset

section
variable {sha256 : List UInt8 → Digest} {ed : Ed25519}

/-- The holder and the siblings, and nothing else, make up a total that folds. -/
theorem fold_amount {leaf folded : Node} {steps : List ProofStepDocument} {read : List (Step Node)}
    {published : AmountMap} (hread : List.Forall₂ (fun d s => readStep d = .ok s) steps read)
    (hfold : refold (Merkle.combine sha256) leaf read = .ok folded) (hsums : amount folded.sums = amount published)
    (a : String) : amount published a = amount leaf.sums a + siblingTotal steps a := by
  rw [← hsums, refold_amount hfold, siblingTotal_read hread]

theorem verify_amount {signed : SignedReport} {proof : ProofDocument} {key : String}
    (h : verify sha256 ed signed proof key = .ok ()) (a : String) :
    amount signed.report.rootSums a = amount proof.leaf.balances a + siblingTotal proof.steps a := by
  obtain ⟨-, -, -, -, salt, leaf, read, folded, -, hleaf, hfolds⟩ := verify_eq_ok.mp h
  rw [leafNode_entries] at hleaf
  obtain rfl := Except.ok.inj hleaf
  exact fold_amount hfolds.steps hfolds.fold hfolds.rootSums a

theorem verifyV2_amount {signed : SignedReport} {proof : ProofDocumentV2} {key : String}
    (h : verifyV2 sha256 ed signed proof key = .ok ()) :
    SafeMaps proof.leaf.maps ∧ ∀ a, amount signed.report.rootSums a =
      amount (flatten proof.leaf.maps) a + siblingTotal proof.steps a := by
  obtain ⟨-, -, -, -, salt, leaf, read, folded, -, hleaf, hfolds⟩ := verifyV2_eq_ok.mp h
  obtain ⟨hsafe, rfl⟩ := (leafNodeV2_eq_ok sha256).mp hleaf
  exact ⟨hsafe, fold_amount hfolds.steps hfolds.fold hfolds.rootSums⟩

theorem verifyMembership_amount {signed : SignedReport} {membership : GroupMembershipDocument}
    {key : String} (h : verifyMembership sha256 ed signed membership key = .ok ()) (a : String) :
    amount signed.report.rootSums a =
      amount membership.entity.rootSums a + siblingTotal membership.steps a := by
  obtain ⟨rootHash, read, folded, -, hread, hfold, -, hsums⟩ := (verifyMembership_eq_ok.mp h).1.folds
  exact fold_amount hread hfold hsums a

end

variable (sha256 : List UInt8 → Digest) (ed : Ed25519)

/-- A total is what the holder of an accepted proof has and what the siblings have, so it is never
    less than what the holder has. -/
theorem acceptance_equation (signed : SignedReport) (key : String) :
    (∀ proof, verify sha256 ed signed proof key = .ok () → ∀ a,
      amount signed.report.rootSums a = amount proof.leaf.balances a + siblingTotal proof.steps a ∧
        amount proof.leaf.balances a ≤ amount signed.report.rootSums a) ∧
    (∀ proof, verifyV2 sha256 ed signed proof key = .ok () →
      (∀ a, amount signed.report.rootSums a = mapsTotal proof.leaf.maps a + siblingTotal proof.steps a ∧
        mapsTotal proof.leaf.maps a ≤ amount signed.report.rootSums a) ∧
      ∀ name amounts, proof.leaf.maps.get? name = some amounts → ∀ asset,
        amount signed.report.rootSums (qualified name asset) =
          amount amounts asset + siblingTotal proof.steps (qualified name asset) ∧
        amount amounts asset ≤ amount signed.report.rootSums (qualified name asset)) ∧
    ∀ membership, verifyMembership sha256 ed signed membership key = .ok () → ∀ a,
      amount signed.report.rootSums a =
        amount membership.entity.rootSums a + siblingTotal membership.steps a ∧
      amount membership.entity.rootSums a ≤ amount signed.report.rootSums a := by
  have hle : ∀ {total own rest : ℕ}, total = own + rest → total = own + rest ∧ own ≤ total :=
    fun h => ⟨h, h ▸ Nat.le_add_right _ _⟩
  refine ⟨fun proof h a => hle (verify_amount h a), fun proof h => ?_,
    fun membership h a => hle (verifyMembership_amount h a)⟩
  obtain ⟨hsafe, htotal⟩ := verifyV2_amount h
  refine ⟨fun a => hle ?_, fun name amounts hname asset => hle ?_⟩
  · rw [htotal, amount_flatten hsafe]
  · rw [htotal, amount_flatten_qualified hsafe hname]

/-- A customer's proof, a settled trade and an entity, each accepted. -/
theorem acceptance_equation_three :
    (∃ signed proof key, verify Sha256.sha256 (goldenEd25519 []) signed proof key = .ok () ∧
      amount signed.report.rootSums "USDA" =
        amount proof.leaf.balances "USDA" + siblingTotal proof.steps "USDA" ∧
      amount proof.leaf.balances "USDA" = 100500000000000000000) ∧
    (∃ signed proof key, verifyV2 Sha256.sha256 (goldenEd25519 []) signed proof key = .ok () ∧
      amount signed.report.rootSums "paid/USDA" =
        mapsTotal proof.leaf.maps "paid/USDA" + siblingTotal proof.steps "paid/USDA" ∧
      mapsTotal proof.leaf.maps "paid/USDA" = 60) ∧
    ∃ signed membership key, verifyMembership Sha256.sha256 (goldenEd25519 []) signed membership key = .ok () ∧
      amount signed.report.rootSums "USDA" =
        amount membership.entity.rootSums "USDA" + siblingTotal membership.steps "USDA" ∧
      amount membership.entity.rootSums "USDA" = 100 := by
  refine ⟨?_, ?_, ?_⟩
  · obtain ⟨pub, hpub⟩ : ∃ pub, publish Sha256.sha256 (goldenEd25519 []) goldenLeaves goldenMetadata
        goldenSigner = .ok pub := exists_of_isOk (by decide +kernel)
    obtain ⟨nodes, tree, h⟩ := publishWith_published hpub
    have hvalid : validate pub.signedReport.report = .ok solvencyLiabilities :=
      (validate_liabilities h (by decide +kernel)).mpr ⟨_, List.mem_cons_self, rfl⟩
    have hverify := verify_published h (recorded_acceptsOwn _ _ _) ⟨_, hvalid, rfl⟩
      (h.versionAndManifest.mpr (by simp [goldenMetadata])) (show goldenLeaves[0]? = some _ from rfl)
    exact ⟨_, _, _, hverify, ((acceptance_equation _ _ _ _).1 _ hverify "USDA").1,
      show amount goldenLeaves[0].balances "USDA" = _ by decide +kernel⟩
  · obtain ⟨pub, hvalid⟩ : ∃ pub, publishValid settlementDvp sampleTrades = .ok pub :=
      exists_of_isOk (by decide +kernel)
    obtain ⟨hpub, hall⟩ := publishValid_accepted hvalid
    obtain ⟨nodes, tree, h⟩ := publishWith_published hpub
    have hproof := h.document_at (show sampleTrades[0]? = some _ from rfl)
    have hverify := hall _ (List.mem_of_getElem? hproof)
    exact ⟨_, _, _, hverify, (((acceptance_equation _ _ _ _).2.1 _ hverify).1 "paid/USDA").1,
      show mapsTotal sampleTrades[0].maps "paid/USDA" = _ by decide +kernel⟩
  · have hverify := verifyLone_ok reportFormatVersion none signatureAlgorithm
    exact ⟨_, _, _, hverify, ((acceptance_equation _ _ _ _).2.2 _ hverify "USDA").1, by decide +kernel⟩

end AssuranceLayer.Acceptance
