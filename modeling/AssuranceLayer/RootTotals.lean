import AssuranceLayer.Inclusion
import AssuranceLayer.Produce

set_option autoImplicit false

/-!
What one root hash says about the totals printed over it. The hash fixes the canonical text of the
sums, and the siblings a proof shows may carry names that spell amounts for other names in it.
-/
namespace AssuranceLayer.RootTotals
open Fallible Amount Sums Canonical Merkle LevelTree NodeBinding Inclusion Document Digest Profile
  Sign SortedMap Produce
open Verify hiding combine combine_eq_ok

def HoldsBar (name : String) : Prop := '|' ∈ name.toList

instance (name : String) : Decidable (HoldsBar name) := inferInstanceAs (Decidable (_ ∈ _))

/-- The names holding a bar that the siblings of a proof show. -/
def barNames (steps : List ProofStepDocument) : List String :=
  ((steps.flatMap fun s => s.siblingSums.keys).filter fun k => HoldsBar k).dedup

/-- What those names, each with its total, spell for another name. -/
def spelledBySiblings (steps : List ProofStepDocument) (a : String) : ℕ :=
  ((barNames steps).map fun k => spelled a (renderChars (k, Fin.ofNat _ (siblingTotal steps k)))).sum

/-- The siblings of two proofs show the same under names holding a bar, and spell the same by
    them. -/
structure SameHidden (steps steps' : List ProofStepDocument) : Prop where
  bars : ∀ k, HoldsBar k → siblingTotal steps k = siblingTotal steps' k
  spelled : ∀ a, ¬ HoldsBar a → spelledBySiblings steps a = spelledBySiblings steps' a

variable (sha256 : List UInt8 → Digest)

def proofPreimagesV2 (p : ProofDocumentV2) : List (List UInt8) :=
  match hexDecodeN 32 p.leaf.salt, p.steps.mapM readStep with
  | some salt, .ok steps =>
    let leaf := leafPreimageV2 sha256 salt p.leaf.subjectId p.leaf.maps
    utf8 p.leaf.subjectId :: leaf ::
      (refoldCombos (combine sha256) ⟨sha256 leaf, flatten p.leaf.maps⟩ steps).map comboPreimage
  | _, _ => []

variable {sha256} {ed : Ed25519} {preimages : List (List UInt8)}

variable (sha256 preimages) in
/-- What acceptance says of a proof whose preimages are at hand. -/
structure Accepted (signed : SignedReport) (p : ProofDocumentV2) (salt : Bytes 32)
    (leaf folded : Node) (read : List (Step Node)) : Prop where
  leafNode : leafNodeV2 sha256 salt p.leaf.subjectId p.leaf.maps = .ok leaf
  leafPreimages : ∀ x ∈ (LeafOpening.v2 salt p.leaf.subjectId p.leaf.maps).preimages sha256,
    x ∈ preimages
  hashed : Hashed sha256 preimages (refoldCombos (combine sha256) leaf read)
  steps : List.Forall₂ (fun d s => readStep d = .ok s) p.steps read
  fold : refold (combine sha256) leaf read = .ok folded
  rootHash : hexDecodeN 32 signed.report.rootHash = some folded.hash
  rootSums : amount folded.sums = amount signed.report.rootSums

theorem proofPreimagesV2_eq {p : ProofDocumentV2} {salt : Bytes 32} (hsalt : hexDecodeN 32 p.leaf.salt = some salt)
    {read : List (Step Node)} (hsteps : List.Forall₂ (fun d s => readStep d = .ok s) p.steps read) :
    proofPreimagesV2 sha256 p = utf8 p.leaf.subjectId :: leafPreimageV2 sha256 salt p.leaf.subjectId p.leaf.maps ::
      (refoldCombos (combine sha256)
        ⟨sha256 (leafPreimageV2 sha256 salt p.leaf.subjectId p.leaf.maps), flatten p.leaf.maps⟩ read).map
        comboPreimage := by
  simp only [proofPreimagesV2, hsalt, mapM_eq_ok.mpr hsteps]

theorem accepted_of_verifyV2 {signed : SignedReport} {p : ProofDocumentV2} {key : String}
    (h : verifyV2 sha256 ed signed p key = .ok ())
    (hmem : ∀ x ∈ proofPreimagesV2 sha256 p, x ∈ preimages) :
    ∃ salt leaf folded read, Accepted sha256 preimages signed p salt leaf folded read := by
  obtain ⟨_, _, _, _, salt, leaf, read, folded, hsalt, hleaf, hfolds⟩ := verifyV2_eq_ok.mp h
  rw [proofPreimagesV2_eq hsalt hfolds.steps, ← ((leafNodeV2_eq_ok sha256).mp hleaf).2] at hmem
  refine ⟨salt, leaf, folded, read, hleaf, fun x hx => ?_, hashed_refold fun c hc => ?_, hfolds.steps,
    hfolds.fold, hfolds.rootHash, hfolds.rootSums⟩
  · rcases List.mem_pair.mp hx with rfl | rfl
    · exact hmem _ List.mem_cons_self
    · exact hmem _ (List.mem_cons_of_mem _ List.mem_cons_self)
  · exact hmem _ (List.mem_cons_of_mem _ (List.mem_cons_of_mem _ (List.mem_map_of_mem hc)))

section
variable {signed signed' : SignedReport} {p p' : ProofDocumentV2} {salt salt' : Bytes 32}
  {leaf leaf' folded folded' : Node} {read read' : List (Step Node)}

theorem Accepted.leaf_plain (h : Accepted sha256 preimages signed p salt leaf folded read) :
    ∀ k ∈ leaf.sums.keys, ¬ HoldsBar k := by
  obtain ⟨hsafe, rfl⟩ := (leafNodeV2_eq_ok sha256).mp h.leafNode
  exact fun k hk => flatten_plain hsafe hk

theorem Accepted.bar_amount (h : Accepted sha256 preimages signed p salt leaf folded read)
    {k : String} (hk : HoldsBar k) : amount folded.sums k = siblingTotal p.steps k := by
  rw [refold_amount h.fold, siblingTotal_read h.steps, amount_of_not_mem fun hmem => h.leaf_plain k hmem hk,
    Nat.zero_add]

theorem Accepted.mem_barNames (h : Accepted sha256 preimages signed p salt leaf folded read)
    {k : String} : k ∈ barNames p.steps ↔ HoldsBar k ∧ k ∈ folded.sums.keys := by
  rw [barNames, List.mem_dedup, List.mem_filter, List.mem_flatMap, refold_mem_keys h.fold,
    siblingKeys_read h.steps, decide_eq_true_eq, and_comm]
  exact and_congr_right fun hbar => (or_iff_right fun hk => h.leaf_plain k hk hbar).symm

theorem Accepted.hidden_eq (h : Accepted sha256 preimages signed p salt leaf folded read)
    (a : String) : hiddenAmount folded.sums a = spelledBySiblings p.steps a := by
  let entry := fun k => (k, Fin.ofNat (2 ^ 128) (siblingTotal p.steps k))
  have hperm : (folded.sums.entries.filter fun e => '|' ∈ e.1.toList).Perm
      ((barNames p.steps).map entry) := by
    have hnodup : ((barNames p.steps).map entry).Nodup :=
      (List.nodup_dedup _).map fun x y hxy => congrArg Prod.fst hxy
    refine (List.perm_ext_iff_of_nodup (folded.sums.entries_nodup.filter _) hnodup).mpr ?_
    rintro ⟨k, v⟩
    rw [List.mem_filter, decide_eq_true_eq, ← get?_eq_some, List.mem_map]
    constructor
    · rintro ⟨hv, hbar⟩
      have hkey : k ∈ folded.sums.keys := mem_keys.mpr (Option.isSome_iff_exists.mpr ⟨v, hv⟩)
      refine ⟨k, h.mem_barNames.mpr ⟨hbar, hkey⟩, ?_⟩
      have htotal := h.bar_amount hbar
      rw [amount_of_get? hv] at htotal
      exact Prod.ext rfl (Fin.ext ((congrArg (· % 2 ^ 128) htotal.symm).trans (Nat.mod_eq_of_lt v.isLt)))
    · rintro ⟨_, hk, ⟨⟩⟩
      obtain ⟨hbar, hkey⟩ := h.mem_barNames.mp hk
      obtain ⟨v, hv⟩ := Option.isSome_iff_exists.mp (mem_keys.mp hkey)
      have htotal := h.bar_amount hbar
      rw [amount_of_get? hv] at htotal
      refine ⟨hv.trans (congrArg some (Fin.ext ?_)), hbar⟩
      exact ((congrArg (· % 2 ^ 128) htotal.symm).trans (Nat.mod_eq_of_lt v.isLt)).symm
  have hsum := (hperm.map fun e => spelled a (renderChars e)).sum_eq
  rw [List.map_map] at hsum
  exact hsum

theorem Accepted.leaf_hashed (h : Accepted sha256 preimages signed p salt leaf folded read) :
    HashedLeaf sha256 preimages leaf :=
  leafNodeV2_hashed h.leafNode (h.leafPreimages _ (List.mem_cons_of_mem _ List.mem_cons_self))

theorem canonical_eq (hcf : CollisionFreeOn sha256 preimages)
    (h : Accepted sha256 preimages signed p salt leaf folded read)
    (h' : Accepted sha256 preimages signed' p' salt' leaf' folded' read')
    (hshort : ShortMaps p.leaf.maps) (hshort' : ShortMaps p'.leaf.maps)
    (hroot : signed.report.rootHash = signed'.report.rootHash) :
    sumsCanonical folded.sums = sumsCanonical folded'.sums := by
  have hhash : folded.hash = folded'.hash :=
    Option.some.inj (h.rootHash.symm.trans (hroot ▸ h'.rootHash))
  rcases refold_origin h.fold with rfl | ⟨c, hc, rfl⟩
  · rcases refold_origin h'.fold with rfl | ⟨d, hd, rfl⟩
    · obtain ⟨_, _, hmaps⟩ := leafNodeV2_inj hcf h.leafNode h'.leafNode hshort hshort'
        h.leafPreimages h'.leafPreimages hhash
      obtain ⟨_, rfl⟩ := (leafNodeV2_eq_ok sha256).mp h.leafNode
      obtain ⟨_, rfl⟩ := (leafNodeV2_eq_ok sha256).mp h'.leafNode
      rw [hmaps]
    · exact absurd hhash (h.leaf_hashed.fresh hcf h'.hashed d hd)
  · rcases refold_origin h'.fold with rfl | ⟨d, hd, rfl⟩
    · exact absurd hhash.symm (h'.leaf_hashed.fresh hcf h.hashed c hc)
    · exact (h.hashed.parts hcf h'.hashed hc hd hhash).2.2

end

variable (sha256 ed) in
/-- Two reports over one root hash, each with an accepted proof, print the same totals exactly when
    the siblings of the two proofs hide the same. -/
theorem totals_agree_iff {signed signed' : SignedReport} {p p' : ProofDocumentV2} {key key' : String}
    (hp : verifyV2 sha256 ed signed p key = .ok ()) (hp' : verifyV2 sha256 ed signed' p' key' = .ok ())
    (hroot : signed.report.rootHash = signed'.report.rootHash)
    (hshort : ShortMaps p.leaf.maps) (hshort' : ShortMaps p'.leaf.maps)
    (hcf : CollisionFreeOn sha256 (proofPreimagesV2 sha256 p ++ proofPreimagesV2 sha256 p')) :
    (∀ a, amount signed.report.rootSums a = amount signed'.report.rootSums a) ↔
      SameHidden p.steps p'.steps := by
  obtain ⟨salt, leaf, folded, read, h⟩ :=
    accepted_of_verifyV2 hp fun x hx => List.mem_append_left (proofPreimagesV2 sha256 p') hx
  obtain ⟨salt', leaf', folded', read', h'⟩ :=
    accepted_of_verifyV2 hp' fun x hx => List.mem_append_right (proofPreimagesV2 sha256 p) hx
  have hcanonical := canonical_eq hcf h h' hshort hshort' hroot
  have hspelled : ∀ a, ¬ HoldsBar a → amount signed.report.rootSums a + spelledBySiblings p.steps a =
      amount signed'.report.rootSums a + spelledBySiblings p'.steps a := by
    intro a ha
    rw [← h.rootSums, ← h'.rootSums, ← h.hidden_eq, ← h'.hidden_eq]
    exact canonical_amount hcanonical ha
  constructor
  · intro hsame
    refine ⟨fun k hk => ?_, fun a ha => ?_⟩
    · rw [← h.bar_amount hk, ← h'.bar_amount hk, h.rootSums, h'.rootSums, hsame k]
    · have ha := hspelled a ha
      rw [hsame a] at ha
      exact Nat.add_left_cancel ha
  · intro hsame a
    by_cases ha : HoldsBar a
    · rw [← h.rootSums, ← h'.rootSums, h.bar_amount ha, h'.bar_amount ha, hsame.bars a ha]
    · have heq := hspelled a ha
      rw [hsame.spelled a ha] at heq
      exact Nat.add_right_cancel heq

/-! ## One custody tree, printed two ways -/

def custodyMaps : Maps := ofList [("held", ofList [("A", one)])]
def otherMaps : Maps := ofList [("held", ofList [("B", one), ("C", one)])]

def custodyNode (subjectId : String) (maps : Maps) : Node where
  hash := Sha256.sha256 (leafPreimageV2 Sha256.sha256 (bytesOf 32 7) subjectId maps)
  sums := flatten maps

/-- One name whose text reads as two. -/
def joinedName : String := "held/B:" ++ formatAmount18dp one ++ "|held/C"

/-- The root when the first account is shown `shown` beside it. -/
def custodyRoot (shown : AmountMap) : Node :=
  ((Merkle.combine Sha256.sha256 (custodyNode "acct-1" custodyMaps)
    ⟨(custodyNode "acct-2" otherMaps).hash, shown⟩).toOption).getD (custodyNode "acct-1" custodyMaps)

def custodyReport (shown : AmountMap) (ledgerOffset : String) : Report where
  formatVersion := reportFormatVersion
  profile := "coverage.custody"
  publisher := "custodian::example"
  snapshotTime := "2026-01-01T00:00:00Z"
  ledgerOffset
  rootHash := hexEncode (custodyRoot shown).hash.toList
  leafCount := 2
  rootSums := (custodyRoot shown).sums
  markPrices := empty
  disclosures := ⟨empty, 0, empty⟩
  manifest := none

def shownStep (shown : AmountMap) : Step Node := ⟨⟨(custodyNode "acct-2" otherMaps).hash, shown⟩, false⟩

def custodyProof (shown : AmountMap) (ledgerOffset : String) : ProofDocumentV2 :=
  proofDocumentV2 (reportDigestHex Sha256.sha256 (custodyReport shown ledgerOffset))
    ⟨bytesOf 32 7, "acct-1", custodyMaps⟩ ([shownStep shown].map stepDocument)

def joinedSums : AmountMap := ofList [(joinedName, one)]

def custodyEd25519 : Ed25519 :=
  goldenEd25519
    [(bytesOf 32 0x53e54330e54d03355eb4147c5bc8278954de268605cb647b92fd79474ce7aacb, bytesOf 64
      (0xe3e7511f889d3780f51c46ac9177c6dcd8d7669f337c1dbb728ff35ec4258b91 * 2 ^ 256 +
        0x102830cdd0310b83153c1f93485e76bd4102541ad66abb26a212ac899e10aa0e)),
      (bytesOf 32 0x3f06a9b4c67e48641d303016ba411465b0cb4b776d58e785dfb0035a4e592aad, bytesOf 64
      (0x286d4fd64c2e0e2fab374251483b80f2be5e51aebffc9e2d1f3daba2f105ff8f * 2 ^ 256 +
        0x504ecec3671aae05ebe836637379da19c6e9ba2778ed35b72039c5b6f587fa0f)),
      (bytesOf 32 0xc508264261655f40c17e8a19ae8b45c52f97905c58e07c0be1853a4db6065756, bytesOf 64
      (0xb28a912c5f48ac89afaed9e0052c479e74743e1c637c5870d82606ae4cc595ec * 2 ^ 256 +
        0x2051cb6f16b7d3dfb49b5d779ce87e1965465b739b0b107fb0e0ea0ddf07b30a))]

def custodySigned (shown : AmountMap) (ledgerOffset : String) : SignedReport :=
  signReport Sha256.sha256 custodyEd25519 (custodyReport shown ledgerOffset) goldenSigner

theorem custody_accepted {shown : AmountMap} {ledgerOffset : String}
    (hroot : Merkle.combine Sha256.sha256 (custodyNode "acct-1" custodyMaps) (shownStep shown).sibling =
      .ok (custodyRoot shown))
    (hprofile : validate (custodyReport shown ledgerOffset) = .ok coverageCustody) :
    verifyV2 Sha256.sha256 custodyEd25519 (custodySigned shown ledgerOffset)
      (custodyProof shown ledgerOffset) (goldenSigner.publicKeyHex custodyEd25519) = .ok () := by
  have hfold : refold (combine Sha256.sha256) (custodyNode "acct-1" custodyMaps) [shownStep shown] =
      .ok (custodyRoot shown) := bind_eq_ok.mpr ⟨_, hroot, rfl⟩
  have hversion : checkReportVersionAndManifest (custodyReport shown ledgerOffset) = .ok () :=
    checkReportVersionAndManifest_eq_ok.mpr (.inl ⟨rfl, rfl⟩)
  have hsafe : SafeMaps custodyMaps := by
    unfold SafeMaps
    decide +kernel
  have hmaps : ∀ required ∈ coverageCustody.requiredLeafMaps, CarriesMap custodyMaps required := by
    intro required hrequired
    obtain rfl : required = "held" := List.mem_singleton.mp hrequired
    exact ⟨_, rfl, rfl⟩
  exact verifyV2_eq_ok.mpr ⟨hversion, ⟨_, hprofile, rfl, hmaps⟩, rfl, rfl, bytesOf 32 7, _, _, _,
    hexDecodeN_encode _, (leafNodeV2_eq_ok _).mpr ⟨hsafe, rfl⟩,
    signReport_folds (recorded_acceptsOwn _ _ _) hfold rfl rfl⟩

/-- Two reports over one root hash, each with an accepted proof, of which only one holds `held/B`. -/
theorem totals_differ :
    (verifyV2 Sha256.sha256 custodyEd25519 (custodySigned (flatten otherMaps) "000000000000000042")
      (custodyProof (flatten otherMaps) "000000000000000042") (goldenSigner.publicKeyHex custodyEd25519)
        = .ok () ∧
      verifyV2 Sha256.sha256 custodyEd25519 (custodySigned joinedSums "000000000000000042")
        (custodyProof joinedSums "000000000000000042") (goldenSigner.publicKeyHex custodyEd25519)
          = .ok ()) ∧
    (custodyReport (flatten otherMaps) "000000000000000042").rootHash =
      (custodyReport joinedSums "000000000000000042").rootHash ∧
    CollisionFreeOn Sha256.sha256
      (proofPreimagesV2 Sha256.sha256 (custodyProof (flatten otherMaps) "000000000000000042") ++
        proofPreimagesV2 Sha256.sha256 (custodyProof joinedSums "000000000000000042")) ∧
    amount (custodyReport (flatten otherMaps) "000000000000000042").rootSums "held/B" = 10 ^ 18 ∧
    amount (custodyReport joinedSums "000000000000000042").rootSums "held/B" = 0 :=
  ⟨⟨custody_accepted (eq_ok_getD (by decide +kernel)) (by decide +kernel),
    custody_accepted (eq_ok_getD (by decide +kernel)) (by decide +kernel)⟩,
    by decide +kernel, collisionFreeOn_of_nodup (by decide +kernel), by decide +kernel, by decide +kernel⟩

theorem totals_agree_iff_custody :
    amount (custodyReport (flatten otherMaps) "000000000000000042").rootSums "held/B" =
      amount (custodyReport (flatten otherMaps) "000000000000000043").rootSums "held/B" := by
  have hroot : Merkle.combine Sha256.sha256 (custodyNode "acct-1" custodyMaps)
      (shownStep (flatten otherMaps)).sibling = .ok (custodyRoot (flatten otherMaps)) :=
    eq_ok_getD (by decide +kernel)
  exact (totals_agree_iff Sha256.sha256 custodyEd25519 (custody_accepted hroot (by decide +kernel))
    (custody_accepted hroot (by decide +kernel)) rfl (by decide +kernel) (by decide +kernel)
    (collisionFreeOn_of_nodup (by decide +kernel))).mpr ⟨fun _ _ => rfl, fun _ _ => rfl⟩ "held/B"

end AssuranceLayer.RootTotals
