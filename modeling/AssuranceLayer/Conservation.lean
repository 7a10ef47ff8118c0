import AssuranceLayer.Intake

set_option autoImplicit false

/-!
What a signed report totals, against what the request entered and owed: nothing is lost as long as
no name of a leaf trims to another name of it.
-/
namespace AssuranceLayer.Conservation
open Fallible Amount Sums Document Sign Produce Completeness Service SortedMap

/-- The non-negative amounts that all leaves hold under names trimming to `a`. -/
def enteredTotal (req : PublishRequest) (a : String) : ℕ :=
  (req.leaves.map fun l => entryTotal a (enteredEntries l.balances)).sum

/-- The magnitudes of the negative amounts under names trimming to `a`. -/
def owedTotal (req : PublishRequest) (a : String) : ℕ :=
  (req.leaves.map fun l => entryTotal a (owedEntries l.balances)).sum

def disclosedBadDebt (req : PublishRequest) (a : String) : ℕ :=
  (((req.disclosures.badDebt.get? a).bind fun raw => (parseAmount18dp raw).toOption).getD 0).val

/-- The proofs are those of the leaves, and each commits its leaf entry by entry. -/
def EntriesKept (req : PublishRequest) (pub : Publication) : Prop :=
  ∃ leaves : List LeafIn, leaves.Perm req.leaves ∧ List.Forall₂ (fun (l : LeafIn) (p : ProofDocument) =>
    p.leaf.userId = trim l.userId ∧ p.leaf.balances.entries.Perm (enteredEntries l.balances)) leaves pub.proofs

/-- In each leaf all names are different once they are trimmed. -/
def NamesDistinct (req : PublishRequest) : Prop :=
  ∀ l ∈ req.leaves, (l.balances.entries.map fun e => trim e.1).Nodup

/-- In no leaf does an entry with an amount come before one whose name trims to the same. -/
def NoAmountReplaced (req : PublishRequest) : Prop :=
  ∀ l ∈ req.leaves, l.balances.entries.Pairwise fun e f => trim e.1 = trim f.1 → entered e.2 = 0

variable {sha256 : List UInt8 → Digest} {ed : Ed25519} {print : Json → String} {req : PublishRequest}
  {masterSalt : Bytes 32} {signer : ReportSigner}

theorem amounts_amount {map : SortedMap String String} {what : String} {m : AmountMap}
    (h : amounts map what = .ok m) (a : String) :
    amount m a = (((map.get? a).bind fun raw => (parseAmount18dp raw).toOption).getD 0).val := by
  simp only [amount, traverse_get? h a, toOption_mapError]

theorem position_amount_le (balances : SortedMap String String) (a : String) :
    amount (position balances) a ≤ entryTotal a (enteredEntries balances) :=
  amount_ofList_le a _

theorem position_amount_iff {balances : SortedMap String String} :
    (∀ a, amount (position balances) a = entryTotal a (enteredEntries balances)) ↔
      balances.entries.Pairwise fun e f => trim e.1 = trim f.1 → entered e.2 = 0 := by
  rw [position, amount_ofList_eq_iff, enteredEntries, List.pairwise_map]

theorem positions_total_iff : (∀ a, (req.leaves.map fun l => amount (position l.balances) a).sum =
    enteredTotal req a) ↔ NoAmountReplaced req := by
  have hle : ∀ a, ∀ l ∈ req.leaves,
      amount (position l.balances) a ≤ entryTotal a (enteredEntries l.balances) :=
    fun a l _ => position_amount_le l.balances a
  unfold NoAmountReplaced
  simp only [enteredTotal, sum_eq_iff_of_le (hle _), ← position_amount_iff]
  exact ⟨fun h l hl a => h a l hl, fun h a l hl => h l hl a⟩

theorem publication_rootSums {pub : Publication} {clamped : ℕ}
    (h : publication sha256 ed req masterSalt signer = .ok (pub, clamped)) (a : String) :
    amount pub.signedReport.report.rootSums a =
      (req.leaves.map fun l => amount (position l.balances) a).sum := by
  obtain ⟨metadata, haccepted, hpub⟩ := publication_spec h
  obtain ⟨nodes, tree, hpublished⟩ := publishWith_published hpub
  have hperm := (users_perm haccepted.distinct).map fun u => amount u.2 a
  rw [rootSums_amount hpublished (fun _ _ => inputNode_sums), leafInputs, List.map_map]
  rw [List.map_map] at hperm
  exact hperm.sum_eq

theorem publication_badDebt {pub : Publication} {clamped : ℕ}
    (h : publication sha256 ed req masterSalt signer = .ok (pub, clamped)) (a : String) :
    amount pub.signedReport.report.disclosures.badDebt a = disclosedBadDebt req a + owedTotal req a := by
  obtain ⟨metadata, haccepted, hpub⟩ := publication_spec h
  obtain ⟨nodes, tree, hpublished⟩ := publishWith_published hpub
  obtain ⟨disclosed, hdisclosed, hdebt⟩ := haccepted.badDebt
  have howed : entryTotal a ((allEntries req.leaves).map fun e => (trim e.1, owed e.2)) =
      owedTotal req a := by
    rw [allEntries, List.map_flatMap, entryTotal_flatMap]
    rfl
  have hreport : pub.signedReport.report.disclosures = metadata.disclosures := by
    rw [hpublished.report]
    rfl
  rw [hreport, hdebt.amount, howed, amounts_amount hdisclosed]
  rfl

theorem publication_leaves {pub : Publication} {clamped : ℕ}
    (h : publication sha256 ed req masterSalt signer = .ok (pub, clamped)) :
    ∃ leaves : List LeafIn, leaves.Perm req.leaves ∧ List.Forall₂ (fun (l : LeafIn) (p : ProofDocument) =>
      p.leaf.userId = trim l.userId ∧ p.leaf.balances = position l.balances) leaves pub.proofs := by
  obtain ⟨metadata, haccepted, hpub⟩ := publication_spec h
  obtain ⟨nodes, tree, hpublished⟩ := publishWith_published hpub
  have hdocuments : (pub.proofs.map fun p => (p.leaf.userId, p.leaf.balances)) = (users req).entries := by
    have hinputs : ((leafInputs sha256 req masterSalt).map fun l => (l.userId, l.balances)) =
        (users req).entries := by
      rw [leafInputs, List.map_map]
      exact List.map_id _
    rw [hpublished.documents, List.map_map, ← hinputs, ← List.zipIdx_map_fst 0 (leafInputs _ _ _), List.map_map,
      List.zipIdx_map_fst]
    rfl
  have hleaves : List.Forall₂ (fun e (l : LeafIn) => e = (trim l.userId, position l.balances))
      (req.leaves.map fun l => (trim l.userId, position l.balances)) req.leaves := by
    rw [List.forall₂_map_left_iff, List.forall₂_same]
    exact fun _ _ => rfl
  obtain ⟨leaves, hproofs, hperm⟩ := List.perm_comp_forall₂ (users_perm haccepted.distinct) hleaves
  rw [← hdocuments, List.forall₂_map_left_iff] at hproofs
  exact ⟨leaves, hperm, (hproofs.imp fun p l heq => Prod.mk.inj heq).flip⟩

theorem NamesDistinct.noAmountReplaced (h : NamesDistinct req) : NoAmountReplaced req :=
  fun l hl => (List.pairwise_map.mp (h l hl)).imp fun hne heq => absurd heq hne

/-- A leaf is committed entry by entry exactly when its trimmed names are different. -/
theorem entriesKept_iff {pub : Publication} {clamped : ℕ}
    (h : publication sha256 ed req masterSalt signer = .ok (pub, clamped)) :
    EntriesKept req pub ↔ NamesDistinct req := by
  have hnames : ∀ balances : SortedMap String String,
      ((enteredEntries balances).map Prod.fst) = balances.entries.map fun e => trim e.1 := fun balances => by
    rw [enteredEntries, List.map_map]
    rfl
  constructor
  · rintro ⟨leaves, hperm, hkept⟩ l hl
    obtain ⟨p, _, _, hentries⟩ := exists_of_forall₂ hkept (hperm.mem_iff.mpr hl)
    rw [← hnames]
    exact ((hentries.map Prod.fst).nodup_iff).mp p.leaf.balances.keys_nodup
  · intro hdistinct
    obtain ⟨leaves, hperm, hproofs⟩ := publication_leaves h
    have hdistinct' : ∀ l ∈ leaves, (l.balances.entries.map fun e => trim e.1).Nodup :=
      fun l hl => hdistinct l (hperm.mem_iff.mp hl)
    refine ⟨leaves, hperm, ((List.forall₂_and_left _ _).mpr ⟨hdistinct', hproofs⟩).imp ?_⟩
    rintro l p ⟨hl, huser, hbalances⟩
    rw [hbalances]
    exact ⟨huser, entries_ofList_perm (by rwa [hnames])⟩

variable (sha256 ed print req masterSalt signer) in
/-- The bad debt of an accepted request is conserved, and its liabilities are, with every entry of every
    leaf, exactly when no two names of a leaf trim to the same. -/
theorem liabilities_conserved_iff {resp : PublishResponse}
    (h : doPublish sha256 ed print req masterSalt signer = .ok resp) :
    ∃ pub, publication sha256 ed req masterSalt signer = .ok (pub, resp.clamped) ∧
      ⟨"report.json", pretty print (Wire.signedReport.encode pub.signedReport)⟩ ∈ resp.files ∧
      ((∀ a, amount pub.signedReport.report.rootSums a = enteredTotal req a ∧
          amount pub.signedReport.report.disclosures.badDebt a =
            disclosedBadDebt req a + owedTotal req a) ∧ EntriesKept req pub ↔
        NamesDistinct req) := by
  obtain ⟨delivery, hdeliver, hresp⟩ := doPublish_spec h
  obtain ⟨pub, hpub, hsigned, _⟩ := deliver_spec hdeliver
  refine ⟨pub, hpub, ?_, ?_⟩
  · rw [hresp, ← hsigned]
    exact List.mem_append_left _ List.mem_cons_self
  · rw [entriesKept_iff hpub]
    refine and_iff_right_of_imp fun hdistinct a => ⟨?_, publication_badDebt hpub a⟩
    rw [publication_rootSums hpub]
    exact positions_total_iff.mpr hdistinct.noAmountReplaced a

/-! ## Two requests -/

def sampleRequest (leaves : List LeafIn) : PublishRequest where
  publisher := "venue::one"
  profile := "solvency.liabilities"
  snapshotTime := "2026-09-09T10:00:00Z"
  ledgerOffset := "000000000000003042"
  leaves := leaves
  markPrices := empty
  disclosures := ⟨empty, 0, empty⟩
  manifest := none
  previousAnchor := none

def sampleLeaves : List LeafIn := [
  ⟨"alice", ofList [("USDA", "100.5"), ("CBTC", "0.25")]⟩,
  ⟨"bob", ofList [("USDA", "7")]⟩,
  ⟨"carol", ofList [("USDA", "-3.5"), ("CBTC", "1")]⟩]

def paddedLeaves : List LeafIn := [⟨"alice", ofList [("USDA", "100"), ("USDA ", "7")]⟩]

def sampleSalt : Bytes 32 := bytesOf 32 7

def publishSample (leaves : List LeafIn) : Except PublishFailure PublishResponse :=
  doPublish Sha256.sha256 (goldenEd25519 []) Json.toStringPretty (sampleRequest leaves) sampleSalt
    goldenSigner

theorem liabilities_conserved_iff_three : ∃ resp, publishSample sampleLeaves = .ok resp ∧
    ∃ pub, publication Sha256.sha256 (goldenEd25519 []) (sampleRequest sampleLeaves) sampleSalt
        goldenSigner = .ok (pub, resp.clamped) ∧
      amount pub.signedReport.report.rootSums "USDA" = 107500000000000000000 ∧
      amount pub.signedReport.report.disclosures.badDebt "USDA" = 3500000000000000000 ∧
      EntriesKept (sampleRequest sampleLeaves) pub := by
  obtain ⟨resp, h⟩ : ∃ resp, publishSample sampleLeaves = .ok resp := exists_of_isOk (by decide +kernel)
  obtain ⟨pub, hpub, _, hiff⟩ := liabilities_conserved_iff Sha256.sha256 (goldenEd25519 [])
    Json.toStringPretty (sampleRequest sampleLeaves) sampleSalt goldenSigner h
  obtain ⟨hconserved, hkept⟩ := hiff.mpr (by unfold NamesDistinct; decide +kernel)
  obtain ⟨hsums, hdebt⟩ := hconserved "USDA"
  have hentered : enteredTotal (sampleRequest sampleLeaves) "USDA" = 107500000000000000000 := by
    decide +kernel
  have howed : disclosedBadDebt (sampleRequest sampleLeaves) "USDA" +
      owedTotal (sampleRequest sampleLeaves) "USDA" = 3500000000000000000 := by
    decide +kernel
  exact ⟨resp, h, pub, hpub, hsums.trans hentered, hdebt.trans howed, hkept⟩

/-- Of a hundred and of seven under names that trim to one, seven are signed for. -/
theorem liabilities_not_conserved : ∃ resp pub, publishSample paddedLeaves = .ok resp ∧
    publication Sha256.sha256 (goldenEd25519 []) (sampleRequest paddedLeaves) sampleSalt goldenSigner =
      .ok (pub, resp.clamped) ∧
    ⟨"report.json", pretty Json.toStringPretty (Wire.signedReport.encode pub.signedReport)⟩ ∈ resp.files ∧
    amount pub.signedReport.report.rootSums "USDA" = 7000000000000000000 ∧
    enteredTotal (sampleRequest paddedLeaves) "USDA" = 107000000000000000000 := by
  obtain ⟨resp, h⟩ : ∃ resp, publishSample paddedLeaves = .ok resp := exists_of_isOk (by decide +kernel)
  obtain ⟨delivery, hdeliver, hresp⟩ := doPublish_spec h
  obtain ⟨pub, hpub, hsigned, _⟩ := deliver_spec hdeliver
  refine ⟨resp, pub, h, hpub, ?_, ?_, by decide +kernel⟩
  · rw [hresp, ← hsigned]
    exact List.mem_append_left _ List.mem_cons_self
  · rw [publication_rootSums hpub]
    decide +kernel

end AssuranceLayer.Conservation
