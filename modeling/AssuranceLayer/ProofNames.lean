import AssuranceLayer.BalanceFile

set_option autoImplicit false

/-!
The files the command line writes before it packs them. A customer's proof is named by the user id,
with a short digest of the user id behind it where the name cannot hold the user id itself.
-/
namespace AssuranceLayer.ProofNames
open Fallible Merkle Document Sign Produce Anchoring Command LeafOrder BalanceFile SortedMap Service

def sanitised (userId : String) : String :=
  String.ofList (userId.toList.map fun c => if c.isAlphanum then c else '_')

variable (sha256 : List UInt8 → Digest) (ed : Ed25519) (print : Json → String)

def shortDigest (userId : String) : String :=
  String.ofList ((hexEncode (sha256 (utf8 userId)).toList).toList.take 8)

def proofFilename (userId : String) : String :=
  let safe := sanitised userId
  if safe = userId then "proof-" ++ safe ++ ".json"
  else "proof-" ++ safe ++ "-" ++ shortDigest sha256 userId ++ ".json"

/-- The files in the order they are written in. -/
def written (published : Publication) (anchor : Anchor) : List FileOut :=
  ⟨"report.json", pretty print (Wire.signedReport.encode published.signedReport)⟩ ::
    ⟨"anchor.json", pretty print (Wire.anchor.encode anchor)⟩ ::
    published.proofs.map fun proof =>
      ⟨proofFilename sha256 proof.leaf.userId, pretty print (Wire.proofDocument.encode proof)⟩

/-- What the files hold after all writes, of which a later one replaces an earlier one of its name. -/
def onDisk (files : List FileOut) : SortedMap String String := ofList (files.map fun f => (f.name, f.content))

/-- The customers a balance file names. -/
def customers (text : String) : List String := (dataLines text).map fun line => (rowOf line).1

/-- No two customers whose user ids are sanitised to one name, both with a loss, have digests that begin
alike. -/
def DigestsApart (text : String) : Prop :=
  ∀ u ∈ customers text, ∀ v ∈ customers text, u ≠ v → sanitised u ≠ u → sanitised v ≠ v →
    sanitised u = sanitised v → shortDigest sha256 u ≠ shortDigest sha256 v

instance (text : String) : Decidable (DigestsApart sha256 text) := inferInstanceAs (Decidable (∀ _ ∈ _, _))

/-! ## When two names are one -/

theorem dash_not_mem_sanitised (userId : String) : '-' ∉ (sanitised userId).toList := by
  rw [sanitised, String.toList_ofList, List.mem_map]
  rintro ⟨c, -, hc⟩
  split_ifs at hc with halnum
  · subst hc
    exact absurd halnum (by decide)
  · exact absurd hc (by decide)

theorem shortDigest_length (userId : String) : (shortDigest sha256 userId).toList.length = 8 := by
  rw [shortDigest, String.toList_ofList, List.length_take, length_hexEncode, List.Vector.toList_length]
  rfl

/-- What stands between the parts that all names share. -/
def stem (userId : String) : List Char :=
  if sanitised userId = userId then userId.toList
  else (sanitised userId).toList ++ '-' :: (shortDigest sha256 userId).toList

theorem proofFilename_toList (userId : String) :
    (proofFilename sha256 userId).toList = "proof-".toList ++ stem sha256 userId ++ ".json".toList := by
  rw [proofFilename, stem]
  split_ifs with hclean
  · rw [String.toList_append, String.toList_append, hclean]
  · simp only [String.toList_append, List.append_assoc]
    rfl

theorem proofFilename_eq_iff_stem {u v : String} :
    proofFilename sha256 u = proofFilename sha256 v ↔ stem sha256 u = stem sha256 v := by
  rw [← String.toList_inj, proofFilename_toList, proofFilename_toList, List.append_cancel_right_eq,
    List.append_cancel_left_eq]

theorem dash_mem_stem_iff (userId : String) : '-' ∈ stem sha256 userId ↔ sanitised userId ≠ userId := by
  rw [stem]
  split_ifs with hclean
  · have hdash := dash_not_mem_sanitised userId
    rw [hclean] at hdash
    simp [hclean, hdash]
  · simp [hclean]

/-- Two user ids share a name if they are sanitised alike, each with a loss, and their digests begin alike;
otherwise the name tells the user id. -/
theorem proofFilename_eq_iff {u v : String} : proofFilename sha256 u = proofFilename sha256 v ↔
    u = v ∨ (sanitised u ≠ u ∧ sanitised v ≠ v ∧ sanitised u = sanitised v ∧
      shortDigest sha256 u = shortDigest sha256 v) := by
  rw [proofFilename_eq_iff_stem]
  constructor
  · intro hstem
    have hdash := dash_mem_stem_iff sha256 u
    rw [hstem, dash_mem_stem_iff] at hdash
    by_cases hu : sanitised u = u
    · have hv : sanitised v = v := not_not.mp fun hv => hdash.mp hv hu
      rw [stem, stem, if_pos hu, if_pos hv] at hstem
      exact .inl (String.toList_inj.mp hstem)
    · have hv := hdash.mpr hu
      rw [stem, stem, if_neg hu, if_neg hv] at hstem
      obtain ⟨hsafe, hdigest⟩ := List.append_inj' hstem (by simp [shortDigest_length])
      exact .inr ⟨hu, hv, String.toList_inj.mp hsafe, String.toList_inj.mp (List.cons.inj hdigest).2⟩
  · rintro (rfl | ⟨hu, hv, hsafe, hdigest⟩)
    · rfl
    · rw [stem, stem, if_neg hu, if_neg hv, hsafe, hdigest]

theorem proofFilename_not_fixed (userId : String) :
    proofFilename sha256 userId ≠ "report.json" ∧ proofFilename sha256 userId ≠ "anchor.json" := by
  constructor
  · intro h
    have hchars := congrArg (fun s : String => s.toList.take 1) h
    simp only [proofFilename_toList] at hchars
    exact absurd hchars (by simp)
  · intro h
    have hchars := congrArg (fun s : String => s.toList.take 1) h
    simp only [proofFilename_toList] at hchars
    exact absurd hchars (by simp)

/-! ## The names of a publication -/

def argsOf (balances : String) : PublishArgs where
  balances := balances
  publisher := "venue::one"
  snapshotTime := "2026-01-02T00:00:00Z"
  ledgerOffset := "000000000000003042"
  manifest := none
  prevAnchor := none

section
variable {sha256 ed print} {args : PublishArgs} {signer : ReportSigner} {published : Publication} {anchor : Anchor}

theorem written_names : (written sha256 print published anchor).map FileOut.name =
    "report.json" :: "anchor.json" ::
      (published.proofs.map fun proof => proof.leaf.userId).map (proofFilename sha256) := by
  rw [written, List.map_cons, List.map_cons, List.map_map, List.map_map]
  rfl

theorem written_names_nodup : ((written sha256 print published anchor).map FileOut.name).Nodup ↔
    ((published.proofs.map fun proof => proof.leaf.userId).map (proofFilename sha256)).Nodup := by
  rw [written_names, List.nodup_cons, List.nodup_cons]
  constructor
  · exact fun h => h.2.2
  · refine fun h => ⟨fun hreport => ?_, fun hanchor => ?_, h⟩
    · obtain hreport | hreport := List.mem_cons.mp hreport
      · exact absurd hreport (by decide)
      · obtain ⟨userId, -, hname⟩ := List.mem_map.mp hreport
        exact (proofFilename_not_fixed sha256 userId).1 hname
    · obtain ⟨userId, -, hname⟩ := List.mem_map.mp hanchor
      exact (proofFilename_not_fixed sha256 userId).2 hname

/-- There is a proof for each customer of the file, and no other. -/
theorem proofs_customers (h : publishCommand sha256 ed args signer = .ok (published, anchor)) :
    (published.proofs.map fun proof => proof.leaf.userId).Nodup ∧
      ∀ u, u ∈ (published.proofs.map fun proof => proof.leaf.userId) ↔ u ∈ customers args.balances := by
  simp only [publishCommand, bind_eq_ok, mapError_eq_ok, pure_eq_ok] at h
  obtain ⟨leaves, hread, out, hpublish, heq⟩ := h
  obtain ⟨rfl, -⟩ := Prod.mk.inj heq
  obtain ⟨nodes, tree, hpublished⟩ := publishWith_published hpublish
  have hids : (out.proofs.map fun proof => proof.leaf.userId) = leaves.map LeafInput.userId := by
    rw [hpublished.documents, List.map_map]
    conv_rhs => rw [← List.zipIdx_map_fst 0 leaves, List.map_map]
    rfl
  obtain ⟨hnodup, husers⟩ := users_of_read hread
  refine ⟨hids ▸ hnodup, fun u => ?_⟩
  rw [hids, husers, customers, List.mem_map]

/-- Files of different names all keep what was written to them. -/
theorem onDisk_of_nodup {files : List FileOut} (h : (files.map FileOut.name).Nodup) {f : FileOut}
    (hf : f ∈ files) : (onDisk files).get? f.name = some f.content := by
  have hnames : ((files.map fun f => (f.name, f.content)).map Prod.fst).Nodup := by rwa [List.map_map]
  rw [onDisk, get?_ofList hnames]
  exact List.mem_map_of_mem hf

theorem written_distinct_iff (h : publishCommand sha256 ed args signer = .ok (published, anchor)) :
    ((written sha256 print published anchor).map FileOut.name).Nodup ↔ DigestsApart sha256 args.balances := by
  obtain ⟨hnodup, husers⟩ := proofs_customers h
  rw [written_names_nodup, List.nodup_map_iff_inj_on hnodup]
  simp only [husers, proofFilename_eq_iff, DigestsApart]
  constructor
  · intro hinj u hu v hv hne hlossU hlossV hsafe hdigest
    exact hne (hinj u hu v hv (.inr ⟨hlossU, hlossV, hsafe, hdigest⟩))
  · rintro hapart u hu v hv (heq | ⟨hlossU, hlossV, hsafe, hdigest⟩)
    · exact heq
    · by_contra hne
      exact hapart u hu v hv hne hlossU hlossV hsafe hdigest

/-- The files of an accepted balance file have different names exactly if no two customers with one
sanitised name have digests that begin alike, and then they all stay on the disk as they were written. -/
theorem names_distinct_iff (print : Json → String)
    (h : publishCommand sha256 ed args signer = .ok (published, anchor)) :
    (((written sha256 print published anchor).map FileOut.name).Nodup ↔ DigestsApart sha256 args.balances) ∧
    (DigestsApart sha256 args.balances → ∀ f ∈ written sha256 print published anchor,
      (onDisk (written sha256 print published anchor)).get? f.name = some f.content) := by
  have hdistinct : ((written sha256 print published anchor).map FileOut.name).Nodup ↔
      DigestsApart sha256 args.balances := written_distinct_iff h
  exact ⟨hdistinct, fun hapart _ hf => onDisk_of_nodup (hdistinct.mpr hapart) hf⟩

theorem names_distinct_three : ∃ published anchor,
    publishCommand Sha256.sha256 (goldenEd25519 []) (argsOf "alice-1,USDA,1\nalice_1,USDA,2\nalice 1,USDA,3\n")
      goldenSigner = .ok (published, anchor) ∧
    ((written Sha256.sha256 Json.toStringPretty published anchor).map FileOut.name).Nodup := by
  obtain ⟨⟨published, anchor⟩, h⟩ := exists_of_isOk (x := publishCommand Sha256.sha256 (goldenEd25519 [])
    (argsOf "alice-1,USDA,1\nalice_1,USDA,2\nalice 1,USDA,3\n") goldenSigner) (by decide +kernel)
  exact ⟨published, anchor, h, (names_distinct_iff Json.toStringPretty h).1.mpr (by decide +kernel)⟩

/-- Two customers of one sanitised name with the digests 61aee277...: both proofs go to one file. -/
theorem shared_name : ∃ published anchor,
    publishCommand Sha256.sha256 (goldenEd25519 [])
      (argsOf "acct:eu/west/42:x:1/a,USDA,1\nacct eu.west 42 x 1/a,USDA,2\n") goldenSigner =
        .ok (published, anchor) ∧
    proofFilename Sha256.sha256 "acct:eu/west/42:x:1/a" = "proof-acct_eu_west_42_x_1_a-61aee277.json" ∧
    proofFilename Sha256.sha256 "acct eu.west 42 x 1/a" = "proof-acct_eu_west_42_x_1_a-61aee277.json" ∧
    ¬ ((written Sha256.sha256 Json.toStringPretty published anchor).map FileOut.name).Nodup := by
  obtain ⟨⟨published, anchor⟩, h⟩ := exists_of_isOk (x := publishCommand Sha256.sha256 (goldenEd25519 [])
    (argsOf "acct:eu/west/42:x:1/a,USDA,1\nacct eu.west 42 x 1/a,USDA,2\n") goldenSigner) (by decide +kernel)
  have hfirst : proofFilename Sha256.sha256 "acct:eu/west/42:x:1/a" = "proof-acct_eu_west_42_x_1_a-61aee277.json" := by
    decide +kernel
  have hsecond : proofFilename Sha256.sha256 "acct eu.west 42 x 1/a" = "proof-acct_eu_west_42_x_1_a-61aee277.json" := by
    decide +kernel
  refine ⟨published, anchor, h, hfirst, hsecond, fun hnodup => ?_⟩
  obtain ⟨hids, husers⟩ := proofs_customers h
  have hinj := (List.nodup_map_iff_inj_on hids).mp (written_names_nodup.mp hnodup)
  have heq := hinj _ ((husers _).mpr (by decide +kernel)) _ ((husers _).mpr (by decide +kernel))
    (hfirst.trans hsecond.symm)
  exact absurd heq (by decide)

end

end AssuranceLayer.ProofNames
