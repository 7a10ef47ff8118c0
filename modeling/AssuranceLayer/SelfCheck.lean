import AssuranceLayer.Conservation
import AssuranceLayer.JsonText

set_option autoImplicit false

/-!
The delivered files against their own verifiers: which requests yield a publication whose report,
proofs, pack and anchor are accepted under the key that is returned with them.
-/
namespace AssuranceLayer.SelfCheck
open Fallible Sums Document Digest Profile Sign Produce Verify Anchoring EvidencePack Completeness
open Conservation Service SortedMap

def fileContent (files : List FileOut) (name : String) : Option String :=
  (files.find? fun f => f.name = name).map FileOut.content

def readFile {α : Type} (parse : String → Option Json) (c : Json.Codec α) (files : List FileOut)
    (name : String) : Option α :=
  (fileContent files name).bind fun text => (parse text).bind c.decode

/-- Report, proofs, pack and anchor are read from the files and accepted under the returned key. -/
structure Verifies (sha256 : List UInt8 → Digest) (ed : Ed25519) (parse : String → Option Json)
    (resp : PublishResponse) (signed : SignedReport) : Prop where
  files : resp.files.map FileOut.name =
    "report.json" :: "anchor.json" :: (resp.proofs.map ProofOut.fileName ++ ["pack.json"])
  report : readFile parse Wire.signedReport resp.files "report.json" = some signed
  proofs : ∀ p ∈ resp.proofs, ∃ proof,
    readFile parse Wire.proofDocument resp.files p.fileName = some proof ∧
      proof.leaf.userId = p.userId ∧ verify sha256 ed signed proof resp.publicKey = .ok ()
  pack : ∃ pack, readFile parse Wire.signedPack resp.files "pack.json" = some pack ∧
    verifyPack sha256 ed pack resp.publicKey
      (ofList (packMembers (resp.files.filter fun f => f.name ≠ "pack.json"))) = .ok ()
  anchor : ∃ anchor, readFile parse Wire.anchor resp.files "anchor.json" = some anchor ∧
    anchor.reportDigest = reportDigestHex sha256 signed.report

/-- Whether the report of a request will publish data for a resident field. -/
def carries (req : PublishRequest) (path : String) : Bool :=
  if path = "root_sums" then req.leaves.any fun l => !l.balances.isEmpty
  else if path = "mark_prices" then !req.markPrices.isEmpty
  else if path = "disclosures.bad_debt" then
    !req.disclosures.badDebt.isEmpty || (allEntries req.leaves).any fun e => (magnitude e.2).isSome
  else if path = "disclosures.excluded_house_accounts" then 0 < req.disclosures.excludedHouseAccounts
  else if path = "disclosures.excluded_house_totals" then !req.disclosures.excludedHouseTotals.isEmpty
  else false

/-- Some leaf holds something, and the manifest speaks about known fields and agrees with what the
    request makes the report carry. -/
structure Publishable (req : PublishRequest) : Prop where
  holdings : ∃ l ∈ req.leaves, l.balances.isEmpty = false
  manifest : ∀ m, req.manifest = some m → ∀ e ∈ m.fields.entries, e.1 ∈ knownFields ∧
    (e.1 ∈ reportResidentFields → (e.2 = .published ↔ carries req e.1 = true))

variable {sha256 : List UInt8 → Digest} {ed : Ed25519} {print : Json → String}
  {parse : String → Option Json} {req : PublishRequest} {masterSalt : Bytes 32} {signer : ReportSigner}

/-! ## The report of a request -/

theorem position_isEmpty (balances : SortedMap String String) :
    (position balances).isEmpty = balances.isEmpty := by
  rw [position, isEmpty_ofList, enteredEntries, List.isEmpty_map]
  rfl

theorem leafInputs_holdings (hdistinct : (req.leaves.map fun l => trim l.userId).Nodup) :
    (∃ l ∈ leafInputs sha256 req masterSalt, l.balances.isEmpty = false) ↔
      ∃ l ∈ req.leaves, l.balances.isEmpty = false := by
  simp only [leafInputs, List.mem_map, exists_exists_and_eq_and]
  constructor
  · rintro ⟨user, huser, hempty⟩
    obtain ⟨l, hl, rfl⟩ := List.mem_map.mp ((users_perm hdistinct).mem_iff.mp huser)
    exact ⟨l, hl, by rwa [position_isEmpty] at hempty⟩
  · rintro ⟨l, hl, hempty⟩
    exact ⟨_, (users_perm hdistinct).mem_iff.mpr (List.mem_map_of_mem hl),
      by rwa [position_isEmpty]⟩

theorem badDebt_isEmpty {disclosed after : AmountMap} {entries : List (String × String)}
    (h : DebtGrows disclosed after entries) :
    after.isEmpty = (disclosed.isEmpty && !entries.any fun e => (magnitude e.2).isSome) := by
  rw [Bool.eq_iff_iff, ← not_iff_not, Bool.not_eq_true, isEmpty_eq_false_iff, Bool.and_eq_true,
    not_and_or, Bool.not_eq_true, isEmpty_eq_false_iff]
  simp only [h.keys, exists_or, Bool.not_eq_true', Bool.not_eq_false, List.any_eq_true]
  refine or_congr_right ?_
  constructor
  · rintro ⟨_, e, he, hneg, _⟩
    exact ⟨e, he, hneg⟩
  · rintro ⟨e, he, hneg⟩
    exact ⟨_, e, he, hneg, rfl⟩

theorem carriesData_eq {pub : Publication} {clamped : ℕ}
    (h : publication sha256 ed req masterSalt signer = .ok (pub, clamped)) (path : String) :
    carriesData pub.signedReport.report path = carries req path := by
  obtain ⟨metadata, haccepted, hpub⟩ := publication_spec h
  obtain ⟨nodes, tree, hpublished⟩ := publishWith_published hpub
  have hsums : pub.signedReport.report.rootSums.isEmpty = !req.leaves.any fun l => !l.balances.isEmpty := by
    have hempty := (rootSums_not_empty hpublished fun _ _ => inputNode_sums).trans
      (leafInputs_holdings haccepted.distinct)
    rw [Bool.eq_iff_iff, ← not_iff_not, Bool.not_eq_true, hempty]
    simp
  obtain ⟨disclosed, hdisclosed, hdebt⟩ := haccepted.badDebt
  have hreport : pub.signedReport.report.markPrices = metadata.markPrices ∧
      pub.signedReport.report.disclosures = metadata.disclosures := by
    rw [hpublished.report]
    exact ⟨rfl, rfl⟩
  have hprices : metadata.markPrices.isEmpty = req.markPrices.isEmpty :=
    traverse_isEmpty haccepted.markPrices
  have htotals : metadata.disclosures.excludedHouseTotals.isEmpty =
      req.disclosures.excludedHouseTotals.isEmpty := traverse_isEmpty haccepted.houseTotals
  have hdisclosedEmpty : disclosed.isEmpty = req.disclosures.badDebt.isEmpty :=
    traverse_isEmpty hdisclosed
  unfold carriesData carries
  rw [hsums, hreport.1, hreport.2, hprices, htotals, haccepted.houseAccounts, badDebt_isEmpty hdebt,
    hdisclosedEmpty, Bool.not_not, Bool.not_and, Bool.not_not]

theorem report_passes_iff {pub : Publication} {clamped : ℕ}
    (h : publication sha256 ed req masterSalt signer = .ok (pub, clamped)) :
    (checkReportVersionAndManifest pub.signedReport.report = .ok () ∧
      ∃ rules, validate pub.signedReport.report = .ok rules ∧ rules.leaf = .customer) ↔
    Publishable req := by
  obtain ⟨metadata, haccepted, hpub⟩ := publication_spec h
  obtain ⟨nodes, tree, hpublished⟩ := publishWith_published hpub
  have hprofile : lookup metadata.profile = some solvencyLiabilities :=
    lookup_registry haccepted.profile (by simp [registry])
  have hvalid := (validate_liabilities hpublished hprofile).trans (leafInputs_holdings haccepted.distinct)
  rw [hpublished.versionAndManifest, haccepted.manifest]
  simp only [ManifestConsistent, carriesData_eq h]
  constructor
  · rintro ⟨hmanifest, rules, hrules, hleaf⟩
    refine ⟨hvalid.mp ?_, hmanifest⟩
    obtain rfl := rules_eq hpublished hprofile hrules
    exact hrules
  · rintro ⟨hholdings, hmanifest⟩
    exact ⟨hmanifest, _, hvalid.mpr hholdings, rfl⟩

/-! ## The files of a delivery -/

theorem fileContent_of_mem {files : List FileOut} (h : (files.map FileOut.name).Nodup) {f : FileOut}
    (hf : f ∈ files) : fileContent files f.name = some f.content := by
  induction files with
  | nil => simp at hf
  | cons g files ih =>
    rw [List.map_cons, List.nodup_cons] at h
    rw [fileContent, List.find?_cons]
    rcases List.mem_cons.mp hf with rfl | hf
    · simp
    · have hne : g.name ≠ f.name := fun heq => h.1 (heq ▸ List.mem_map_of_mem hf)
      rw [decide_eq_false hne]
      exact ih h.2 hf

def values (d : Delivery) : List Json :=
  Wire.signedReport.encode d.signed :: Wire.anchor.encode d.anchor ::
    (d.proofs.map Wire.proofDocument.encode ++ [Wire.signedPack.encode d.pack])

theorem readFile_of_mem {α : Type} {c : Json.Codec α} {a : α} {files : List FileOut} {name : String}
    {written : List Json} (hnames : (files.map FileOut.name).Nodup)
    (hfile : ⟨name, pretty print (c.encode a)⟩ ∈ files) (hread : Json.ReadsBack print parse written)
    (ha : c.encode a ∈ written) : readFile parse c files name = some a := by
  have hcontent := fileContent_of_mem hnames hfile
  rw [readFile, hcontent, Option.bind_some, pretty, hread _ ha, Option.bind_some, c.decode_encode]

theorem proofFileName_ne (userId : String) : proofFileName sha256 userId ≠ "pack.json" := by
  intro h
  have hchars := congrArg (fun s : String => s.toList.take 2) h
  simp only [proofFileName, String.toList_append, List.append_assoc] at hchars
  exact absurd hchars (by simp)

theorem memberNames (d : Delivery) : (memberFiles sha256 print d.signed d.anchor d.proofs).map
    FileOut.name = "report.json" :: "anchor.json" ::
      d.proofs.map fun proof => proofFileName sha256 proof.leaf.userId := by
  simp [memberFiles, Function.comp_def]

theorem memberFiles_ne_pack (d : Delivery) : ∀ f ∈ memberFiles sha256 print d.signed d.anchor d.proofs,
    f.name ≠ "pack.json" := by
  intro f hf
  have hname : f.name ∈ (memberFiles sha256 print d.signed d.anchor d.proofs).map FileOut.name :=
    List.mem_map_of_mem hf
  rw [memberNames, List.mem_cons, List.mem_cons, List.mem_map] at hname
  rcases hname with h | h | ⟨proof, _, h⟩
  · rw [h]; decide
  · rw [h]; decide
  · rw [← h]; exact proofFileName_ne _

theorem deliver_names {d : Delivery} {clamped : ℕ}
    (h : deliver sha256 ed print req masterSalt signer = .ok (d, clamped)) :
    ((d.files sha256 print).map FileOut.name).Nodup := by
  obtain ⟨pub, _, _, _, _, hpack⟩ := deliver_spec h
  obtain ⟨_, hnodup, _⟩ := buildPack_eq_ok.mp hpack
  rw [packMembers, List.map_map] at hnodup
  rw [Delivery.files, List.map_append, List.nodup_append]
  refine ⟨hnodup, by simp, fun name hname last hlast => ?_⟩
  obtain ⟨f, hf, rfl⟩ := List.mem_map.mp hname
  obtain rfl : last = "pack.json" := by simpa using hlast
  exact memberFiles_ne_pack d f hf

theorem files_without_pack (d : Delivery) :
    ((d.files sha256 print).filter fun f => f.name ≠ "pack.json") =
      memberFiles sha256 print d.signed d.anchor d.proofs := by
  rw [Delivery.files, List.filter_append, List.filter_eq_self.mpr fun f hf =>
    decide_eq_true (memberFiles_ne_pack d f hf)]
  simp

/-! ## Acceptance -/

section
variable {d : Delivery} {clamped : ℕ}

theorem deliver_report (hdeliver : deliver sha256 ed print req masterSalt signer = .ok (d, clamped))
    (hread : Json.ReadsBack print parse (values d)) :
    readFile parse Wire.signedReport (d.files sha256 print) "report.json" = some d.signed :=
  readFile_of_mem (deliver_names hdeliver) (List.mem_append_left _ List.mem_cons_self) hread
    List.mem_cons_self

theorem deliver_proof (hdeliver : deliver sha256 ed print req masterSalt signer = .ok (d, clamped))
    (hread : Json.ReadsBack print parse (values d)) {proof : ProofDocument} (h : proof ∈ d.proofs) :
    readFile parse Wire.proofDocument (d.files sha256 print) (proofFileName sha256 proof.leaf.userId) =
      some proof := by
  refine readFile_of_mem (deliver_names hdeliver) (List.mem_append_left _ ?_) hread ?_
  · exact List.mem_cons_of_mem _ (List.mem_cons_of_mem _ (List.mem_map.mpr ⟨proof, h, rfl⟩))
  · exact List.mem_cons_of_mem _ (List.mem_cons_of_mem _
      (List.mem_append_left _ (List.mem_map.mpr ⟨proof, h, rfl⟩)))

theorem publishable_of_verifies {signed : SignedReport}
    (hdeliver : deliver sha256 ed print req masterSalt signer = .ok (d, clamped))
    (hread : Json.ReadsBack print parse (values d))
    (h : Verifies sha256 ed parse (d.response sha256 ed print clamped signer) signed) :
    Publishable req := by
  obtain ⟨pub, hpub, hsigned, hproofs, _, _⟩ := deliver_spec hdeliver
  obtain ⟨metadata, haccepted, hpublish⟩ := publication_spec hpub
  obtain ⟨nodes, tree, hpublished⟩ := publishWith_published hpublish
  obtain rfl : d.signed = signed := Option.some.inj ((deliver_report hdeliver hread).symm.trans h.report)
  have hcount := proof_count hpublished
  rw [leafInputs, List.length_map, (users_perm haccepted.distinct).length_eq, List.length_map] at hcount
  obtain ⟨proof, hproof⟩ := List.exists_mem_of_length_pos
    (hcount ▸ List.length_pos_iff.mpr haccepted.leaves)
  obtain ⟨accepted, _, _, hverify⟩ := h.proofs ⟨proof.leaf.userId, proofFileName sha256 proof.leaf.userId⟩
    (List.mem_map.mpr ⟨proof, hproofs ▸ hproof, rfl⟩)
  obtain ⟨hmanifest, hprofile, _⟩ := verify_eq_ok.mp hverify
  rw [hsigned] at hmanifest hprofile
  exact (report_passes_iff hpub).mp ⟨hmanifest, hprofile⟩

theorem verifies_of_publishable (hsig : ed.AcceptsOwn)
    (hdeliver : deliver sha256 ed print req masterSalt signer = .ok (d, clamped))
    (hread : Json.ReadsBack print parse (values d)) (h : Publishable req) :
    Verifies sha256 ed parse (d.response sha256 ed print clamped signer) d.signed := by
  obtain ⟨pub, hpub, hsigned, hproofs, hanchor, hpack⟩ := deliver_spec hdeliver
  obtain ⟨metadata, haccepted, hpublish⟩ := publication_spec hpub
  obtain ⟨nodes, tree, hpublished⟩ := publishWith_published hpublish
  obtain ⟨hmanifest, hprofile⟩ := (report_passes_iff hpub).mpr h
  constructor
  · change (d.files sha256 print).map FileOut.name = _
    rw [Delivery.files, List.map_append, memberNames]
    simp [Delivery.response, Function.comp_def]
  · exact deliver_report hdeliver hread
  · intro p hp
    obtain ⟨proof, hproof, rfl⟩ := List.mem_map.mp hp
    refine ⟨proof, deliver_proof hdeliver hread hproof, rfl, ?_⟩
    rw [hproofs, hpublished.documents] at hproof
    obtain ⟨⟨l, i⟩, hl, rfl⟩ := List.mem_map.mp hproof
    rw [hsigned]
    exact verify_published hpublished hsig hprofile hmanifest (List.mk_mem_zipIdx_iff_getElem?.mp hl)
  · refine ⟨d.pack, ?_, ?_⟩
    · exact readFile_of_mem (deliver_names hdeliver) (List.mem_append_right _ List.mem_cons_self) hread
        (List.mem_cons_of_mem _ (List.mem_cons_of_mem _ (List.mem_append_right _ List.mem_cons_self)))
    · change verifyPack sha256 ed d.pack _ (ofList (packMembers ((d.files sha256 print).filter _))) = _
      rw [files_without_pack]
      exact buildPack_verifies hsig hpack
  · refine ⟨d.anchor, ?_, by rw [hanchor, hsigned]; rfl⟩
    exact readFile_of_mem (deliver_names hdeliver)
      (List.mem_append_left _ (List.mem_cons_of_mem _ List.mem_cons_self)) hread
      (List.mem_cons_of_mem _ List.mem_cons_self)

end

variable (sha256 ed print parse req masterSalt signer) in
/-- What the route returns verifies exactly when the request is publishable. -/
theorem publication_verifies_iff (hsig : ed.AcceptsOwn) {resp : PublishResponse}
    (h : doPublish sha256 ed print req masterSalt signer = .ok resp)
    (hread : ∀ d clamped, deliver sha256 ed print req masterSalt signer = .ok (d, clamped) →
      Json.ReadsBack print parse (values d)) :
    (∃ signed, Verifies sha256 ed parse resp signed) ↔ Publishable req := by
  obtain ⟨d, hdeliver, hresp⟩ := doPublish_spec h
  rw [hresp]
  constructor
  · rintro ⟨signed, hverifies⟩
    exact publishable_of_verifies hdeliver (hread _ _ hdeliver) hverifies
  · exact fun hpublishable => ⟨_, verifies_of_publishable hsig hdeliver (hread _ _ hdeliver) hpublishable⟩

/-! ## Two requests -/

def sampleManifest : Manifest :=
  ⟨"public", ofList [("root_sums", .published), ("mark_prices", .withheld),
    ("disclosures.bad_debt", .published), ("customer_balances", .committed)]⟩

def manifestRequest : PublishRequest :=
  { sampleRequest sampleLeaves with manifest := some sampleManifest }

/-- The golden signer's signatures over the report and the pack of the request above. -/
def sampleEd25519 : Ed25519 :=
  goldenEd25519
    [(bytesOf 32 0xfe12bf137213d8319de8b0d8ed20b37dbc0b0243359ce6063b5cf36593ddb8fb, bytesOf 64
      (0x4b74fa7cdb519381dd4b3d173d7fb5b4b80a27891164e4a445d7467122f4c433 * 2 ^ 256 +
        0xf5be211ba5dd07a6699d01bcb9986a882a9cab766b31abf7e66122179798680d)),
      (bytesOf 32 0xbcc9e2987300bf191dfc13a08d593d598da04c1ab1bb2a2be6ea91494e0cb203, bytesOf 64
      (0xece702cd047a5a936ec5cda8d39d99c936c462b467573cd609b987f4a6f17828 * 2 ^ 256 +
        0x9cec490586cfae6e3dbc01ffd1da512cf1d9b1537cc138924c534dac35cbeb07))]

theorem ofText_readsBack (written : List Json) : Json.ReadsBack Json.toStringPretty Json.ofText written :=
  fun j _ => Json.ofText_toStringPretty j (by decide)

def publishSigned (req : PublishRequest) : Except PublishFailure PublishResponse :=
  doPublish Sha256.sha256 sampleEd25519 Json.toStringPretty req sampleSalt goldenSigner

theorem publication_verifies_iff_three : ∃ resp, publishSigned manifestRequest = .ok resp ∧
    ∃ signed, Verifies Sha256.sha256 sampleEd25519 Json.ofText resp signed := by
  obtain ⟨resp, h⟩ : ∃ resp, publishSigned manifestRequest = .ok resp := exists_of_isOk (by decide +kernel)
  have hpublishable : Publishable manifestRequest := by
    refine ⟨⟨_, List.mem_cons_self, by decide +kernel⟩, ?_⟩
    rintro m ⟨⟩
    decide +kernel
  refine ⟨resp, h, (publication_verifies_iff Sha256.sha256 sampleEd25519 Json.toStringPretty
    Json.ofText manifestRequest sampleSalt goldenSigner (recorded_acceptsOwn _ _ _) h
    fun _ _ _ => ofText_readsBack _).mpr hpublishable⟩

/-- A request whose only leaf holds nothing. -/
def emptyRequest : PublishRequest := sampleRequest [⟨"alice", empty⟩]

/-- It is signed and delivered, and what is delivered does not verify. -/
theorem publication_not_verified : ∃ resp, publishSigned emptyRequest = .ok resp ∧
    ¬ ∃ signed, Verifies Sha256.sha256 sampleEd25519 Json.ofText resp signed := by
  obtain ⟨resp, h⟩ : ∃ resp, publishSigned emptyRequest = .ok resp := exists_of_isOk (by decide +kernel)
  obtain ⟨d, hd, hresp⟩ := doPublish_spec h
  refine ⟨resp, h, ?_⟩
  rintro ⟨signed, hverifies⟩
  rw [hresp] at hverifies
  have hpublishable := publishable_of_verifies hd (ofText_readsBack _) hverifies
  obtain ⟨l, hl, hempty⟩ := hpublishable.holdings
  obtain rfl := List.mem_singleton.mp hl
  exact absurd hempty (by decide)

end AssuranceLayer.SelfCheck
