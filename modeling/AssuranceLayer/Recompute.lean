import AssuranceLayer.CheckedRuns

set_option autoImplicit false

/-!
The auditor's rebuild of a report from a dump of all its leaves, and what a match says of the report.
-/
namespace AssuranceLayer.Recompute
open Fallible Sums Document Sign Produce SortedMap VerifyCommand
open Json.Codec Json.Fields
open Completeness (goldenLeaves)

/-- One entry of a dump: the same preimage a proof discloses. -/
structure DumpEntry where
  salt : String
  userId : String
  balances : SortedMap String String

def dumpEntry : Json.Codec DumpEntry :=
  record (((field "salt" string).both ((field "user_id" string).both (field "balances" (map string)))).iso
    (fun p => ⟨p.1, p.2.1, p.2.2⟩) (fun e => (e.salt, e.userId, e.balances)) fun _ => rfl) (by decide)

structure RecomputeOutcome where
  leaves : ℕ
  publishedRoot : String
  recomputedRoot : String
  /-- Assets where the recomputed total differs from the published one. -/
  disagreeingAssets : List String
deriving DecidableEq

def RecomputeOutcome.matches (o : RecomputeOutcome) : Bool :=
  o.publishedRoot = o.recomputedRoot ∧ o.disagreeingAssets = []

inductive RecomputeError where
  | document (e : RunError)
  /-- "the dump is empty — refusing to report a vacuous match" -/
  | emptyDump
  /-- "salt for {user_id} is not 32 bytes of hex" -/
  | salt (userId : String)
  | amount (e : Amount.AmountError)
  | publish (e : PublishError)

def leafInput (entry : DumpEntry) : Except RecomputeError LeafInput := do
  let salt ← okOr (hexDecodeN 32 entry.salt) (.salt entry.userId)
  let balances ← (entry.balances.traverse fun _ amount => Amount.parseAmount18dp amount).mapError .amount
  return ⟨salt, entry.userId, balances⟩

/-- Totals are compared both ways, absent ones as zero. -/
def disagreeingAssets (recomputed published : AmountMap) : List String :=
  let differs := fun asset => (recomputed.get? asset).getD 0 ≠ (published.get? asset).getD 0
  (ofList (((recomputed.keys ++ published.keys).filter differs).map fun asset => (asset, ()))).keys

/-- The key is thrown away: only the tree matters. -/
def throwaway : ReportSigner := ⟨bytesOf 32 0⟩

def metadataOf (report : Report) : ReportMetadata where
  profile := report.profile
  publisher := report.publisher
  snapshotTime := report.snapshotTime
  ledgerOffset := report.ledgerOffset
  markPrices := empty
  disclosures := ⟨empty, 0, empty⟩
  manifest := none

section Run
variable (sha256 : List UInt8 → Digest) (ed : Ed25519) (parse : String → Option Json) (fs : FileSystem)

def runRecompute (leaves report : FilePath) : Except RecomputeError RecomputeOutcome := do
  let signed ← (load parse fs Wire.signedReport report).mapError .document
  let dump ← (load parse fs (list dumpEntry) leaves).mapError .document
  ensure (dump ≠ []) .emptyDump
  let inputs ← dump.mapM leafInput
  let rebuilt ← (publish sha256 ed inputs (metadataOf signed.report) throwaway).mapError .publish
  let recomputed := rebuilt.signedReport.report
  return {
    leaves := inputs.length
    publishedRoot := signed.report.rootHash
    recomputedRoot := recomputed.rootHash
    disagreeingAssets := disagreeingAssets recomputed.rootSums signed.report.rootSums }

end Run

variable {sha256 : List UInt8 → Digest} {ed : Ed25519} {parse : String → Option Json} {fs : FileSystem}
  {leaves report : FilePath} {outcome : RecomputeOutcome}

theorem disagreeingAssets_eq_nil {recomputed published : AmountMap} :
    disagreeingAssets recomputed published = [] ↔ amount recomputed = amount published := by
  rw [← Verify.firstSumDisagreement_eq_none, Verify.firstSumDisagreement, List.find?_eq_none, disagreeingAssets,
    List.eq_nil_iff_forall_not_mem]
  simp only [keys_ofList, List.map_map, List.mem_map, Function.comp, exists_eq_right, List.mem_filter, not_and]

theorem matches_iff {o : RecomputeOutcome} :
    o.matches = true ↔ o.publishedRoot = o.recomputedRoot ∧ o.disagreeingAssets = [] := by
  rw [RecomputeOutcome.matches, decide_eq_true_eq]

theorem runRecompute_eq_ok {signed : SignedReport} {dump : List DumpEntry}
    (hsigned : load parse fs Wire.signedReport report = .ok signed)
    (hdump : load parse fs (list dumpEntry) leaves = .ok dump) :
    runRecompute sha256 ed parse fs leaves report = .ok outcome ↔ dump ≠ [] ∧ ∃ inputs pub,
      dump.mapM leafInput = .ok inputs ∧
      publish sha256 ed inputs (metadataOf signed.report) throwaway = .ok pub ∧
      outcome = ⟨inputs.length, signed.report.rootHash, pub.signedReport.report.rootHash,
        disagreeingAssets pub.signedReport.report.rootSums signed.report.rootSums⟩ := by
  simp only [runRecompute, hsigned, hdump, bind_eq_ok, mapError_eq_ok, ensure_eq_ok, pure_eq_ok,
    Except.ok.injEq, exists_eq_left']
  constructor
  · rintro ⟨_, hsome, inputs, hinputs, pub, hpub, rfl⟩
    exact ⟨hsome, inputs, pub, hinputs, hpub, rfl⟩
  · rintro ⟨hsome, inputs, pub, hinputs, hpub, rfl⟩
    exact ⟨(), hsome, inputs, hinputs, pub, hpub, rfl⟩

variable (sha256 ed) in
/-- A match has the root and the totals right. It has the number of the leaves right when the report
    does: nothing compares it. -/
theorem recompute_iff {signed : SignedReport} {dump : List DumpEntry}
    (hsigned : load parse fs Wire.signedReport report = .ok signed)
    (hdump : load parse fs (list dumpEntry) leaves = .ok dump)
    (hrun : runRecompute sha256 ed parse fs leaves report = .ok outcome) (hmatches : outcome.matches = true) :
    ∃ inputs pub, dump.mapM leafInput = .ok inputs ∧
      publish sha256 ed inputs (metadataOf signed.report) throwaway = .ok pub ∧
      (pub.signedReport.report.rootHash = signed.report.rootHash ∧
        amount pub.signedReport.report.rootSums = amount signed.report.rootSums) ∧
      ((dump.length = signed.report.leafCount.val ∧
          pub.signedReport.report.rootHash = signed.report.rootHash ∧
          amount pub.signedReport.report.rootSums = amount signed.report.rootSums) ↔
        dump.length = signed.report.leafCount.val) := by
  obtain ⟨-, inputs, pub, hinputs, hpub, rfl⟩ := (runRecompute_eq_ok hsigned hdump).mp hrun
  obtain ⟨hroot, hsums⟩ := matches_iff.mp hmatches
  have hsame : pub.signedReport.report.rootHash = signed.report.rootHash ∧
      amount pub.signedReport.report.rootSums = amount signed.report.rootSums :=
    ⟨hroot.symm, disagreeingAssets_eq_nil.mp hsums⟩
  exact ⟨inputs, pub, hinputs, hpub, hsame, and_iff_left hsame⟩

/-! ## A dump of the leaves of a publication -/

def dumpOf (l : LeafInput) : DumpEntry where
  salt := hexEncode l.salt.toList
  userId := l.userId
  balances := l.balances.mapValues Amount.formatAmount18dp

theorem leafInput_dumpOf (l : LeafInput) : leafInput (dumpOf l) = .ok l := by
  have hbalances : (l.balances.mapValues Amount.formatAmount18dp).traverse
      (fun _ amount => Amount.parseAmount18dp amount) = .ok l.balances :=
    traverse_mapValues fun _ v => Amount.parse_format v
  rw [leafInput, dumpOf, hexDecodeN_encode, hbalances]
  rfl

def auditMetadata : ReportMetadata where
  profile := "solvency.liabilities"
  publisher := "golden::publisher"
  snapshotTime := "2026-01-01T00:00:00Z"
  ledgerOffset := "000000000000000042"
  markPrices := empty
  disclosures := ⟨empty, 0, empty⟩
  manifest := none

theorem audit_publishes : ∃ pub,
    publish Sha256.sha256 (goldenEd25519 []) goldenLeaves auditMetadata throwaway = .ok pub :=
  exists_of_isOk (by decide +kernel)

/-- The report of the golden leaves, with some number of leaves. -/
def counted (pub : Publication) (n : U64) : SignedReport :=
  { pub.signedReport with report := { pub.signedReport.report with leafCount := n } }

def reportPath : FilePath := [utf8 "report.json"]
def leavesPath : FilePath := [utf8 "leaves.json"]

def auditFiles : FileSystem where
  readDir _ := none
  isFile _ := true
  read path := some (path.flatten)

def auditParse (signed : SignedReport) (dump : List DumpEntry) (text : String) : Option Json :=
  if text = "report.json" then some (Wire.signedReport.encode signed) else some ((list dumpEntry).encode dump)

theorem audit_loads (signed : SignedReport) (dump : List DumpEntry) :
    load (auditParse signed dump) auditFiles Wire.signedReport reportPath = .ok signed ∧
      load (auditParse signed dump) auditFiles (list dumpEntry) leavesPath = .ok dump := by
  have hread : ∀ name : String, auditFiles.readToString [utf8 name] = some name := fun name => by
    have hfile : auditFiles.read [utf8 name] = some (utf8 name) := congrArg some List.flatten_singleton
    rw [FileSystem.readToString, hfile, Option.bind_some, CheckedRuns.decodeUtf8_utf8]
  constructor
  · rw [load, reportPath, hread, okOr, ok_bind, fromStr, auditParse, if_pos rfl, Option.bind_some,
      Wire.signedReport.decode_encode, okOr]
  · rw [load, leavesPath, hread, okOr, ok_bind, fromStr, auditParse, if_neg (by decide), Option.bind_some,
      (list dumpEntry).decode_encode, okOr]

theorem mapM_dumpOf (inputs : List LeafInput) : (inputs.map dumpOf).mapM leafInput = .ok inputs := by
  rw [mapM_eq_ok, List.forall₂_map_left_iff, List.forall₂_same]
  exact fun l _ => leafInput_dumpOf l

theorem audit_matches {pub : Publication} (hpub :
    publish Sha256.sha256 (goldenEd25519 []) goldenLeaves auditMetadata throwaway = .ok pub) (n : U64) :
    ∃ outcome, runRecompute Sha256.sha256 (goldenEd25519 []) (auditParse (counted pub n) (goldenLeaves.map dumpOf))
      auditFiles leavesPath reportPath = .ok outcome ∧ outcome.matches = true := by
  have hloads := audit_loads (counted pub n) (goldenLeaves.map dumpOf)
  have hmetadata : metadataOf (counted pub n).report = auditMetadata := by
    obtain ⟨nodes, tree, h⟩ := publishWith_published hpub
    rw [counted, h.report]
    rfl
  refine ⟨_, (runRecompute_eq_ok hloads.1 hloads.2).mpr ⟨by decide, goldenLeaves, pub, mapM_dumpOf _,
    hmetadata ▸ hpub, rfl⟩, matches_iff.mpr ⟨rfl, disagreeingAssets_eq_nil.mpr rfl⟩⟩

/-- The report counts its three leaves. -/
theorem recompute_iff_golden : ∃ pub inputs pub', (goldenLeaves.map dumpOf).mapM leafInput = .ok inputs ∧
    publish Sha256.sha256 (goldenEd25519 []) inputs (metadataOf (counted pub 3).report) throwaway = .ok pub' ∧
    (pub'.signedReport.report.rootHash = (counted pub 3).report.rootHash ∧
      amount pub'.signedReport.report.rootSums = amount (counted pub 3).report.rootSums) ∧
    (((goldenLeaves.map dumpOf).length = (counted pub 3).report.leafCount.val ∧
        pub'.signedReport.report.rootHash = (counted pub 3).report.rootHash ∧
        amount pub'.signedReport.report.rootSums = amount (counted pub 3).report.rootSums) ↔
      (goldenLeaves.map dumpOf).length = (counted pub 3).report.leafCount.val) := by
  obtain ⟨pub, hpub⟩ := audit_publishes
  obtain ⟨outcome, hrun, hmatches⟩ := audit_matches hpub 3
  have hloads := audit_loads (counted pub 3) (goldenLeaves.map dumpOf)
  exact ⟨pub, recompute_iff _ _ hloads.1 hloads.2 hrun hmatches⟩

/-- A report of three leaves that says four matches its dump. -/
theorem leaf_count_unchecked : ∃ parse signed dump outcome,
    load parse auditFiles Wire.signedReport reportPath = .ok signed ∧
    load parse auditFiles (list dumpEntry) leavesPath = .ok dump ∧
    runRecompute Sha256.sha256 (goldenEd25519 []) parse auditFiles leavesPath reportPath = .ok outcome ∧
    outcome.matches = true ∧ dump.length = 3 ∧ signed.report.leafCount = 4 := by
  obtain ⟨pub, hpub⟩ := audit_publishes
  obtain ⟨outcome, hrun, hmatches⟩ := audit_matches hpub 4
  have hloads := audit_loads (counted pub 4) (goldenLeaves.map dumpOf)
  exact ⟨_, _, _, outcome, hloads.1, hloads.2, hrun, hmatches, rfl, rfl⟩

end AssuranceLayer.Recompute
