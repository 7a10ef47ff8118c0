import AssuranceLayer.CoverageAgreement
import AssuranceLayer.Custody
import AssuranceLayer.JsonText
import AssuranceLayer.SelfCheck
import AssuranceLayer.SigningKeys

set_option autoImplicit false

/-!
Coverage claims as the console makes them: custody is attested and liabilities are published, the
texts of both reports are stored, and a pair of stored texts is judged. Any number of requests
interleave.
-/
namespace AssuranceLayer.CoverageClaim
open Fallible Interleaving Task Utf16 JavaScript Amount Sums Document Digest Sign Produce Completeness
open Custody Service SelfCheck Conservation Publishing Coverage CoverageAgreement KeySpelling Reading SortedMap

/-! ## The custody route -/

structure CustodyRequest where
  publisher : String
  snapshotTime : String
  ledgerOffset : String
  /-- A saved active-contracts response. -/
  responseJson : String
  assetField : String
  amountField : String
deriving DecidableEq

structure PositionOut where
  contractId : String
  asset : String
  amount : String
deriving DecidableEq

structure CustodyResponse where
  publicKey : String
  reportDigest : String
  rootHash : String
  leafCount : U64
  rootSums : SortedMap String String
  positions : List PositionOut
  files : List FileOut
deriving DecidableEq

inductive RouteFailure where
  | holdings (e : HoldingsFailure)
  /-- "the snapshot holds no positions" -/
  | noPositions
  | report (e : CustodyFailure)
deriving DecidableEq

def CustodyRequest.fields (req : CustodyRequest) : HoldingFields := ⟨req.assetField, req.amountField⟩

def CustodyRequest.metadata (req : CustodyRequest) : ReportMetadata where
  profile := "coverage.custody"
  publisher := req.publisher
  snapshotTime := req.snapshotTime
  ledgerOffset := req.ledgerOffset
  markPrices := empty
  disclosures := ⟨empty, 0, empty⟩
  manifest := none

section Route
variable {ν : Type} (fromStr : String → Option (Value ν)) (sha256 : List UInt8 → Digest) (ed : Ed25519)
  (print : Json → String)

def custodyResponse (positions : List CustodyPosition) (signed : SignedReport) (signer : ReportSigner) :
    CustodyResponse where
  publicKey := signer.publicKeyHex ed
  reportDigest := reportDigestHex sha256 signed.report
  rootHash := signed.report.rootHash
  leafCount := signed.report.leafCount
  rootSums := signed.report.rootSums.mapValues formatAmount18dp
  positions := positions.map fun p => ⟨p.contractId, p.asset, formatAmount18dp p.amount⟩
  files := [⟨"custody-report.json", pretty print (Wire.signedReport.encode signed)⟩]

def doCustody (req : CustodyRequest) (masterSalt : Bytes 32) (signer : ReportSigner) :
    Except RouteFailure CustodyResponse := do
  let positions ← (parseHoldings fromStr req.responseJson req.fields).mapError .holdings
  ensure (positions.isEmpty = false) .noPositions
  -- only whether it overflows
  let _ ← (totals positions).mapError .holdings
  let signed ← (buildCustodyReport sha256 ed positions req.metadata req.ledgerOffset masterSalt.toList
    signer).mapError .report
  return custodyResponse sha256 ed print positions signed signer

end Route

/-! ## Rows -/

structure CustodyInput where
  snapshotTime : String
  ledgerOffset : String
  responseJson : String
  assetField : String
  amountField : String
  custodyBasis : String
deriving DecidableEq

structure CustodyRow where
  id : String
  snapshotTime : String
  ledgerOffset : String
  reportDigest : String
  rootHash : String
  leafCount : U64
  rootSums : SortedMap String String
  publisherKey : String
  custodyBasis : String
  /-- The exact text of the report. -/
  report : String
deriving DecidableEq

structure PublicationRow where
  publication : StoredPublication
  publisherKey : String
  report : String
deriving DecidableEq

structure StatementRow where
  id : String
  custodyId : String
  publicationId : String
  statement : String
  maxSkew : U64
  fullyCovered : Bool
deriving DecidableEq

/-- What is stored for one organisation. -/
structure Books where
  publisherParty : String
  signingKeyHex : Option String
  publications : List PublicationRow
  custody : List CustodyRow
  statements : List StatementRow
deriving DecidableEq

/-- An organisation that has stored nothing yet. -/
def Books.opened (publisherParty : String) (signingKeyHex : Option String) : Books :=
  ⟨publisherParty, signingKeyHex, [], [], []⟩

/-! ## Requests -/

inductive Refusal where
  /-- "snapshot time {} does not advance", "ledger offset {} moves backwards" -/
  | notForward
  | service (e : PublishFailure)
  | custody (e : RouteFailure)
  /-- "signing key changed for {}" -/
  | keyChanged
  /-- "signing service returned no {name}" -/
  | missingFile (name : String)
  /-- "no such custody report or publication" -/
  | notFound
  /-- "no publication yet" -/
  | noPublication
  /-- A stored text that is not read as a report. -/
  | malformed
  /-- "these two reports are already paired" -/
  | alreadyPaired
  /-- A unique column is taken. -/
  | database
deriving DecidableEq

inductive Request where
  | publish (input : PublishInput) (signer : ReportSigner) (masterSalt : Bytes 32) (id : String)
  | attest (input : CustodyInput) (signer : ReportSigner) (masterSalt : Bytes 32) (id : String)
  /-- The publication is the latest one unless it is named. -/
  | pair (custodyId : String) (publicationId : Option String) (maxSkew : U64) (id : String)
  | updateGeneral (publisherParty : String)

def custodyRequestOf (publisherParty : String) (input : CustodyInput) : CustodyRequest where
  publisher := publisherParty
  snapshotTime := input.snapshotTime
  ledgerOffset := padStart 18 input.ledgerOffset
  responseJson := input.responseJson
  assetField := input.assetField
  amountField := input.amountField

def custodyRow (id : String) (input : CustodyInput) (resp : CustodyResponse) (report : String) : CustodyRow where
  id := id
  snapshotTime := input.snapshotTime
  ledgerOffset := padStart 18 input.ledgerOffset
  reportDigest := resp.reportDigest
  rootHash := resp.rootHash
  leafCount := resp.leafCount
  rootSums := resp.rootSums
  publisherKey := resp.publicKey
  custodyBasis := input.custodyBasis
  report := report

def Books.published (s : Books) (row : PublicationRow) : Books :=
  { s with signingKeyHex := some row.publisherKey, publications := s.publications ++ [row] }

def Books.attested (s : Books) (row : CustodyRow) : Books := { s with custody := s.custody ++ [row] }

def Books.paired (s : Books) (row : StatementRow) : Books := { s with statements := s.statements ++ [row] }

section Requests
variable {ν : Type} (fromStr : String → Option (Value ν)) (toLowerCase : JsString → JsString)
  (sha256 : List UInt8 → Digest) (ed : Ed25519) (print : Json → String) (parse : String → Option Json)

def publishForOrg (input : PublishInput) (signer : ReportSigner) (masterSalt : Bytes 32) (id : String) :
    Task Books Refusal Unit := do
  let org ← query fun s => (s.publisherParty, s.signingKeyHex)
  let previous ← query fun s => s.publications.getLast?.map PublicationRow.publication
  require (mayFollow input previous = true) .notForward
  match deliver sha256 ed print (requestOf org.1 input previous) masterSalt signer with
  | .error e => fail (.service e)
  | .ok d => do
    require (sameSigningKey org.2 (signer.publicKeyHex ed) = true) .keyChanged
    let report ← given (fileContent (d.1.files sha256 print) "report.json") (.missingFile "report.json")
    transact fun s =>
      if admits (s.publications.map PublicationRow.publication) (storedRow sha256 id input previous d.1) then
        .ok ((), s.published ⟨storedRow sha256 id input previous d.1, signer.publicKeyHex ed, report⟩)
      else .error .database

def attestCustodyForOrg (input : CustodyInput) (signer : ReportSigner) (masterSalt : Bytes 32) (id : String) :
    Task Books Refusal Unit := do
  let publisherParty ← query Books.publisherParty
  match doCustody fromStr sha256 ed print (custodyRequestOf publisherParty input) masterSalt signer with
  | .error e => fail (.custody e)
  | .ok resp => do
    let report ← given (fileContent resp.files "custody-report.json") (.missingFile "custody-report.json")
    transact fun s =>
      if ∀ r ∈ s.custody, r.id ≠ id ∧ r.reportDigest ≠ resp.reportDigest then
        .ok ((), s.attested (custodyRow id input resp report))
      else .error .database

/-- The text of a digest, which is ASCII. -/
def digestText (digest : JsString) : String := String.ofList (asChars digest)

/-- The statement about two stored reports, and whether it holds of them. -/
def judge (custody : CustodyRow) (publication : PublicationRow) (maxSkew : U64) :
    Except Refusal (CoverageStatement × Bool) := do
  let custodySigned ← okOr ((parse custody.report).map Js.ofJson) .malformed
  let liabilitiesSigned ← okOr ((parse publication.report).map Js.ofJson) .malformed
  let custodyDigest ← (do Browser.reportDigestHex sha256 (← custodySigned.get "report")).mapError
    fun _ => .malformed
  let liabilitiesDigest ← (do Browser.reportDigestHex sha256 (← liabilitiesSigned.get "report")).mapError
    fun _ => .malformed
  let statement : CoverageStatement :=
    { formatVersion := "canton-solvency-coverage-v1"
      custodyReportDigest := digestText custodyDigest
      liabilitiesReportDigest := digestText liabilitiesDigest
      custodyBasis := custody.custodyBasis }
  let result := Browser.verifyCoverage toLowerCase sha256 ed custodySigned liabilitiesSigned
    (Js.ofJson (Wire.coverageStatement.encode statement)) (ofString custody.publisherKey)
    (ofString publication.publisherKey) (Binary64.ofNat maxSkew.val)
  return (statement, result.isOk)

def statementRow (custodyId publicationId : String) (maxSkew : U64) (id : String)
    (judged : CoverageStatement × Bool) : StatementRow where
  id := id
  custodyId := custodyId
  publicationId := publicationId
  statement := pretty print (Wire.coverageStatement.encode judged.1)
  maxSkew := maxSkew
  fullyCovered := judged.2

def pairCoverageForOrg (custodyId publicationId : String) (maxSkew : U64) (id : String) :
    Task Books Refusal Unit := do
  let custody ← query fun s => s.custody.find? fun row => row.id = custodyId
  let publication ← query fun s => s.publications.find? fun row => row.publication.id = publicationId
  let custody ← given custody .notFound
  let publication ← given publication .notFound
  match judge toLowerCase sha256 ed parse custody publication maxSkew with
  | .error e => fail e
  | .ok judged => do
    transact fun s =>
      if ∀ r ∈ s.statements, r.id ≠ id ∧ (r.custodyId ≠ custodyId ∨ r.publicationId ≠ publicationId) then
        .ok ((), s.paired (statementRow print custodyId publicationId maxSkew id judged))
      else .error .alreadyPaired

def Request.task : Request → Task Books Refusal Unit
  | publish input signer masterSalt id => publishForOrg sha256 ed print input signer masterSalt id
  | attest input signer masterSalt id => attestCustodyForOrg fromStr sha256 ed print input signer masterSalt id
  | pair custodyId (some publicationId) maxSkew id =>
    pairCoverageForOrg toLowerCase sha256 ed print parse custodyId publicationId maxSkew id
  | pair custodyId none maxSkew id => do
    let latest ← query fun s => s.publications.getLast?
    let latest ← given latest .noPublication
    pairCoverageForOrg toLowerCase sha256 ed print parse custodyId latest.publication.id maxSkew id
  | updateGeneral publisherParty => modify fun s => { s with publisherParty }

end Requests

variable {ν : Type} {fromStr : String → Option (Value ν)} {toLowerCase : JsString → JsString}
  {sha256 : List UInt8 → Digest} {ed : Ed25519} {print : Json → String} {parse : String → Option Json}

/-! ## Where a stored report is from -/

section Origin
variable (fromStr sha256 ed print)

/-- The row of a publication of this input, under some name of the publisher. -/
def PublishedFrom (input : PublishInput) (row : PublicationRow) : Prop :=
  ∃ party previous masterSalt signer d clamped,
    deliver sha256 ed print (requestOf party input previous) masterSalt signer = .ok (d, clamped) ∧
      row.report = pretty print (Wire.signedReport.encode d.signed) ∧
      row.publisherKey = signer.publicKeyHex ed

/-- The row of a snapshot that holds these positions. -/
def AttestedFrom (input : CustodyInput) (positions : List CustodyPosition) (row : CustodyRow) : Prop :=
  ∃ party masterSalt signer signed, let req := custodyRequestOf party input
    parseHoldings fromStr req.responseJson req.fields = .ok positions ∧
      buildCustodyReport sha256 ed positions req.metadata req.ledgerOffset masterSalt signer = .ok signed ∧
      row.report = pretty print (Wire.signedReport.encode signed) ∧
      row.publisherKey = signer.publicKeyHex ed

end Origin

/-! ## What a verdict says -/

/-- What was entered in the leaves of an input, of each asset. -/
def liabilities (input : PublishInput) (a : String) : ℕ :=
  (input.leaves.map fun l => entryTotal a (enteredEntries l.balances)).sum

/-- In each leaf of the input all names are different once they are trimmed. -/
def NamesApart (input : PublishInput) : Prop :=
  ∀ l ∈ input.leaves, (l.balances.entries.map fun e => trim e.1).Nodup

/-- The positions hold all that was entered for the leaves, and both are as of one moment. -/
structure Covered (positions : List CustodyPosition) (custodyTime : String) (input : PublishInput)
    (maxSkew : U64) : Prop where
  held : ∀ a, liabilities input a ≤ entryTotal a (entered positions)
  moment : ∃ n, Instant.skew custodyTime input.snapshotTime = some n ∧ n ≤ maxSkew.val
  years : ¬ FirstCentury custodyTime ∧ ¬ FirstCentury input.snapshotTime

theorem digestText_hex (digest : Digest) :
    digestText (ofString (hexEncode digest.toList)) = hexEncode digest.toList := by
  have hhex := HexTexts.hexDecodeChars_chars (hexDecode_encode digest.toList)
  rw [digestText, AmountTexts.asChars_eq (by decide) (fun _ => HexTexts.isHexDigit_small) (.inr hhex),
    String.ofList_toList]

/-- A report that its own key signs, with counts that doubles keep. -/
structure Sound (sha256 : List UInt8 → Digest) (ed : Ed25519) (signed : SignedReport) : Prop where
  selfSigned : Gates.SelfSigned sha256 ed signed
  countsKept : CountsKept sha256 signed

theorem Sound.sameSpelling {signed : SignedReport} (h : Sound sha256 ed signed) :
    SameSpelling signed.signature.publicKey signed.signature.publicKey :=
  ⟨rfl, trimmed_of_verifies h.selfSigned⟩

/-- The statement that names two reports. -/
def statementOf (sha256 : List UInt8 → Digest) (custody liabilities : SignedReport) (custodyBasis : String) :
    CoverageStatement where
  formatVersion := coverageFormatVersion
  custodyReportDigest := reportDigestHex sha256 custody.report
  liabilitiesReportDigest := reportDigestHex sha256 liabilities.report
  custodyBasis := custodyBasis

theorem read_digest {signed : SignedReport} (h : CountsKept sha256 signed) :
    (do Browser.reportDigestHex sha256 (← (Js.ofJson (Wire.signedReport.encode signed)).get "report")) =
      .ok (ofString (reportDigestHex sha256 signed.report)) := by
  have hreads := readsSigned_of_decode (Wire.signedReport.decode_encode signed) (Rendering.isSignedReport signed)
  rw [hreads.object.get, ok_bind, reportDigestHex_reads hreads.report]
  exact congrArg (fun digest : Digest => Except.ok (ofString (hexEncode digest.toList))) h

theorem isOk_iff {ε : Type} {x : Except ε Unit} : x.isOk = true ↔ x = .ok () := by
  cases x with
  | error e => exact iff_of_false Bool.false_ne_true (by simp)
  | ok u => exact iff_of_true rfl rfl

variable (toLowerCase) in
/-- Two stored reports are judged, and the verdict is about the profiles, times and totals alone. -/
theorem judge_of_sound {custodyRow : CustodyRow} {publication : PublicationRow} {custody liabilities : SignedReport}
    (hcustody : parse custodyRow.report = some (Wire.signedReport.encode custody))
    (hliabilities : parse publication.report = some (Wire.signedReport.encode liabilities))
    (hcustodyKey : custodyRow.publisherKey = custody.signature.publicKey)
    (hliabilitiesKey : publication.publisherKey = liabilities.signature.publicKey)
    (hc : Sound sha256 ed custody) (hl : Sound sha256 ed liabilities) (maxSkew : U64) :
    ∃ fully, judge toLowerCase sha256 ed parse custodyRow publication maxSkew =
        .ok (statementOf sha256 custody liabilities custodyRow.custodyBasis, fully) ∧
      (fully = true ↔ (custody.report.profile = "coverage.custody" ∧
          liabilities.report.profile = "solvency.liabilities") ∧
        Within maxSkew custody.report liabilities.report ∧ Covers custody.report liabilities.report ∧
        ¬ FirstCentury custody.report.snapshotTime ∧ ¬ FirstCentury liabilities.report.snapshotTime) := by
  have hreadsCustody := readsSigned_of_decode (Wire.signedReport.decode_encode custody)
    (Rendering.isSignedReport custody)
  have hreadsLiabilities := readsSigned_of_decode (Wire.signedReport.decode_encode liabilities)
    (Rendering.isSignedReport liabilities)
  let statement := statementOf sha256 custody liabilities custodyRow.custodyBasis
  have hreadsStatement := readsStatement_of_decode (Wire.coverageStatement.decode_encode statement)
    (Rendering.isCoverageStatement statement).object
  have hverdict : Browser.verifyCoverage toLowerCase sha256 ed (Js.ofJson (Wire.signedReport.encode custody))
      (Js.ofJson (Wire.signedReport.encode liabilities)) (Js.ofJson (Wire.coverageStatement.encode statement))
      (ofString custody.signature.publicKey) (ofString liabilities.signature.publicKey)
      (Binary64.ofNat maxSkew.val) = .ok () ↔ _ :=
    browser_iff hreadsCustody hreadsLiabilities hreadsStatement _ _ maxSkew
  rw [hc.sameSpelling.2, hl.sameSpelling.2,
    supported_congr hc.countsKept hl.countsKept, ← isOk_iff] at hverdict
  refine ⟨_, ?_, hverdict.trans ?_⟩
  · simp only [judge, hcustody, hliabilities, hcustodyKey, hliabilitiesKey, Option.map_some, okOr, ok_bind,
      read_digest hc.countsKept, read_digest hl.countsKept, Except.mapError, reportDigestHex, digestText_hex]
    rfl
  · constructor
    · rintro ⟨hsupported, -, hyears⟩
      exact ⟨hsupported.profiles, hsupported.moment, hsupported.covers, hyears⟩
    · rintro ⟨hprofiles, hmoment, hcovers, hyears⟩
      exact ⟨⟨rfl, hprofiles, ⟨rfl, rfl⟩, ⟨hc.selfSigned, hl.selfSigned⟩, hmoment, hcovers⟩,
        ⟨hc.sameSpelling.alikeInLower toLowerCase, hl.sameSpelling.alikeInLower toLowerCase⟩, hyears⟩

/-! ## What is entered -/

theorem attested_spec {input : CustodyInput} {positions : List CustodyPosition} {row : CustodyRow}
    (hsig : ed.AcceptsOwn) (h : AttestedFrom fromStr sha256 ed print input positions row)
    (hlen : positions.length < 2 ^ 53) :
    ∃ signed, Sound sha256 ed signed ∧ row.report = pretty print (Wire.signedReport.encode signed) ∧
      row.publisherKey = signed.signature.publicKey ∧ signed.report.profile = "coverage.custody" ∧
      signed.report.snapshotTime = input.snapshotTime ∧
      ∀ a, amount signed.report.rootSums (Merkle.qualified "held" a) = entryTotal a (entered positions) := by
  obtain ⟨party, masterSalt, signer, signed, _, hbuilt, hreport, hkey⟩ := h
  obtain ⟨pub, nodes, tree, rfl, hpublished⟩ := buildCustodyReport_published hbuilt
  obtain ⟨total, hcommits⟩ := buildCustodyReport_commits (hlen.trans (by decide)) hbuilt
  have hsigned := hpublished.report
  have haccounts : pub.signedReport.report.disclosures.excludedHouseAccounts = 0 := by
    rw [hsigned]
    rfl
  refine ⟨pub.signedReport, ⟨?_, countsKept_of_lt ?_ ?_⟩, hreport, ?_, profile_eq hpublished, ?_, fun a => ?_⟩
  · rw [hsigned]
    exact Gates.signReport_selfSigned hsig _ signer
  · rwa [hcommits.leafCount]
  · rw [haccounts]
    decide
  · rw [hkey, hsigned]
    rfl
  · rw [hsigned]
    rfl
  · rw [hcommits.rootSums, amount_heldSums, hcommits.exact]

theorem leafInputs_length {req : PublishRequest} (h : (req.leaves.map fun l => trim l.userId).Nodup)
    (masterSalt : Bytes 32) : (leafInputs sha256 req masterSalt).length = req.leaves.length := by
  rw [leafInputs, List.length_map, (users_perm h).length_eq, List.length_map]

theorem published_spec {input : PublishInput} {row : PublicationRow} (hsig : ed.AcceptsOwn)
    (h : PublishedFrom sha256 ed print input row) (hlen : input.leaves.length < 2 ^ 53)
    (haccounts : input.disclosures.excludedHouseAccounts.val < 2 ^ 53) :
    ∃ signed, Sound sha256 ed signed ∧ row.report = pretty print (Wire.signedReport.encode signed) ∧
      row.publisherKey = signed.signature.publicKey ∧ signed.report.profile = "solvency.liabilities" ∧
      signed.report.snapshotTime = input.snapshotTime ∧
      (NamesApart input → ∀ a, amount signed.report.rootSums a = liabilities input a) := by
  obtain ⟨party, previous, masterSalt, signer, d, clamped, hdeliver, hreport, hkey⟩ := h
  obtain ⟨pub, hpub, hsigned, _⟩ := deliver_spec hdeliver
  obtain ⟨metadata, haccepted, hpublish⟩ := publication_spec hpub
  obtain ⟨nodes, tree, hpublished⟩ := publishWith_published hpublish
  have hcount := leafCount_eq hpublished
  rw [leafInputs_length haccepted.distinct] at hcount
  have hdisclosed : pub.signedReport.report.disclosures.excludedHouseAccounts =
      input.disclosures.excludedHouseAccounts := by
    rw [hpublished.report]
    exact haccepted.houseAccounts
  have htime := (Extension.deliver_states hdeliver).2.2.1
  rw [hsigned] at hreport htime
  refine ⟨pub.signedReport, ⟨?_, countsKept_of_lt ?_ ?_⟩, hreport, ?_, ?_, htime, fun hnames a => ?_⟩
  · rw [hpublished.report]
    exact Gates.signReport_selfSigned hsig _ signer
  · rw [hcount (hlen.trans (by decide))]
    exact hlen
  · rwa [hdisclosed]
  · rw [hkey, ← SigningKeys.deliver_key hdeliver, hsigned]
  · exact (profile_eq hpublished).trans haccepted.profile
  · have hdistinct : NamesDistinct (requestOf party input previous) := hnames
    rw [publication_rootSums hpub a]
    exact positions_total_iff.mpr hdistinct.noAmountReplaced a

variable (toLowerCase) in
/-- Two stored reports are judged by what was entered for them, where no entry of a leaf replaces
    another. -/
theorem judge_exact {attestation : CustodyInput} {positions : List CustodyPosition} {custodyRow : CustodyRow}
    {input : PublishInput} {publication : PublicationRow} (hsig : ed.AcceptsOwn)
    (hread : ∀ j, parse (print j ++ "\n") = some j)
    (hattested : AttestedFrom fromStr sha256 ed print attestation positions custodyRow)
    (hpublished : PublishedFrom sha256 ed print input publication) (hpositions : positions.length < 2 ^ 53)
    (hleaves : input.leaves.length < 2 ^ 53)
    (haccounts : input.disclosures.excludedHouseAccounts.val < 2 ^ 53) (maxSkew : U64) :
    ∃ statement fully, judge toLowerCase sha256 ed parse custodyRow publication maxSkew = .ok (statement, fully) ∧
      (NamesApart input → (fully = true ↔ Covered positions attestation.snapshotTime input maxSkew)) := by
  obtain ⟨custody, hc, hcustody, hcustodyKey, hprofile, htime, hheld⟩ := attested_spec hsig hattested hpositions
  obtain ⟨owed, hl, howed, howedKey, hprofile', htime', hsums⟩ := published_spec hsig hpublished hleaves haccounts
  have hcustodyText : parse custodyRow.report = some (Wire.signedReport.encode custody) := by
    rw [hcustody]
    exact hread _
  have howedText : parse publication.report = some (Wire.signedReport.encode owed) := by
    rw [howed]
    exact hread _
  obtain ⟨fully, hjudge, hfully⟩ := judge_of_sound toLowerCase hcustodyText howedText hcustodyKey
    howedKey hc hl maxSkew
  refine ⟨_, fully, hjudge, fun hnames => hfully.trans ?_⟩
  have hcovers : Covers custody.report owed.report ↔
      ∀ a, liabilities input a ≤ entryTotal a (entered positions) := by
    simp only [Covers, hheld, hsums hnames]
    refine ⟨fun h a => ?_, fun h a _ => h a⟩
    by_cases ha : a ∈ owed.report.rootSums.keys
    · exact h a ha
    · rw [← hsums hnames, amount_of_not_mem ha]
      exact Nat.zero_le _
  rw [Within, hcovers, htime, htime']
  constructor
  · rintro ⟨-, hmoment, hcovered, hyears⟩
    exact ⟨hcovered, hmoment, hyears⟩
  · rintro ⟨hcovered, hmoment, hyears⟩
    exact ⟨⟨hprofile, hprofile'⟩, hmoment, hcovered, hyears⟩

/-- A stored text read as a document. -/
def readText {α : Type} (parse : String → Option Json) (c : Json.Codec α) (text : String) : Option α :=
  (parse text).bind c.decode

/-- What Rust says of two reports and the statement that names them. -/
theorem fullVerdict_of_sound {custody liabilities : SignedReport} (hc : Sound sha256 ed custody)
    (hl : Sound sha256 ed liabilities) (custodyBasis : String) (maxSkew : U64) :
    (∃ outcome, verifyCoverage sha256 ed custody liabilities (statementOf sha256 custody liabilities custodyBasis)
        custody.signature.publicKey liabilities.signature.publicKey maxSkew = .ok outcome ∧
          outcome.fullyCovered = true) ↔
      (custody.report.profile = "coverage.custody" ∧ liabilities.report.profile = "solvency.liabilities") ∧
        Within maxSkew custody.report liabilities.report ∧ Covers custody.report liabilities.report := by
  rw [verifyCoverage_iff, and_iff_left ⟨hc.sameSpelling, hl.sameSpelling⟩]
  constructor
  · intro h
    exact ⟨h.profiles, h.moment, h.covers⟩
  · rintro ⟨hprofiles, hmoment, hcovers⟩
    exact ⟨rfl, hprofiles, ⟨rfl, rfl⟩, ⟨hc.selfSigned, hl.selfSigned⟩, hmoment, hcovers⟩

variable (toLowerCase) in
/-- Two stored reports are judged as Rust judges their texts, but for the first century. -/
theorem judge_verifies {attestation : CustodyInput} {positions : List CustodyPosition} {custodyRow : CustodyRow}
    {input : PublishInput} {publication : PublicationRow} (hsig : ed.AcceptsOwn)
    (hread : ∀ j, parse (print j ++ "\n") = some j)
    (hattested : AttestedFrom fromStr sha256 ed print attestation positions custodyRow)
    (hpublished : PublishedFrom sha256 ed print input publication) (hpositions : positions.length < 2 ^ 53)
    (hleaves : input.leaves.length < 2 ^ 53)
    (haccounts : input.disclosures.excludedHouseAccounts.val < 2 ^ 53) (maxSkew : U64) :
    ∃ custody owed statement fully,
      readText parse Wire.signedReport custodyRow.report = some custody ∧
      readText parse Wire.signedReport publication.report = some owed ∧
      judge toLowerCase sha256 ed parse custodyRow publication maxSkew = .ok (statement, fully) ∧
      (fully = true ↔ (∃ outcome, verifyCoverage sha256 ed custody owed statement custodyRow.publisherKey
          publication.publisherKey maxSkew = .ok outcome ∧ outcome.fullyCovered = true) ∧
        ¬ FirstCentury custody.report.snapshotTime ∧ ¬ FirstCentury owed.report.snapshotTime) := by
  obtain ⟨custody, hc, hcustody, hcustodyKey, _⟩ := attested_spec hsig hattested hpositions
  obtain ⟨owed, hl, howed, howedKey, _⟩ := published_spec hsig hpublished hleaves haccounts
  have hcustodyText : parse custodyRow.report = some (Wire.signedReport.encode custody) := by
    rw [hcustody]
    exact hread _
  have howedText : parse publication.report = some (Wire.signedReport.encode owed) := by
    rw [howed]
    exact hread _
  obtain ⟨fully, hjudge, hfully⟩ := judge_of_sound toLowerCase hcustodyText howedText hcustodyKey howedKey hc hl
    maxSkew
  refine ⟨custody, owed, _, fully, ?_, ?_, hjudge, hfully.trans ?_⟩
  · rw [readText, hcustodyText, Option.bind_some, Wire.signedReport.decode_encode]
  · rw [readText, howedText, Option.bind_some, Wire.signedReport.decode_encode]
  · rw [hcustodyKey, howedKey, fullVerdict_of_sound hc hl]
    simp only [and_assoc]

/-! ## Runs -/

section Runs
variable (fromStr toLowerCase sha256 ed print parse)

/-- Every row is from a request, and every statement is a verdict on two rows. -/
structure Kept (served : Request → Prop) (s : Books) : Prop where
  publications : ∀ row ∈ s.publications, ∃ input signer masterSalt id,
    served (.publish input signer masterSalt id) ∧ PublishedFrom sha256 ed print input row
  custody : ∀ row ∈ s.custody, ∃ input signer masterSalt id positions,
    served (.attest input signer masterSalt id) ∧ AttestedFrom fromStr sha256 ed print input positions row
  statements : ∀ row ∈ s.statements, ∃ custody ∈ s.custody, ∃ publication ∈ s.publications,
    custody.id = row.custodyId ∧ publication.publication.id = row.publicationId ∧
      ∃ statement, row.statement = pretty print (Wire.coverageStatement.encode statement) ∧
        judge toLowerCase sha256 ed parse custody publication row.maxSkew = .ok (statement, row.fullyCovered)

/-- Others keep the invariant and every row. -/
structure Later (served : Request → Prop) (s t : Books) : Prop where
  kept : Kept fromStr toLowerCase sha256 ed print parse served s →
    Kept fromStr toLowerCase sha256 ed print parse served t
  publications : s.publications ⊆ t.publications
  custody : s.custody ⊆ t.custody

/-- On its own, the program keeps the invariant and every row, whatever the others do that do so too. -/
def Keeps (served : Request → Prop) (task : Task Books Refusal Unit) : Prop :=
  ∀ (M : Books → Books → Prop) s, Kept fromStr toLowerCase sha256 ed print parse served s →
    task.Ensures M (Later fromStr toLowerCase sha256 ed print parse served)
      (Later fromStr toLowerCase sha256 ed print parse served)
      (fun _ t => Kept fromStr toLowerCase sha256 ed print parse served t) s

end Runs

section
variable {served : Request → Prop} {s : Books}

instance : IsPreorder Books (Later fromStr toLowerCase sha256 ed print parse served) where
  refl _ := ⟨id, List.Subset.refl _, List.Subset.refl _⟩
  trans _ _ _ hst htu := ⟨htu.kept ∘ hst.kept, List.Subset.trans hst.publications htu.publications,
    List.Subset.trans hst.custody htu.custody⟩

theorem published_kept {input : PublishInput} {signer : ReportSigner} {masterSalt : Bytes 32} {id : String}
    {row : PublicationRow} (hq : served (.publish input signer masterSalt id))
    (hrow : PublishedFrom sha256 ed print input row) :
    Later fromStr toLowerCase sha256 ed print parse served s (s.published row) := by
  refine ⟨fun h => ⟨fun r hr => ?_, h.custody, fun r hr => ?_⟩, List.subset_append_left _ _, List.Subset.refl _⟩
  · rcases List.mem_append.mp hr with hr | hr
    · exact h.publications r hr
    · rw [List.mem_singleton.mp hr]
      exact ⟨input, signer, masterSalt, id, hq, hrow⟩
  · obtain ⟨custody, hcustody, publication, hpublication, hjudged⟩ := h.statements r hr
    exact ⟨custody, hcustody, publication, List.mem_append_left _ hpublication, hjudged⟩

theorem attested_kept {input : CustodyInput} {signer : ReportSigner} {masterSalt : Bytes 32} {id : String}
    {positions : List CustodyPosition} {row : CustodyRow} (hq : served (.attest input signer masterSalt id))
    (hrow : AttestedFrom fromStr sha256 ed print input positions row) :
    Later fromStr toLowerCase sha256 ed print parse served s (s.attested row) := by
  refine ⟨fun h => ⟨h.publications, fun r hr => ?_, fun r hr => ?_⟩, List.Subset.refl _, List.subset_append_left _ _⟩
  · rcases List.mem_append.mp hr with hr | hr
    · exact h.custody r hr
    · rw [List.mem_singleton.mp hr]
      exact ⟨input, signer, masterSalt, id, positions, hq, hrow⟩
  · obtain ⟨custody, hcustody, hjudged⟩ := h.statements r hr
    exact ⟨custody, List.mem_append_left _ hcustody, hjudged⟩

/-- The rows that were judged may have been read long before. -/
theorem paired_kept {custody : CustodyRow} {publication : PublicationRow} {maxSkew : U64} {id : String}
    {judged : CoverageStatement × Bool} (hcustody : custody ∈ s.custody)
    (hpublication : publication ∈ s.publications)
    (hjudged : judge toLowerCase sha256 ed parse custody publication maxSkew = .ok judged) :
    Later fromStr toLowerCase sha256 ed print parse served s
      (s.paired (statementRow print custody.id publication.publication.id maxSkew id judged)) := by
  refine ⟨fun h => ⟨h.publications, h.custody, fun r hr => ?_⟩, List.Subset.refl _, List.Subset.refl _⟩
  rcases List.mem_append.mp hr with hr | hr
  · exact h.statements r hr
  · rw [List.mem_singleton.mp hr]
    exact ⟨custody, hcustody, publication, hpublication, rfl, rfl, judged.1, rfl, hjudged⟩

theorem doCustody_spec {input : CustodyInput} {party : String} {masterSalt : Bytes 32} {signer : ReportSigner}
    {resp : CustodyResponse} {report id : String}
    (h : doCustody fromStr sha256 ed print (custodyRequestOf party input) masterSalt signer = .ok resp)
    (hreport : fileContent resp.files "custody-report.json" = some report) :
    ∃ positions, AttestedFrom fromStr sha256 ed print input positions (custodyRow id input resp report) := by
  simp only [doCustody, bind_eq_ok, ensure_eq_ok, mapError_eq_ok, pure_eq_ok] at h
  obtain ⟨positions, hpositions, _, _, total, _, signed, hsigned, rfl⟩ := h
  exact ⟨positions, party, masterSalt.toList, signer, signed, hpositions, hsigned,
    (Option.some.inj hreport).symm, rfl⟩

theorem keeps_publish {input : PublishInput} {signer : ReportSigner} {masterSalt : Bytes 32} {id : String}
    (hq : served (.publish input signer masterSalt id)) :
    Keeps fromStr toLowerCase sha256 ed print parse served
      (publishForOrg sha256 ed print input signer masterSalt id) := by
  intro M s hs
  have hsame := refl_of (Later fromStr toLowerCase sha256 ed print parse served)
  refine ensures_query_bind fun t ht => ⟨hsame t, ensures_query_bind fun u hu => ⟨hsame u, ?_⟩⟩
  have hKu := hu.kept (ht.kept hs)
  refine ensures_require_bind (fun _ => ?_) fun _ => hKu
  split
  · exact hKu
  · rename_i d hdeliver
    refine ensures_require_bind (fun _ => ?_) fun _ => hKu
    refine ensures_given_bind (fun report hreport => ?_) fun _ => hKu
    refine ensures_transact (fun v r hv hr _ => ?_) fun v _ hv _ => ⟨hsame v, hv.kept hKu⟩
    split at hr
    · cases hr
      have hlater : ∀ row, Later fromStr toLowerCase sha256 ed print parse served v
          (v.published ⟨row, signer.publicKeyHex ed, report⟩) := fun row =>
        published_kept hq ⟨_, _, _, _, _, _, hdeliver, (Option.some.inj hreport).symm, rfl⟩
      exact ⟨hlater _, (hlater _).kept (hv.kept hKu)⟩
    · cases hr

theorem keeps_attest {input : CustodyInput} {signer : ReportSigner} {masterSalt : Bytes 32} {id : String}
    (hq : served (.attest input signer masterSalt id)) :
    Keeps fromStr toLowerCase sha256 ed print parse served
      (attestCustodyForOrg fromStr sha256 ed print input signer masterSalt id) := by
  intro M s hs
  have hsame := refl_of (Later fromStr toLowerCase sha256 ed print parse served)
  refine ensures_query_bind fun t ht => ⟨hsame t, ?_⟩
  have hKt := ht.kept hs
  split
  · exact hKt
  · rename_i resp hresp
    refine ensures_given_bind (fun report hreport => ?_) fun _ => hKt
    refine ensures_transact (fun u r hu hr _ => ?_) fun u _ hu _ => ⟨hsame u, hu.kept hKt⟩
    split at hr
    · cases hr
      obtain ⟨positions, hrow⟩ := doCustody_spec hresp hreport
      have hlater : Later fromStr toLowerCase sha256 ed print parse served u
          (u.attested (custodyRow id input resp report)) := attested_kept hq hrow
      exact ⟨hlater, hlater.kept (hu.kept hKt)⟩
    · cases hr

theorem keeps_pair (custodyId publicationId : String) (maxSkew : U64) (id : String) :
    Keeps fromStr toLowerCase sha256 ed print parse served
      (pairCoverageForOrg toLowerCase sha256 ed print parse custodyId publicationId maxSkew id) := by
  intro M s hs
  have hsame := refl_of (Later fromStr toLowerCase sha256 ed print parse served)
  refine ensures_query_bind fun t ht => ⟨hsame t, ensures_query_bind fun u hu => ⟨hsame u, ?_⟩⟩
  have hKu := hu.kept (ht.kept hs)
  refine ensures_given_bind (fun custody hcustody => ?_) fun _ => hKu
  refine ensures_given_bind (fun publication hpublication => ?_) fun _ => hKu
  split
  · exact hKu
  · rename_i judged hjudged
    refine ensures_transact (fun v r hv hr _ => ?_) fun v _ hv _ => ⟨hsame v, hv.kept hKu⟩
    split at hr
    · cases hr
      have hcustodyId : custody.id = custodyId := by simpa using List.find?_some hcustody
      have hpublicationId : publication.publication.id = publicationId := by
        simpa using List.find?_some hpublication
      have hlater : Later fromStr toLowerCase sha256 ed print parse served v
          (v.paired (statementRow print custody.id publication.publication.id maxSkew id judged)) :=
        paired_kept (hv.custody (hu.custody (List.mem_of_find?_eq_some hcustody)))
          (hv.publications (List.mem_of_find?_eq_some hpublication)) hjudged
      rw [hcustodyId, hpublicationId] at hlater
      exact ⟨hlater, hlater.kept (hv.kept hKu)⟩
    · cases hr

theorem keeps_request {q : Request} (hq : served q) : Keeps fromStr toLowerCase sha256 ed print parse served
    (q.task fromStr toLowerCase sha256 ed print parse) := by
  cases q with
  | publish input signer masterSalt id => exact keeps_publish hq
  | attest input signer masterSalt id => exact keeps_attest hq
  | pair custodyId publicationId maxSkew id =>
    cases publicationId with
    | some publicationId => exact keeps_pair custodyId publicationId maxSkew id
    | none =>
      intro M s hs
      have hsame := refl_of (Later fromStr toLowerCase sha256 ed print parse served)
      refine ensures_query_bind fun t ht => ⟨hsame t, ?_⟩
      have hKt := ht.kept hs
      exact ensures_given_bind (fun latest _ => keeps_pair custodyId _ maxSkew id M t hKt) fun _ => hKt
  | updateGeneral publisherParty =>
    intro M s hs
    refine ensures_modify fun t ht _ => ?_
    have hlater : Later fromStr toLowerCase sha256 ed print parse served t { t with publisherParty } :=
      ⟨fun h => ⟨h.publications, h.custody, h.statements⟩, List.Subset.refl _, List.Subset.refl _⟩
    exact ⟨hlater, hlater.kept (ht.kept hs)⟩

theorem reaches_kept {requests : ℕ → List Request} {Meets : ℕ → Books → Books → Prop}
    {c : Config Books Refusal Unit} (hserved : ∀ i, ∀ q ∈ requests i, served q)
    (hs : Kept fromStr toLowerCase sha256 ed print parse served s)
    (h : Reaches Meets ⟨s, fun i => serve (Request.task fromStr toLowerCase sha256 ed print parse) (requests i)⟩ c) :
    Kept fromStr toLowerCase sha256 ed print parse served c.store := by
  have hcompatible : Compatible (fun _ => Later fromStr toLowerCase sha256 ed print parse served)
      fun _ => Later fromStr toLowerCase sha256 ed print parse served :=
    ⟨fun _ => inferInstance, fun _ _ _ hG => hG⟩
  refine h.keeps hcompatible (Q := fun _ _ t => Kept fromStr toLowerCase sha256 ed print parse served t)
    (fun _ _ _ _ hst => hst.kept) (fun i => ?_) (fun _ _ _ hG => hG.kept) hs
  exact ensures_serve (fun q hq s hs => keeps_request (hserved i q hq) _ s hs) hs

end

/-- What the console checks of a request before it is served, and the lengths that doubles count to. -/
def Request.Counted {ν : Type} (fromStr : String → Option (Value ν)) : Request → Prop
  | publish input _ _ _ => input.leaves.length < 2 ^ 53 ∧ input.disclosures.excludedHouseAccounts.val < 2 ^ 53
  | attest input _ _ _ => ∀ positions, parseHoldings fromStr input.responseJson
      ⟨input.assetField, input.amountField⟩ = .ok positions → positions.length < 2 ^ 53
  | pair _ _ _ _ => True
  | updateGeneral _ => True

theorem AttestedFrom.length {requests : ℕ → List Request} {i : ℕ} {attestation : CustodyInput}
    {positions : List CustodyPosition} {row : CustodyRow} {signer : ReportSigner} {masterSalt : Bytes 32}
    {id : String} (h : AttestedFrom fromStr sha256 ed print attestation positions row)
    (hcounted : ∀ i, ∀ q ∈ requests i, q.Counted fromStr)
    (hattest : .attest attestation signer masterSalt id ∈ requests i) : positions.length < 2 ^ 53 := by
  obtain ⟨_, _, _, _, hparsed, _⟩ := h
  exact hcounted i _ hattest positions hparsed

theorem kept_opened {served : Request → Prop} {publisherParty : String} {signingKeyHex : Option String} :
    Kept fromStr toLowerCase sha256 ed print parse served (Books.opened publisherParty signingKeyHex) where
  publications _ h := absurd h List.not_mem_nil
  custody _ h := absurd h List.not_mem_nil
  statements _ h := absurd h List.not_mem_nil

/-- A statement on record, the two reports it names and the requests they are from: the verdict is that
    the positions of the one hold all that was entered for the other, of which no leaf names an asset
    twice. -/
structure Truthful (fromStr : String → Option (Value ν)) (sha256 : List UInt8 → Digest) (ed : Ed25519)
    (print : Json → String) (served : Request → Prop) (s : Books) (row : StatementRow) (custody : CustodyRow)
    (publication : PublicationRow) (attestation : CustodyInput) (positions : List CustodyPosition)
    (input : PublishInput) : Prop where
  custodyNamed : custody ∈ s.custody ∧ custody.id = row.custodyId
  publicationNamed : publication ∈ s.publications ∧ publication.publication.id = row.publicationId
  attested : (∃ signer masterSalt id, served (.attest attestation signer masterSalt id)) ∧
    AttestedFrom fromStr sha256 ed print attestation positions custody
  published : (∃ signer masterSalt id, served (.publish input signer masterSalt id)) ∧
    PublishedFrom sha256 ed print input publication
  verdict : NamesApart input →
    (row.fullyCovered = true ↔ Covered positions attestation.snapshotTime input row.maxSkew)

/-- In whatever order custody is attested, liabilities are published and pairs are judged, every verdict
    on record is true of what was entered. -/
theorem statements_truthful {requests : ℕ → List Request} {Meets : ℕ → Books → Books → Prop}
    {c : Config Books Refusal Unit} {publisherParty : String} {signingKeyHex : Option String}
    (hsig : ed.AcceptsOwn) (hread : ∀ j, parse (print j ++ "\n") = some j)
    (hcounted : ∀ i, ∀ q ∈ requests i, q.Counted fromStr)
    (h : Reaches Meets ⟨Books.opened publisherParty signingKeyHex, fun i =>
      serve (Request.task fromStr toLowerCase sha256 ed print parse) (requests i)⟩ c) :
    ∀ row ∈ c.store.statements, ∃ custody publication attestation positions input,
      Truthful fromStr sha256 ed print (fun q => ∃ i, q ∈ requests i) c.store row custody publication
        attestation positions input := by
  have hkept : Kept fromStr toLowerCase sha256 ed print parse (fun q => ∃ i, q ∈ requests i) c.store :=
    reaches_kept (fun i _ hq => ⟨i, hq⟩) kept_opened h
  intro row hrow
  obtain ⟨custody, hcustody, publication, hpublication, hcustodyId, hpublicationId, statement, _, hjudged⟩ :=
    hkept.statements row hrow
  obtain ⟨attestation, signer, masterSalt, id, positions, ⟨i, hattest⟩, hattested⟩ := hkept.custody custody hcustody
  obtain ⟨input, signer', masterSalt', id', ⟨j, hpublish⟩, hpublished⟩ :=
    hkept.publications publication hpublication
  obtain ⟨hleaves, haccounts⟩ := hcounted j _ hpublish
  obtain ⟨statement', fully, hjudge, hfully⟩ := judge_exact toLowerCase hsig hread hattested hpublished
    (hattested.length hcounted hattest) hleaves haccounts row.maxSkew
  obtain ⟨_, rfl⟩ := Prod.mk.inj (Except.ok.inj (hjudged.symm.trans hjudge))
  exact ⟨custody, publication, attestation, positions, input, {
    custodyNamed := ⟨hcustody, hcustodyId⟩
    publicationNamed := ⟨hpublication, hpublicationId⟩
    attested := ⟨⟨signer, masterSalt, id, i, hattest⟩, hattested⟩
    published := ⟨⟨signer', masterSalt', id', j, hpublish⟩, hpublished⟩
    verdict := hfully }⟩

/-- Read back as documents, what is on record verifies in Rust exactly as the verdict on record says, but
    for years below a hundred. -/
theorem statements_verify {requests : ℕ → List Request} {Meets : ℕ → Books → Books → Prop}
    {c : Config Books Refusal Unit} {publisherParty : String} {signingKeyHex : Option String}
    (hsig : ed.AcceptsOwn) (hread : ∀ j, parse (print j ++ "\n") = some j)
    (hcounted : ∀ i, ∀ q ∈ requests i, q.Counted fromStr)
    (h : Reaches Meets ⟨Books.opened publisherParty signingKeyHex, fun i =>
      serve (Request.task fromStr toLowerCase sha256 ed print parse) (requests i)⟩ c) :
    ∀ row ∈ c.store.statements, ∃ custodyRow ∈ c.store.custody, ∃ publication ∈ c.store.publications,
      custodyRow.id = row.custodyId ∧ publication.publication.id = row.publicationId ∧
      ∃ custody owed statement, readText parse Wire.signedReport custodyRow.report = some custody ∧
        readText parse Wire.signedReport publication.report = some owed ∧
        readText parse Wire.coverageStatement row.statement = some statement ∧
        (row.fullyCovered = true ↔ (∃ outcome, verifyCoverage sha256 ed custody owed statement
            custodyRow.publisherKey publication.publisherKey row.maxSkew = .ok outcome ∧
              outcome.fullyCovered = true) ∧
          ¬ FirstCentury custody.report.snapshotTime ∧ ¬ FirstCentury owed.report.snapshotTime) := by
  have hkept : Kept fromStr toLowerCase sha256 ed print parse (fun q => ∃ i, q ∈ requests i) c.store :=
    reaches_kept (fun i _ hq => ⟨i, hq⟩) kept_opened h
  intro row hrow
  obtain ⟨custodyRow, hcustodyRow, publication, hpublication, hcustodyId, hpublicationId, statement, hstatement,
    hjudged⟩ := hkept.statements row hrow
  obtain ⟨attestation, _, _, _, positions, ⟨i, hattest⟩, hattested⟩ := hkept.custody custodyRow hcustodyRow
  obtain ⟨input, _, _, _, ⟨j, hpublish⟩, hpublished⟩ := hkept.publications publication hpublication
  obtain ⟨hleaves, haccounts⟩ := hcounted j _ hpublish
  obtain ⟨custody, owed, statement', fully, hcustody, howed, hjudge, hfully⟩ := judge_verifies toLowerCase hsig hread
    hattested hpublished (hattested.length hcounted hattest) hleaves haccounts row.maxSkew
  obtain ⟨rfl, rfl⟩ := Prod.mk.inj (Except.ok.inj (hjudged.symm.trans hjudge))
  refine ⟨custodyRow, hcustodyRow, publication, hpublication, hcustodyId, hpublicationId, custody, owed, statement,
    hcustody, howed, ?_, hfully⟩
  rw [readText, hstatement, pretty, hread, Option.bind_some, Wire.coverageStatement.decode_encode]

/-! ## A day on the console -/

def dayTime : String := "2026-08-09T00:00:00Z"

def dayAttestation : CustodyInput := ⟨dayTime, "42", responseText, "instrument", "quantity", "participant"⟩

def dayRequests (i : ℕ) : List Request :=
  if i = 0 then
    [.publish (sampleInput dayTime) goldenSigner sampleSalt "p", .attest dayAttestation goldenSigner sampleSalt "c",
      .pair "c" none 300 "s"]
  else []

def dayTask : Request → Task Books Refusal Unit :=
  Request.task parseResponse asciiLowerCase Sha256.sha256 (goldenEd25519 []) Json.toStringPretty Json.ofText

def day : Config Books Refusal Unit := ⟨Books.opened "venue::one" none, fun i => serve dayTask (dayRequests i)⟩

theorem dayPositions : parseHoldings parseResponse responseText responseFields = .ok responsePositions := by
  decide +kernel

theorem day_counted (i : ℕ) : ∀ q ∈ dayRequests i, q.Counted parseResponse := by
  intro q hq
  by_cases hi : i = 0
  · rw [dayRequests, if_pos hi] at hq
    simp only [List.mem_cons, List.not_mem_nil, or_false] at hq
    rcases hq with rfl | rfl | rfl
    · exact ⟨by decide, by decide⟩
    · intro positions hpositions
      rw [← Except.ok.inj (dayPositions.symm.trans hpositions)]
      decide
    · trivial
  · rw [dayRequests, if_neg hi] at hq
    exact absurd hq List.not_mem_nil

theorem golden_acceptsOwn : (goldenEd25519 []).AcceptsOwn := recorded_acceptsOwn _ _ _

theorem day_names : NamesApart (sampleInput dayTime) := by
  unfold NamesApart
  decide +kernel

theorem day_covered : Covered responsePositions dayTime (sampleInput dayTime) 300 where
  held a := by
    have hentries : enteredEntries (ofList [("USDA", "7")]) = [("USDA", ⟨7 * 10 ^ 18, by decide⟩)] := by
      decide +kernel
    have howed : liabilities (sampleInput dayTime) a =
        entryTotal a [("USDA", ⟨7 * 10 ^ 18, by decide⟩)] + 0 := by
      rw [← hentries]
      rfl
    rw [howed]
    by_cases ha : "USDA" = a
    · subst ha
      decide +kernel
    · simp [entryTotal, ha]
  moment := ⟨0, by decide +kernel, Nat.zero_le _⟩
  years := by
    unfold FirstCentury
    decide +kernel

section Alone
variable {s : Books} {signer : ReportSigner} {masterSalt : Bytes 32} {id : String}

theorem run_publish {input : PublishInput} {d : Delivery} {clamped : ℕ}
    (hmay : mayFollow input (s.publications.getLast?.map PublicationRow.publication) = true)
    (hdeliver : deliver sha256 ed print (requestOf s.publisherParty input
      (s.publications.getLast?.map PublicationRow.publication)) masterSalt signer = .ok (d, clamped))
    (hkey : sameSigningKey s.signingKeyHex (signer.publicKeyHex ed) = true)
    (hadmits : admits (s.publications.map PublicationRow.publication) (storedRow sha256 id input
      (s.publications.getLast?.map PublicationRow.publication) d) = true) :
    (publishForOrg sha256 ed print input signer masterSalt id).run s = (.ok (), s.published
      ⟨storedRow sha256 id input (s.publications.getLast?.map PublicationRow.publication) d, signer.publicKeyHex ed,
        pretty print (Wire.signedReport.encode d.signed)⟩) := by
  rw [publishForOrg, run_query_bind, run_query_bind, run_require_bind hmay]
  simp only [hdeliver]
  rw [run_require_bind hkey]
  exact run_transact (r := ((), s.published _)) (if_pos hadmits)

theorem run_attest {input : CustodyInput} {party report : String} {resp : CustodyResponse}
    (hparty : s.publisherParty = party)
    (hresp : doCustody fromStr sha256 ed print (custodyRequestOf party input) masterSalt signer = .ok resp)
    (hreport : fileContent resp.files "custody-report.json" = some report)
    (hunique : ∀ r ∈ s.custody, r.id ≠ id ∧ r.reportDigest ≠ resp.reportDigest) :
    (attestCustodyForOrg fromStr sha256 ed print input signer masterSalt id).run s =
      (.ok (), s.attested (custodyRow id input resp report)) := by
  rw [attestCustodyForOrg, run_query_bind, hparty]
  simp only [hresp]
  rw [hreport, run_given_some_bind]
  exact run_transact (r := ((), s.attested _)) (if_pos hunique)

theorem run_pair {custodyId : String} {custody : CustodyRow} {latest publication : PublicationRow} {maxSkew : U64}
    {judged : CoverageStatement × Bool} (hlatest : s.publications.getLast? = some latest)
    (hcustody : (s.custody.find? fun row => row.id = custodyId) = some custody)
    (hpublication : (s.publications.find? fun row => row.publication.id = latest.publication.id) = some publication)
    (hjudged : judge toLowerCase sha256 ed parse custody publication maxSkew = .ok judged)
    (hunique : s.statements = []) :
    ((Request.pair custodyId none maxSkew id).task fromStr toLowerCase sha256 ed print parse).run s =
      (.ok (), s.paired (statementRow print custodyId latest.publication.id maxSkew id judged)) := by
  rw [Request.task, run_query_bind, hlatest, run_given_some_bind, pairCoverageForOrg, run_query_bind, run_query_bind,
    hcustody, hpublication, run_given_some_bind, run_given_some_bind]
  simp only [hjudged]
  exact run_transact (r := ((), s.paired _)) (if_pos (by simp [hunique]))

end Alone

/-- What is published and attested is covered, and the pair of them is on record. -/
theorem day_runs : ∃ row, ((day.tasks 0).run day.store).2.statements = [row] ∧ row.maxSkew = 300 ∧
    row.fullyCovered = true := by
  obtain ⟨⟨d, clamped⟩, hdeliver⟩ : ∃ r, deliver Sha256.sha256 (goldenEd25519 []) Json.toStringPretty
      (requestOf "venue::one" (sampleInput dayTime) none) sampleSalt goldenSigner = .ok r :=
    exists_of_isOk (by decide +kernel)
  obtain ⟨resp, hresp⟩ : ∃ resp, doCustody parseResponse Sha256.sha256 (goldenEd25519 []) Json.toStringPretty
      (custodyRequestOf "venue::one" dayAttestation) sampleSalt goldenSigner = .ok resp :=
    exists_of_isOk (by decide +kernel)
  obtain ⟨report, hreport⟩ : ∃ report, fileContent resp.files "custody-report.json" = some report := by
    simp only [doCustody, bind_eq_ok, ensure_eq_ok, mapError_eq_ok, pure_eq_ok] at hresp
    obtain ⟨_, _, _, _, _, _, signed, _, rfl⟩ := hresp
    exact ⟨_, rfl⟩
  let publication : PublicationRow := ⟨storedRow Sha256.sha256 "p" (sampleInput dayTime) none d,
    goldenSigner.publicKeyHex (goldenEd25519 []), pretty Json.toStringPretty (Wire.signedReport.encode d.signed)⟩
  let custody := custodyRow "c" dayAttestation resp report
  have hpublish : (dayTask (.publish (sampleInput dayTime) goldenSigner sampleSalt "p")).run day.store =
      (.ok (), day.store.published publication) := run_publish rfl hdeliver rfl rfl
  have htask : dayTask (.attest dayAttestation goldenSigner sampleSalt "c") = attestCustodyForOrg parseResponse
      Sha256.sha256 (goldenEd25519 []) Json.toStringPretty dayAttestation goldenSigner sampleSalt "c" := rfl
  have hattest : (dayTask (.attest dayAttestation goldenSigner sampleSalt "c")).run
      (day.store.published publication) = (.ok (), (day.store.published publication).attested custody) := by
    have hparty : (day.store.published publication).publisherParty = "venue::one" := rfl
    have hnone : (day.store.published publication).custody = [] := rfl
    rw [htask]
    exact run_attest hparty hresp hreport (by simp [hnone])
  -- the two rows are judged
  obtain ⟨positions, hattested⟩ : ∃ positions, AttestedFrom parseResponse Sha256.sha256 (goldenEd25519 [])
      Json.toStringPretty dayAttestation positions custody := doCustody_spec hresp hreport
  have hpositions : positions = responsePositions := by
    obtain ⟨_, _, _, _, hparsed, _⟩ := hattested
    exact Except.ok.inj (hparsed.symm.trans dayPositions)
  subst hpositions
  have hpublished : PublishedFrom Sha256.sha256 (goldenEd25519 []) Json.toStringPretty (sampleInput dayTime)
      publication := ⟨_, _, _, _, _, _, hdeliver, rfl, rfl⟩
  have hread : ∀ j, Json.ofText (Json.toStringPretty j ++ "\n") = some j := fun j =>
    Json.ofText_toStringPretty j (by decide)
  obtain ⟨statement, fully, hjudge, hfully⟩ := judge_exact asciiLowerCase golden_acceptsOwn hread hattested
    hpublished (by decide) (by decide) (by decide) 300
  have hpair : (dayTask (.pair "c" none 300 "s")).run ((day.store.published publication).attested custody) =
      (.ok (), ((day.store.published publication).attested custody).paired
        (statementRow Json.toStringPretty "c" "p" 300 "s" (statement, fully))) := by
    have hcustody : ((day.store.published publication).attested custody).custody = [custody] := rfl
    have hpublications : ((day.store.published publication).attested custody).publications = [publication] := rfl
    refine run_pair (by rw [hpublications]; rfl) ?_ ?_ hjudge rfl
    · rw [hcustody]
      rfl
    · rw [hpublications]
      rfl
  have htasks : day.tasks 0 = serve dayTask [.publish (sampleInput dayTime) goldenSigner sampleSalt "p",
      .attest dayAttestation goldenSigner sampleSalt "c", .pair "c" none 300 "s"] := rfl
  refine ⟨statementRow Json.toStringPretty "c" "p" 300 "s" (statement, fully), ?_, rfl,
    (hfully day_names).mpr day_covered⟩
  simp only [htasks, run_serve_cons, hpublish, hattest, hpair]
  rfl

theorem day_published {input : PublishInput} {signer : ReportSigner} {masterSalt : Bytes 32} {id : String}
    (h : ∃ i, Request.publish input signer masterSalt id ∈ dayRequests i) : input = sampleInput dayTime := by
  obtain ⟨i, hi⟩ := h
  unfold dayRequests at hi
  split at hi
  · simp only [List.mem_cons, List.not_mem_nil, or_false, reduceCtorEq, Request.publish.injEq] at hi
    exact hi.1
  · exact absurd hi List.not_mem_nil

/-- The run above, and what its verdict says. -/
theorem statements_truthful_day : ∃ steps, ∃ row ∈ (day.schedule steps).store.statements,
    ∃ custody publication attestation positions input,
      Truthful parseResponse Sha256.sha256 (goldenEd25519 []) Json.toStringPretty (fun q => ∃ i, q ∈ dayRequests i)
        (day.schedule steps).store row custody publication attestation positions input ∧
      Covered positions attestation.snapshotTime input row.maxSkew := by
  obtain ⟨steps, hsteps⟩ := exists_schedule_run day 0
  obtain ⟨row, hrow, _, hfully⟩ := day_runs
  have hmem : row ∈ (day.schedule steps).store.statements := by
    rw [hsteps, hrow]
    exact List.mem_singleton_self row
  obtain ⟨custody, publication, attestation, positions, input, htruthful⟩ := statements_truthful golden_acceptsOwn
    (fun j => Json.ofText_toStringPretty j (by decide)) day_counted (reaches_schedule day steps) row hmem
  obtain ⟨signer, masterSalt, id, hserved⟩ := htruthful.published.1
  have hnames : NamesApart input := day_published hserved ▸ day_names
  exact ⟨steps, row, hmem, custody, publication, attestation, positions, input, htruthful,
    (htruthful.verdict hnames).mp hfully⟩

theorem statements_verify_day : ∃ steps, ∃ custodyRow ∈ (day.schedule steps).store.custody,
    ∃ publication ∈ (day.schedule steps).store.publications, ∃ custody owed statement outcome,
      readText Json.ofText Wire.signedReport custodyRow.report = some custody ∧
      readText Json.ofText Wire.signedReport publication.report = some owed ∧
      verifyCoverage Sha256.sha256 (goldenEd25519 []) custody owed statement custodyRow.publisherKey
        publication.publisherKey 300 = .ok outcome ∧ outcome.fullyCovered = true := by
  obtain ⟨steps, hsteps⟩ := exists_schedule_run day 0
  obtain ⟨row, hrow, hskew, hfully⟩ := day_runs
  have hmem : row ∈ (day.schedule steps).store.statements := by
    rw [hsteps, hrow]
    exact List.mem_singleton_self row
  obtain ⟨custodyRow, hcustodyRow, publication, hpublication, _, _, custody, owed, statement, hcustody, howed, _,
    hverdict⟩ := statements_verify golden_acceptsOwn (fun j => Json.ofText_toStringPretty j (by decide)) day_counted
      (reaches_schedule day steps) row hmem
  obtain ⟨⟨outcome, houtcome, hcovered⟩, _⟩ := hverdict.mp hfully
  rw [hskew] at houtcome
  exact ⟨steps, custodyRow, hcustodyRow, publication, hpublication, custody, owed, statement, outcome, hcustody,
    howed, houtcome, hcovered⟩

end AssuranceLayer.CoverageClaim
