import AssuranceLayer.Anchoring
import AssuranceLayer.Coverage
import AssuranceLayer.EvidencePack
import AssuranceLayer.Json

set_option autoImplicit false

/-!
The documents as JSON. Amounts travel as decimal strings; whatever is written is read back.
-/
namespace AssuranceLayer.Wire
open Amount Sums Document Anchoring Coverage EvidencePack SortedMap Json Json.Codec Json.Fields

/-- Decimal strings on the wire, fixed point in memory. -/
def amountMap : Codec AmountMap :=
  (map string).refine (fun raw => (raw.traverse fun _ v => parseAmount18dp v).toOption)
    (mapValues formatAmount18dp) fun m => by
      rw [traverse_mapValues fun _ v => parse_format v]
      rfl

def readDisclosure (s : String) : Option Disclosure :=
  if s = "published" then some .published
  else if s = "committed" then some .committed
  else if s = "withheld" then some .withheld
  else none

/-- A name, or an object that gives the name a null. -/
def disclosure : Codec Disclosure where
  encode d := str d.asStr
  decode
    | str s => readDisclosure s
    | obj [(s, null)] => readDisclosure s
    | _ => none
  decode_encode d := by cases d <;> rfl

def manifest : Codec Manifest :=
  record (((field "audience" string).both (field "fields" (map disclosure))).iso
    (fun p => ⟨p.1, p.2⟩) (fun m => (m.audience, m.fields)) fun _ => rfl) (by decide)

def disclosures : Codec Disclosures :=
  record (((field "bad_debt" amountMap).both ((field "excluded_house_accounts" (number _)).both
    (field "excluded_house_totals" amountMap))).iso
    (fun p => ⟨p.1, p.2.1, p.2.2⟩)
    (fun d => (d.badDebt, d.excludedHouseAccounts, d.excludedHouseTotals)) fun _ => rfl) (by decide)

def report : Codec Report :=
  record (((field "format_version" string).both ((field "profile" string).both
    ((field "publisher" string).both ((field "snapshot_time" string).both
    ((field "ledger_offset" string).both ((field "root_hash" string).both
    ((field "leaf_count" (number _)).both ((field "root_sums" amountMap).both
    ((field "mark_prices" amountMap).both ((field "disclosures" disclosures).both
    (optional "manifest" manifest (fun _ h => Json.noConfusion h)))))))))))).iso
    (fun p => ⟨p.1, p.2.1, p.2.2.1, p.2.2.2.1, p.2.2.2.2.1, p.2.2.2.2.2.1, p.2.2.2.2.2.2.1,
      p.2.2.2.2.2.2.2.1, p.2.2.2.2.2.2.2.2.1, p.2.2.2.2.2.2.2.2.2.1, p.2.2.2.2.2.2.2.2.2.2⟩)
    (fun r => (r.formatVersion, r.profile, r.publisher, r.snapshotTime, r.ledgerOffset, r.rootHash,
      r.leafCount, r.rootSums, r.markPrices, r.disclosures, r.manifest)) fun _ => rfl) (by decide)

def signatureBlock : Codec SignatureBlock :=
  record (((field "algorithm" string).both ((field "public_key" string).both
    (field "value" string))).iso
    (fun p => ⟨p.1, p.2.1, p.2.2⟩) (fun b => (b.algorithm, b.publicKey, b.value)) fun _ => rfl)
    (by decide)

def signedReport : Codec SignedReport :=
  record (((field "report" report).both (field "signature" signatureBlock)).iso
    (fun p => ⟨p.1, p.2⟩) (fun s => (s.report, s.signature)) fun _ => rfl) (by decide)

def leafPreimage : Codec LeafPreimage :=
  record (((field "salt" string).both ((field "user_id" string).both
    (field "balances" amountMap))).iso
    (fun p => ⟨p.1, p.2.1, p.2.2⟩) (fun l => (l.salt, l.userId, l.balances)) fun _ => rfl) (by decide)

def proofStep : Codec ProofStepDocument :=
  record (((field "sibling_hash" string).both ((field "sibling_sums" amountMap).both
    (field "sibling_on_left" boolean))).iso
    (fun p => ⟨p.1, p.2.1, p.2.2⟩) (fun s => (s.siblingHash, s.siblingSums, s.siblingOnLeft))
    fun _ => rfl) (by decide)

def proofDocument : Codec ProofDocument :=
  record (((field "format_version" string).both ((field "report_digest" string).both
    ((field "leaf" leafPreimage).both (field "steps" (list proofStep))))).iso
    (fun p => ⟨p.1, p.2.1, p.2.2.1, p.2.2.2⟩)
    (fun d => (d.formatVersion, d.reportDigest, d.leaf, d.steps)) fun _ => rfl) (by decide)

def leafPreimageV2 : Codec LeafPreimageV2 :=
  record (((field "salt" string).both ((field "subject_id" string).both
    (field "maps" (map amountMap)))).iso
    (fun p => ⟨p.1, p.2.1, p.2.2⟩) (fun l => (l.salt, l.subjectId, l.maps)) fun _ => rfl) (by decide)

def proofDocumentV2 : Codec ProofDocumentV2 :=
  record (((field "format_version" string).both ((field "report_digest" string).both
    ((field "leaf" leafPreimageV2).both (field "steps" (list proofStep))))).iso
    (fun p => ⟨p.1, p.2.1, p.2.2.1, p.2.2.2⟩)
    (fun d => (d.formatVersion, d.reportDigest, d.leaf, d.steps)) fun _ => rfl) (by decide)

def anchor : Codec Anchor :=
  record (((field "format_version" string).both ((field "report_digest" string).both
    ((field "root_hash" string).both ((field "snapshot_time" string).both
    ((field "ledger_offset" string).both ((field "publisher" string).both
    ((field "publisher_key" string).both
    (optional "prev_anchor" string (fun _ h => Json.noConfusion h))))))))).iso
    (fun p => ⟨p.1, p.2.1, p.2.2.1, p.2.2.2.1, p.2.2.2.2.1, p.2.2.2.2.2.1, p.2.2.2.2.2.2.1,
      p.2.2.2.2.2.2.2⟩)
    (fun a => (a.formatVersion, a.reportDigest, a.rootHash, a.snapshotTime, a.ledgerOffset,
      a.publisher, a.publisherKey, a.prevAnchor)) fun _ => rfl) (by decide)

def coverageStatement : Codec CoverageStatement :=
  record (((field "format_version" string).both ((field "custody_report_digest" string).both
    ((field "liabilities_report_digest" string).both (field "custody_basis" string)))).iso
    (fun p => ⟨p.1, p.2.1, p.2.2.1, p.2.2.2⟩)
    (fun c => (c.formatVersion, c.custodyReportDigest, c.liabilitiesReportDigest, c.custodyBasis))
    fun _ => rfl) (by decide)

def packEntry : Codec PackEntry :=
  record (((field "name" string).both (field "sha256" string)).iso
    (fun p => ⟨p.1, p.2⟩) (fun e => (e.name, e.sha256)) fun _ => rfl) (by decide)

def pack : Codec Pack :=
  record (((field "format_version" string).both ((field "publisher" string).both
    ((field "snapshot_time" string).both ((field "report_digest" string).both
    (field "entries" (list packEntry)))))).iso
    (fun p => ⟨p.1, p.2.1, p.2.2.1, p.2.2.2.1, p.2.2.2.2⟩)
    (fun p => (p.formatVersion, p.publisher, p.snapshotTime, p.reportDigest, p.entries))
    fun _ => rfl) (by decide)

def signedPack : Codec SignedPack :=
  record (((field "pack" pack).both (field "signature" signatureBlock)).iso
    (fun p => ⟨p.1, p.2⟩) (fun s => (s.pack, s.signature)) fun _ => rfl) (by decide)

end AssuranceLayer.Wire
