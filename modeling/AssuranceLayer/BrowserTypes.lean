import AssuranceLayer.JavaScript

set_option autoImplicit false

/-! The types of the documents as the browser declares them. Nothing checks them there. -/
namespace AssuranceLayer.Browser
open JavaScript

def IsString (v : Js) : Prop := ∃ s, v = .str s
def IsNumber (v : Js) : Prop := ∃ n, v = .num n
def IsBoolean (v : Js) : Prop := ∃ b, v = .bool b

/-- `T[]`. -/
def IsArray (type : Js → Prop) (v : Js) : Prop := ∃ items, v = .arr items ∧ ∀ w ∈ items, type w

/-- `Record<string, T>`. -/
def IsRecord (type : Js → Prop) (v : Js) : Prop := ∃ props, v = .obj props ∧ ∀ p ∈ props, type p.2

def IsAmountMap : Js → Prop := IsRecord IsString

def IsDisclosure (v : Js) : Prop :=
  v = Js.string "published" ∨ v = Js.string "committed" ∨ v = Js.string "withheld"

structure IsManifest (v : Js) : Prop where
  object : IsObject v
  audience : IsString (v.prop "audience")
  fields : IsRecord IsDisclosure (v.prop "fields")

structure IsDisclosures (v : Js) : Prop where
  object : IsObject v
  badDebt : IsAmountMap (v.prop "bad_debt")
  excludedHouseAccounts : IsNumber (v.prop "excluded_house_accounts")
  excludedHouseTotals : IsAmountMap (v.prop "excluded_house_totals")

structure IsReport (v : Js) : Prop where
  object : IsObject v
  formatVersion : IsString (v.prop "format_version")
  profile : IsString (v.prop "profile")
  publisher : IsString (v.prop "publisher")
  snapshotTime : IsString (v.prop "snapshot_time")
  ledgerOffset : IsString (v.prop "ledger_offset")
  rootHash : IsString (v.prop "root_hash")
  leafCount : IsNumber (v.prop "leaf_count")
  rootSums : IsAmountMap (v.prop "root_sums")
  markPrices : IsAmountMap (v.prop "mark_prices")
  disclosures : IsDisclosures (v.prop "disclosures")
  manifest : v.prop "manifest" = .undefined ∨ IsManifest (v.prop "manifest")

structure IsSignatureBlock (v : Js) : Prop where
  object : IsObject v
  algorithm : IsString (v.prop "algorithm")
  publicKey : IsString (v.prop "public_key")
  value : IsString (v.prop "value")

structure IsSignedReport (v : Js) : Prop where
  object : IsObject v
  report : IsReport (v.prop "report")
  signature : IsSignatureBlock (v.prop "signature")

structure IsProofStep (v : Js) : Prop where
  object : IsObject v
  siblingHash : IsString (v.prop "sibling_hash")
  siblingSums : IsAmountMap (v.prop "sibling_sums")
  siblingOnLeft : IsBoolean (v.prop "sibling_on_left")

structure IsLeaf (v : Js) : Prop where
  object : IsObject v
  salt : IsString (v.prop "salt")
  userId : IsString (v.prop "user_id")
  balances : IsAmountMap (v.prop "balances")

structure IsLeafV2 (v : Js) : Prop where
  object : IsObject v
  salt : IsString (v.prop "salt")
  subjectId : IsString (v.prop "subject_id")
  maps : IsRecord IsAmountMap (v.prop "maps")

/-- A proof document about a leaf of the given type. -/
structure IsProofOf (leaf : Js → Prop) (v : Js) : Prop where
  object : IsObject v
  formatVersion : IsString (v.prop "format_version")
  reportDigest : IsString (v.prop "report_digest")
  leaf : leaf (v.prop "leaf")
  steps : IsArray IsProofStep (v.prop "steps")

def IsProofDocument : Js → Prop := IsProofOf IsLeaf
def IsProofDocumentV2 : Js → Prop := IsProofOf IsLeafV2

structure IsCoverageStatement (v : Js) : Prop where
  object : IsObject v
  formatVersion : IsString (v.prop "format_version")
  custodyReportDigest : IsString (v.prop "custody_report_digest")
  liabilitiesReportDigest : IsString (v.prop "liabilities_report_digest")
  custodyBasis : IsString (v.prop "custody_basis")

structure IsAnchor (v : Js) : Prop where
  object : IsObject v
  formatVersion : IsString (v.prop "format_version")
  reportDigest : IsString (v.prop "report_digest")
  rootHash : IsString (v.prop "root_hash")
  snapshotTime : IsString (v.prop "snapshot_time")
  ledgerOffset : IsString (v.prop "ledger_offset")
  publisher : IsString (v.prop "publisher")
  publisherKey : IsString (v.prop "publisher_key")
  prevAnchor : v.prop "prev_anchor" = .undefined ∨ IsString (v.prop "prev_anchor")

end AssuranceLayer.Browser
