import AssuranceLayer.Merkle

set_option autoImplicit false

/-!
The report and proof documents, and the disclosure manifest a report may carry.
-/
namespace AssuranceLayer.Document
open Sums Merkle SortedMap

def reportFormatVersion : String := "canton-solvency-report-v1"
def reportFormatVersionV2 : String := "canton-solvency-report-v2"
def proofFormatVersion : String := "canton-solvency-proof-v1"
def proofFormatVersionV2 : String := "canton-solvency-proof-v2"
def signatureAlgorithm : String := "ed25519"

inductive Disclosure where
  | published
  | committed
  | withheld
deriving DecidableEq

def Disclosure.asStr : Disclosure → String
  | .published => "published"
  | .committed => "committed"
  | .withheld => "withheld"

theorem Disclosure.asStr_inj {d e : Disclosure} (h : d.asStr = e.asStr) : d = e := by
  revert h
  cases d <;> cases e <;> decide

structure Manifest where
  audience : String
  fields : SortedMap String Disclosure
deriving DecidableEq

structure Disclosures where
  badDebt : AmountMap
  excludedHouseAccounts : U64
  excludedHouseTotals : AmountMap
deriving DecidableEq

/-- The published statement. Its digest is what gets signed. -/
structure Report where
  formatVersion : String
  profile : String
  publisher : String
  snapshotTime : String
  ledgerOffset : String
  rootHash : String
  leafCount : U64
  rootSums : AmountMap
  markPrices : AmountMap
  disclosures : Disclosures
  manifest : Option Manifest
deriving DecidableEq

structure SignatureBlock where
  algorithm : String
  publicKey : String
  value : String
deriving DecidableEq

structure SignedReport where
  report : Report
  signature : SignatureBlock
deriving DecidableEq

structure LeafPreimage where
  salt : String
  userId : String
  balances : AmountMap
deriving DecidableEq

structure ProofStepDocument where
  siblingHash : String
  siblingSums : AmountMap
  siblingOnLeft : Bool
deriving DecidableEq

structure LeafPreimageV2 where
  salt : String
  subjectId : String
  maps : Maps
deriving DecidableEq

structure ProofDocumentV2 where
  formatVersion : String
  reportDigest : String
  leaf : LeafPreimageV2
  steps : List ProofStepDocument
deriving DecidableEq

/-- One user's inclusion proof, bound to its report by `reportDigest`. -/
structure ProofDocument where
  formatVersion : String
  reportDigest : String
  leaf : LeafPreimage
  steps : List ProofStepDocument
deriving DecidableEq

/-! ## The manifest's vocabulary -/

def knownFields : List String := [
  "root_sums",
  "mark_prices",
  "disclosures.bad_debt",
  "disclosures.excluded_house_accounts",
  "disclosures.excluded_house_totals",
  "customer_balances",
  "customer_identities"]

def reportResidentFields : List String := [
  "root_sums",
  "mark_prices",
  "disclosures.bad_debt",
  "disclosures.excluded_house_accounts",
  "disclosures.excluded_house_totals"]

def carriesData (report : Report) (path : String) : Bool :=
  if path = "root_sums" then !report.rootSums.isEmpty
  else if path = "mark_prices" then !report.markPrices.isEmpty
  else if path = "disclosures.bad_debt" then !report.disclosures.badDebt.isEmpty
  else if path = "disclosures.excluded_house_accounts" then 0 < report.disclosures.excludedHouseAccounts
  else if path = "disclosures.excluded_house_totals" then !report.disclosures.excludedHouseTotals.isEmpty
  else false

theorem resident_known {path : String} (h : path ∈ reportResidentFields) : path ∈ knownFields := by
  revert h
  unfold reportResidentFields knownFields
  simp only [List.mem_cons]
  tauto

end AssuranceLayer.Document
