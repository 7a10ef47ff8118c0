import AssuranceLayer.Assurance
import AssuranceLayer.BrowserChain
import AssuranceLayer.BrowserProvenance

set_option autoImplicit false

/-! The browser's grading of a report: what the evidence supports, and the check of what is declared. -/
namespace AssuranceLayer.Browser.Levels
open Fallible Utf16 JavaScript
open Assurance (AssuranceLevel)
open Sign (Ed25519)

def assuranceFormatVersion : JsString := ofString "canton-solvency-assurance-v1"
def attestationFormatVersion : JsString := ofString "canton-solvency-attestation-v1"

/-- A level as documents spell it. -/
def spelling : AssuranceLevel → String
  | .notDisclosed => "not-disclosed"
  | .claimedOnly => "claimed-only"
  | .issuerAttested => "issuer-attested"
  | .thirdPartyAttested => "third-party-attested"
  | .ledgerDerived => "ledger-derived"
  | .cryptographicallyVerified => "cryptographically-verified"

/-- For display ordering only. -/
def strength : AssuranceLevel → ℕ
  | .notDisclosed => 0
  | .claimedOnly => 1
  | .issuerAttested => 2
  | .thirdPartyAttested => 3
  | .ledgerDerived => 4
  | .cryptographicallyVerified => 5

structure Evidence where
  proof : Js
  anchor : Js
  attestations : Js
  provenance : Js

/-- The publisher's key, and the role that each attestor's key is trusted for. -/
structure TrustedKeys where
  publisher : JsString
  attestors : List (JsString × Js)

inductive AssuranceFailure where
  | unsupportedVersion (field : String) (found : JsString)
  | digestMismatch
  | unknownSigner
  | badSignature
  | unknownField (field : JsString)
  | overClaimed (field : JsString) (declared : Js) (established : List AssuranceLevel)
  /-- "levels is not a map" -/
  | levelsNotMap
  | malformed (detail : Thrown BrowserError)

/-! ## Evidence -/

def carriesData (report : Js) (path : String) : Throws Bool := do
  let disclosures ← report.get "disclosures"
  let size := fun v : Js => !(entriesOf v).isEmpty
  if path = "root_sums" then return size (← report.get "root_sums")
  else if path = "mark_prices" then return size (← report.get "mark_prices")
  else if path = "disclosures.bad_debt" then return size (optionalGet disclosures "bad_debt")
  else if path = "disclosures.excluded_house_accounts" then
    let accounts ← ((optionalGet disclosures "excluded_house_accounts").orElse (.num (.finite 0))).toNumber
    return isPositive accounts
  else if path = "disclosures.excluded_house_totals" then
    return size (optionalGet disclosures "excluded_house_totals")
  else return false

def withheld (report : Js) (field : String) : Throws Bool := do
  let manifest ← report.get "manifest"
  let declared := (optionalGet (optionalGet manifest "fields") field).is (ofString "withheld")
  if declared then return !(← carriesData report field)
  else return false

/-- Partial agreement is not evidence. -/
def anchors (report anchor : Js) (digest : JsString) : Throws Bool := do
  let version ← anchor.get "format_version"
  let named ← anchor.get "report_digest"
  let same := fun name => return (← anchor.get name).strictEq (← report.get name)
  return version.is anchorFormatVersion && named.is digest && (← same "root_hash") &&
    (← same "snapshot_time") && (← same "ledger_offset") && (← same "publisher")

def attestationPreimage (a : Js) : Throws (List UInt8) := do
  let formatVersion ← lp (← a.get "format_version")
  let reportDigest ← lp (← a.get "report_digest")
  let field ← lp (← a.get "field")
  let role ← lp (← a.get "role")
  let attestor ← lp (← a.get "attestor")
  let basis ← lp (← a.get "basis")
  return utf8 "rocky-solvency-attestation-v1" ++
    (formatVersion ++ (reportDigest ++ (field ++ (role ++ (attestor ++ basis)))))

/-- `attestors[key] === role`. What every object inherits is no role. -/
def trustsFor (attestors : List (JsString × Js)) (key : JsString) (role : Js) : Bool :=
  match attestors.lookup key with
  | some trusted => trusted.strictEq role
  | none => !isInherited key && Js.undefined.strictEq role

def addLevel (levels : List AssuranceLevel) (level : AssuranceLevel) : List AssuranceLevel :=
  if level ∈ levels then levels else levels ++ [level]

def grant (levels : List AssuranceLevel) (supported : Bool) (level : AssuranceLevel) : List AssuranceLevel :=
  if supported then addLevel levels level else levels

variable (sha256 : List UInt8 → Digest) (ed : Ed25519)

def attestationDigestHex (a : Js) : Throws JsString := hashHex sha256 <$> attestationPreimage a

/-- A key that is no string is never imported. -/
def verifyKeyed (publicKey : Js) (messageHex : JsString) (value : Js) : Throws Bool :=
  match publicKey with
  | .str key => verifyEd25519 ed key messageHex value
  | _ => raise .ed25519Unavailable

/-- Trust is by key and by role, decided before the document was opened. -/
def attests (attestors : List (JsString × Js)) (digest : JsString) (field : String) (s : Js) : Throws Bool := do
  let a ← s.get "attestation"
  if !(optionalGet a "format_version").is attestationFormatVersion then return false
  else if !(a.prop "field").is (ofString field) || !(a.prop "report_digest").is digest then return false
  else
    let signature ← s.get "signature"
    let publicKey := optionalGet signature "public_key"
    if !trustsFor attestors (← publicKey.text) (a.prop "role") then return false
    else if !(← signature.get "algorithm").is signatureAlgorithm then return false
    else
      let message ← attestationDigestHex sha256 a
      verifyKeyed ed publicKey message (← signature.get "value")

/-- The level of an attestation that was verified. -/
def attestedLevel (s : Js) : AssuranceLevel :=
  if ((s.prop "attestation").prop "role").is (ofString "issuer") then .issuerAttested else .thirdPartyAttested

def attest (attestors : List (JsString × Js)) (digest : JsString) (field : String)
    (levels : List AssuranceLevel) (s : Js) : Throws (List AssuranceLevel) := do
  return grant levels (← attests sha256 ed attestors digest field s) (attestedLevel s)

/-- Whether the proof verifies. Only what is thrown is not an answer. -/
def proves (signed proof : Js) (key : JsString) : Throws Bool :=
  match verifyReport sha256 ed signed proof key with
  | .ok _ => .ok true
  | .error (.fail _) => .ok false
  | .error (.throw e) => .error e

/-- `attestations ?? []`, one after the other. -/
def attestationsOf (attestations : Js) : Throws (List Js) :=
  if attestations.isNullish then .ok [] else attestations.elements

/-! ## Levels -/

def levelsOf (signed report : Js) (digest : JsString) (evidence : Evidence) (trusted : TrustedKeys)
    (field : String) : Throws (List AssuranceLevel) := do
  if ← withheld report field then return [.notDisclosed]
  else
    -- Only `root_sums` is bound into the tree.
    let recomputed ← (if field = "root_sums" ∧ evidence.proof.truthy = true then
      proves sha256 ed signed evidence.proof trusted.publisher else .ok false)
    let pinned ← (if evidence.anchor.truthy then anchors report evidence.anchor digest else .ok false)
    let onLedger ← (if pinned && evidence.provenance.truthy then
      derivesFromLedger evidence.provenance (ofString field) else .ok false)
    let levels := grant (grant [.claimedOnly] recomputed .cryptographicallyVerified) onLedger .ledgerDerived
    (← attestationsOf evidence.attestations).foldlM (attest sha256 ed trusted.attestors digest field) levels

/-- What the evidence supports for each field. -/
def establish (signed : Js) (evidence : Evidence) (trusted : TrustedKeys) :
    Throws (List (String × List AssuranceLevel)) := do
  let report ← signed.get "report"
  let digest ← reportDigestHex sha256 report
  assessedFields.mapM fun field => do
    let levels ← levelsOf sha256 ed signed report digest evidence trusted field
    return (field, levels)

/-- The whole check stands in a `try`. -/
def grading {α : Type} (x : Throws α) : Except AssuranceFailure α := x.mapError .malformed

def checkStatementVersion (version : Js) : Except AssuranceFailure Unit :=
  if version.is assuranceFormatVersion then return
  else do
    let found ← grading version.text
    .error (.unsupportedVersion "assurance.format_version" found)

/-- A declared level is among those established for its field. -/
def checkDeclared (established : List (String × List AssuranceLevel)) (e : JsString × Js) :
    Except AssuranceFailure Unit :=
  let supported := ((established.find? fun f => ofString f.1 = e.1).map Prod.snd).getD []
  ensure ((supported.any fun level => e.2.is (ofString (spelling level))) = true)
    (.overClaimed e.1 e.2 (supported.insertionSort fun a b => strength a ≤ strength b))

variable (toLowerCase : JsString → JsString)

/-- Declarations against what the evidence supports. -/
def verifyAssurance (signed statement : Js) (evidence : Evidence) (trusted : TrustedKeys) :
    Except AssuranceFailure (List (JsString × Js)) := do
  checkStatementVersion (optionalGet statement "format_version")
  let digest ← grading (do reportDigestHex sha256 (← signed.get "report"))
  let named ← grading (statement.get "report_digest")
  ensure (named.is digest = true) .digestMismatch
  let signature ← grading (signed.get "signature")
  let publicKey ← grading (do lowered toLowerCase (← signature.get "public_key"))
  ensure (publicKey = toLowerCase (trim trusted.publisher)) .unknownSigner
  let valid ← grading (do verifyEd25519 ed (trim trusted.publisher) digest (← signature.get "value"))
  ensure (valid = true) .badSignature
  match ← grading (statement.get "levels") with
  | .obj levels => do
    forM levels fun e => ensure (e.1 ∈ assessedFields.map ofString) (.unknownField e.1)
    let established ← grading (establish sha256 ed signed evidence trusted)
    forM levels (checkDeclared established)
    return levels
  | _ => .error .levelsNotMap

end AssuranceLayer.Browser.Levels
