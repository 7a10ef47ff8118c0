import AssuranceLayer.BrowserVerify
import AssuranceLayer.DateUtc

set_option autoImplicit false

/-! The browser's check of coverage: timestamps, keys, and custody against liabilities. -/
namespace AssuranceLayer.Browser
open Fallible Utf16 JavaScript Instant
open Binary64 (Number isSpace)
open Sign (Ed25519)

inductive CoverageFailure where
  | unsupportedVersion (field : String) (found : Js)
  /-- "expected a {wanted} report here, got "{found}"" -/
  | profile (wanted : String) (found : JsString)
  | digestMismatch
  | unknownSigner
  | badSignature
  | shortfall (asset : JsString)
  /-- "custody is as of {custody} and liabilities as of {liabilities}, {skew}s apart, beyond the
      {maxSkewSeconds}s the caller allows" -/
  | temporalMismatch (custody liabilities : Js) (skew : ℕ) (maxSkewSeconds : Number)
  /-- "a snapshot_time is not a §18.1 timestamp" -/
  | notTimestamp
  | malformed (detail : Thrown BrowserError)

/-! ## Timestamps -/

/-- `/^(\d{4})-(\d{2})-(\d{2})T(\d{2}):(\d{2}):(\d{2})(\.\d+)?Z$/`. -/
def matchInstant (cs : List Char) : Option Instant.Fields := do
  guard (cs[4]? = some '-' ∧ cs[7]? = some '-' ∧ cs[10]? = some 'T' ∧ cs[13]? = some ':' ∧ cs[16]? = some ':')
  let year ← digits cs 0 4
  let month ← digits cs 5 7
  let day ← digits cs 8 10
  let hour ← digits cs 11 13
  let minute ← digits cs 14 16
  let second ← digits cs 17 19
  guard (isTail (cs.drop 19))
  return ⟨year, month, day, hour, minute, second⟩

/-- `Date.UTC` rolls an impossible day over, so the round trip is what rejects it. -/
def instantOf (f : Instant.Fields) : Option ℤ := do
  guard (1 ≤ f.month ∧ f.month ≤ 12 ∧ 1 ≤ f.day ∧ f.hour ≤ 23 ∧ f.minute ≤ 59 ∧ f.second ≤ 59)
  let epoch := dateUtc f.year (f.month - 1) f.day f.hour f.minute f.second / 1000
  let back := dayOf (epoch * 1000)
  guard (yearFromDay back = f.year ∧ monthFromDay back = f.month - 1 ∧ dateFromDay back = f.day)
  return epoch

def parseInstant : Js → Option ℤ
  | .str s => (matchInstant (asChars s)).bind instantOf
  | _ => none

def instantSkew (a b : Js) : Option ℕ := do
  let x ← parseInstant a
  let y ← parseInstant b
  return (x - y).natAbs

/-! ## Coverage -/

def trim (s : JsString) : JsString :=
  let space := fun u => isSpace (unitChar u)
  ((s.dropWhile space).reverse.dropWhile space).reverse

def reading {α : Type} (x : Throws α) : Except CoverageFailure α := x.mapError .malformed

variable (toLowerCase : JsString → JsString)

/-- Only a string has the method. -/
def lowered : Js → Throws JsString
  | .str s => .ok (toLowerCase s)
  | _ => .error .typeError

variable (sha256 : List UInt8 → Digest) (ed : Ed25519)

def checkCoverageSignature (signed : Js) (trustedKeyHex : JsString) : Except CoverageFailure Unit := do
  let signature ← reading (signed.get "signature")
  let publicKey ← reading (do lowered toLowerCase (← signature.get "public_key"))
  ensure (publicKey = toLowerCase (trim trustedKeyHex)) .unknownSigner
  let digest ← reading (do reportDigestHex sha256 (← signed.get "report"))
  let valid ← reading (do verifyEd25519 ed (trim trustedKeyHex) digest (← signature.get "value"))
  ensure (valid = true) .badSignature

def expectReportProfile (signed : Js) (wanted : String) : Except CoverageFailure Unit := do
  let profile ← reading (do (← signed.get "report").get "profile")
  if profile.is (ofString wanted) then return
  else
    let found ← reading profile.text
    .error (.profile wanted found)

def expectDigest (signed : Js) (named : Throws Js) : Except CoverageFailure Unit := do
  let digest ← reading (do reportDigestHex sha256 (← signed.get "report"))
  ensure ((← reading named).is digest = true) .digestMismatch

def checkAsset (custodySums : Js) (e : JsString × Js) : Except CoverageFailure Unit := do
  let owed ← reading (parseAmount18dp e.2)
  -- A qualified name is neither an index nor inherited.
  let found ← reading (if custodySums.isNullish then .error .typeError
    else .ok (((entriesOf custodySums).lookup (ofString "held/" ++ e.1)).getD .undefined))
  let held ← reading (parseAmount18dp (found.orElse (.str (ofString "0"))))
  ensure (owed ≤ held) (.shortfall e.1)

/-- Custody against liabilities, bound by a statement naming both by digest. -/
def verifyCoverage (custody liabilities statement : Js)
    (custodyTrustedKeyHex liabilitiesTrustedKeyHex : JsString) (maxSkewSeconds : Number) :
    Except CoverageFailure Unit := do
  let version ← reading (statement.get "format_version")
  ensure (version.is (ofString "canton-solvency-coverage-v1") = true)
    (.unsupportedVersion "statement.format_version" version)
  expectReportProfile custody "coverage.custody"
  expectReportProfile liabilities "solvency.liabilities"
  expectDigest sha256 custody (statement.get "custody_report_digest")
  expectDigest sha256 liabilities (statement.get "liabilities_report_digest")
  checkCoverageSignature toLowerCase sha256 ed custody custodyTrustedKeyHex
  checkCoverageSignature toLowerCase sha256 ed liabilities liabilitiesTrustedKeyHex
  let custodyReport ← reading (custody.get "report")
  let liabilitiesReport ← reading (liabilities.get "report")
  let custodyTime ← reading (custodyReport.get "snapshot_time")
  let liabilitiesTime ← reading (liabilitiesReport.get "snapshot_time")
  let skew ← okOr (instantSkew custodyTime liabilitiesTime) .notTimestamp
  ensure (maxSkewSeconds.lt? (.finite skew) ≠ some true)
    (.temporalMismatch custodyTime liabilitiesTime skew maxSkewSeconds)
  let owed ← reading (liabilitiesReport.get "root_sums")
  let held ← reading (custodyReport.get "root_sums")
  forM (entriesOf owed) (checkAsset held)

end AssuranceLayer.Browser
