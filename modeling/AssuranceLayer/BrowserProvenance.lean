import AssuranceLayer.BrowserCoverage
import AssuranceLayer.BrowserTypes

set_option autoImplicit false

/-! The browser's check of a provenance graph, and of the levels that rest on one. -/
namespace AssuranceLayer.Browser
open Fallible Utf16 JavaScript
open Sign (Ed25519)

inductive ProvenanceDetail where
  /-- "two sources share the id {id}" -/
  | sharedId (id : Js)
  /-- "off-ledger source {id} declares no basis; nothing else here says how that figure arrives" -/
  | noBasis (id : Js)
  /-- "not a field this format defines" -/
  | unknownField
  /-- "declared twice; a field has one derivation" -/
  | declaredTwice
  /-- "names no sources, so it says nothing about where the figure came from" -/
  | noSources
  /-- "names source {id}, which the graph does not declare" -/
  | undeclaredSource (id : Js)
  /-- "declared ledger-derived, and the provenance graph does not say where it came from" -/
  | notDerived
  /-- "declared ledger-derived, but every source the graph names for it is off-ledger" -/
  | offLedgerOnly

inductive ProvenanceFailure where
  | unsupportedVersion (field : String) (found : Js)
  | digestMismatch
  | unknownSigner
  | badSignature
  | inconsistent (field : JsString) (detail : ProvenanceDetail)
  /-- "sources and derivations must be arrays" -/
  | notArrays
  | malformed (detail : Thrown BrowserError)

def provenanceFormatVersion : JsString := ofString "canton-solvency-provenance-v1"

/-- The fields whose level a verifier can substantiate. -/
def assessedFields : List String := [
  "root_sums",
  "mark_prices",
  "disclosures.bad_debt",
  "disclosures.excluded_house_accounts",
  "disclosures.excluded_house_totals"]

/-! ## Types -/

def sourceKinds : List String := ["participant", "synchronizer", "party", "template", "off-ledger"]

structure IsSource (v : Js) : Prop where
  object : IsObject v
  id : IsString (v.prop "id")
  kind : ∃ kind ∈ sourceKinds, v.prop "kind" = Js.string kind
  name : IsString (v.prop "name")
  basis : v.prop "basis" = .undefined ∨ IsString (v.prop "basis")

structure IsDerivation (v : Js) : Prop where
  object : IsObject v
  field : IsString (v.prop "field")
  sources : IsArray IsString (v.prop "sources")
  method : IsString (v.prop "method")

structure IsProvenance (v : Js) : Prop where
  object : IsObject v
  formatVersion : IsString (v.prop "format_version")
  reportDigest : IsString (v.prop "report_digest")
  sources : IsArray IsSource (v.prop "sources")
  derivations : IsArray IsDerivation (v.prop "derivations")

structure IsSignedProvenance (v : Js) : Prop where
  object : IsObject v
  provenance : IsProvenance (v.prop "provenance")
  signature : IsSignatureBlock (v.prop "signature")

/-! ## The digest -/

/-- `u64le(v.length)`. -/
def countOf : Js → Throws (List UInt8)
  | .arr items => .ok (u64le items.length)
  | .str s => .ok (u64le s.length)
  | v => do u64leOf (← v.get "length")

def sourcePreimage (s : Js) : Throws (List UInt8) := do
  let id ← lp (← s.get "id")
  let kind ← lp (← s.get "kind")
  let name ← lp (← s.get "name")
  let basis ← s.get "basis"
  -- A presence byte, not an empty string.
  let basis ← (if basis.isNullish then .ok [0] else List.cons 1 <$> lp basis)
  return id ++ (kind ++ (name ++ basis))

def derivationPreimage (d : Js) : Throws (List UInt8) := do
  let field ← lp (← d.get "field")
  let count ← countOf (← d.get "sources")
  let ids ← (← (← d.get "sources").elements).mapM lp
  let method ← lp (← d.get "method")
  return field ++ (count ++ (ids.flatten ++ method))

def provenancePreimage (p : Js) : Throws (List UInt8) := do
  let formatVersion ← lp (← p.get "format_version")
  let reportDigest ← lp (← p.get "report_digest")
  let sourceCount ← countOf (← p.get "sources")
  let sources ← (← (← p.get "sources").elements).mapM sourcePreimage
  let derivationCount ← countOf (← p.get "derivations")
  let derivations ← (← (← p.get "derivations").elements).mapM derivationPreimage
  return utf8 "rocky-solvency-provenance-v1" ++ (formatVersion ++ (reportDigest ++ (sourceCount ++
    (sources.flatten ++ (derivationCount ++ derivations.flatten)))))

/-! ## The graph -/

/-- The whole check stands in a `try`. -/
def tracing {α : Type} (x : Throws α) : Except ProvenanceFailure α := x.mapError .malformed

/-- `set.has(v)`. No object of a document is another's. -/
def isOneOf (v : Js) (seen : List Js) : Bool := seen.any v.strictEq

/-- `(basis ?? "").trim()`, of which only strings know how. -/
def trimmedBasis (basis : Js) : Throws JsString :=
  match basis.orElse (.str []) with
  | .str s => .ok (trim s)
  | _ => .error .typeError

/-- The id of a source joins the ids seen so far. -/
def checkSource (ids : List Js) (source : Js) : Except ProvenanceFailure (List Js) := do
  let id ← tracing (source.get "id")
  ensure (isOneOf id ids = false) (.inconsistent [] (.sharedId id))
  let kind ← tracing (source.get "kind")
  if kind.is (ofString "off-ledger") then
    let basis ← tracing (do trimmedBasis (← source.get "basis"))
    ensure (basis ≠ []) (.inconsistent [] (.noBasis id))
  return id :: ids

def isAssessed (field : Js) : Bool := assessedFields.any fun known => field.is (ofString known)

def checkDerivation (ids seen : List Js) (d : Js) : Except ProvenanceFailure (List Js) := do
  let field ← tracing (d.get "field")
  if !isAssessed field then .error (.inconsistent (← tracing field.text) .unknownField)
  else
    let name ← tracing field.text
    ensure (isOneOf field seen = false) (.inconsistent name .declaredTwice)
    match ← tracing (d.get "sources") with
    | .arr (id :: rest) => do
      forM (id :: rest) fun id => ensure (isOneOf id ids = true) (.inconsistent name (.undeclaredSource id))
      return field :: seen
    | _ => .error (.inconsistent name .noSources)

def checkGraph (sources derivations : Js) : Except ProvenanceFailure Unit := do
  match sources, derivations with
  | .arr sources, .arr derivations => do
    let ids ← sources.foldlM checkSource []
    let _ ← derivations.foldlM (checkDerivation ids) []
    return
  | _, _ => .error .notArrays

/-- `v?.name`. -/
def optionalGet (v : Js) (name : String) : Js := if v.isNullish then .undefined else v.prop name

def checkProvenanceVersion (version : Js) : Except ProvenanceFailure Unit :=
  if version.is provenanceFormatVersion then return
  else do
    let found ← tracing version.text
    .error (.unsupportedVersion "provenance.format_version" (.str found))

variable (toLowerCase : JsString → JsString) (sha256 : List UInt8 → Digest) (ed : Ed25519)

def provenanceDigestHex (p : Js) : Throws JsString := hashHex sha256 <$> provenancePreimage p

def verifyProvenance (signedReport signed : Js) (trustedKeyHex : JsString) : Except ProvenanceFailure Unit := do
  let p := optionalGet signed "provenance"
  checkProvenanceVersion (optionalGet p "format_version")
  let named ← tracing (p.get "report_digest")
  let digest ← tracing (do reportDigestHex sha256 (← signedReport.get "report"))
  ensure (named.is digest = true) .digestMismatch
  let signature ← tracing (signed.get "signature")
  let publicKey ← tracing (do lowered toLowerCase (← signature.get "public_key"))
  ensure (publicKey = toLowerCase (trim trustedKeyHex)) .unknownSigner
  let algorithm ← tracing (signature.get "algorithm")
  ensure (algorithm.is signatureAlgorithm = true) (.unsupportedVersion "signature.algorithm" algorithm)
  let digest ← tracing (provenanceDigestHex sha256 p)
  let valid ← tracing (do verifyEd25519 ed (trim trustedKeyHex) digest (← signature.get "value"))
  ensure (valid = true) .badSignature
  let sources ← tracing (p.get "sources")
  let derivations ← tracing (p.get "derivations")
  checkGraph sources derivations

/-! ## Levels -/

/-- `onLedger(s.kind)` of a source with the id. -/
def namesOnLedger (id source : Js) : Throws Bool := do
  let sourceId ← source.get "id"
  if sourceId.strictEq id then return !(← source.get "kind").is (ofString "off-ledger")
  else return false

/-- The array methods are of arrays alone. -/
def itemsOf : Js → Throws (List Js)
  | .arr items => .ok items
  | _ => .error .typeError

/-- `list.find((d) => d.field === field)`. -/
def findDerivation (field : JsString) : List Js → Throws (Option Js)
  | [] => .ok none
  | d :: rest => do
    if (← d.get "field").is field then return some d
    else findDerivation field rest

/-- `p.derivations?.find((d) => d.field === field)`. -/
def derivationOf (p : Js) (field : JsString) : Throws (Option Js) := do
  let derivations ← p.get "derivations"
  if derivations.isNullish then return none
  else findDerivation field (← itemsOf derivations)

/-- Whether the graph names at least one on-ledger source for a field. -/
def derivesFromLedger (p : Js) (field : JsString) : Throws Bool := do
  match ← derivationOf p field with
  | none => return false
  | some d => do
    let ids ← itemsOf (← d.get "sources")
    ids.anyM fun id => do
      let sources ← itemsOf (← p.get "sources")
      sources.anyM (namesOnLedger id)

end AssuranceLayer.Browser
