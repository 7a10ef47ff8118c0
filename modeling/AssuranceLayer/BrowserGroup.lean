import AssuranceLayer.BrowserVerify

set_option autoImplicit false

/-! The browser's check that an entity is committed in a group's consolidated total. -/
namespace AssuranceLayer.Browser
open Fallible Utf16 JavaScript Profile Sign

def groupMembershipFormatVersion : JsString := ofString "canton-solvency-group-membership-v1"

/-- Sums that are no map are refused here. -/
def parseMapSums (sums : Js) : Throws Sums :=
  match sums with
  | .obj _ => parseSums sums
  | _ => raise .sumsNotObject

variable (sha256 : List UInt8 → Digest) (ed : Ed25519)

/-- `H(domain ‖ lp(entity_id) ‖ root_hash ‖ lpmap(sums))`. -/
def entityLeafNode (entity : Js) : Throws SolvencyNode := do
  let entityId ← lp (← entity.get "entity_id")
  let rootHash ← hexToBytes (← entity.get "root_hash")
  let rootSums ← lpmap (← entity.get "root_sums")
  let sums ← parseMapSums (← entity.get "root_sums")
  return ⟨hashHex sha256 (utf8 "rocky-solvency-entity-v1" ++ (entityId ++ (rootHash ++ rootSums))), sums⟩

/-- Checks an entity is committed in the group's consolidated total. -/
def verifyMembership (groupSigned membership : Js) (trustedPublicKeyHex : JsString) : Checks Unit := do
  checkVersion "membership.format_version" (← uncaught (membership.get "format_version"))
    groupMembershipFormatVersion
  let report ← uncaught (groupSigned.get "report")
  expectLeafKind report .entity
  let (digest, leaf) ← caught (do
    let digest ← reportDigestHex sha256 report
    let leaf ← entityLeafNode sha256 (← membership.get "entity")
    return (digest, leaf))
  let expectedDigest ← uncaught (membership.get "group_report_digest")
  ensure (expectedDigest.is digest) (.fail .digestMismatch)
  let signature ← uncaught (groupSigned.get "signature")
  let publicKey ← uncaught (signature.get "public_key")
  ensure (publicKey.is trustedPublicKeyHex) (.fail .unknownSigner)
  let value ← uncaught (signature.get "value")
  checkSigned ed trustedPublicKeyHex digest value
  let current ← caught (do foldSteps sha256 parseMapSums leaf (← membership.get "steps"))
  let rootHash ← uncaught (report.get "root_hash")
  ensure (rootHash.is current.hashHex) (.fail .rootHashMismatch)
  let published ← caught (do parseMapSums (← report.get "root_sums"))
  checkTotals current.sums published

end AssuranceLayer.Browser
