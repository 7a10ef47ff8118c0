import AssuranceLayer.Browser

set_option autoImplicit false

/-! The browser's walk of an anchor history. -/
namespace AssuranceLayer.Browser
open Fallible Utf16 JavaScript

inductive ChainFailure where
  | unsupportedVersion (index : ℕ) (found : Js)
  | notGenesis
  | broken (index : ℕ)
  | publisherChanged (index : ℕ)
  | wentBackwards (index : ℕ) (field : String)
  | malformed (detail : Thrown BrowserError)

def anchorFormatVersion : JsString := ofString "canton-solvency-anchor-v1"

def anchorPreimage (anchor : Js) : Throws (List UInt8) := do
  let formatVersion ← lp (← anchor.get "format_version")
  let reportDigest ← lp (← anchor.get "report_digest")
  let rootHash ← lp (← anchor.get "root_hash")
  let snapshotTime ← lp (← anchor.get "snapshot_time")
  let ledgerOffset ← lp (← anchor.get "ledger_offset")
  let publisher ← lp (← anchor.get "publisher")
  let publisherKey ← lp (← anchor.get "publisher_key")
  let prev ← anchor.get "prev_anchor"
  -- A presence byte, not an empty string.
  let prevAnchor ← (if prev.strictEq .undefined then .ok [0] else List.cons 1 <$> lp prev)
  return utf8 "rocky-solvency-anchor-v1" ++ (formatVersion ++ (reportDigest ++ (rootHash ++
    (snapshotTime ++ (ledgerOffset ++ (publisher ++ (publisherKey ++ prevAnchor)))))))

variable (sha256 : List UInt8 → Digest)

def anchorDigestHex (anchor : Js) : Throws JsString := hashHex sha256 <$> anchorPreimage anchor

/-- The whole walk stands in a `try`. -/
def attempt {α : Type} (x : Throws α) : Except ChainFailure α := x.mapError .malformed

def checkAnchor (history : List Js) (anchor : Js) (index : ℕ) : Except ChainFailure Unit := do
  let version ← attempt (anchor.get "format_version")
  ensure (version.is anchorFormatVersion = true) (.unsupportedVersion index version)
  let prev ← attempt (anchor.get "prev_anchor")
  match index with
  | 0 => ensure (prev.strictEq .undefined = true) .notGenesis
  | i + 1 =>
    let previous := history.getD i .undefined
    ensure (prev.strictEq .undefined = false) (.broken index)
    let digest ← attempt (anchorDigestHex sha256 previous)
    ensure (prev.is digest = true) (.broken index)
    let publisher ← attempt (anchor.get "publisher")
    let before ← attempt (previous.get "publisher")
    ensure (publisher.strictEq before = true) (.publisherChanged index)
    -- `a <= b` holds when `b < a` is false, and not when it is undefined.
    let later ← attempt (do (← previous.get "snapshot_time").lt (← anchor.get "snapshot_time"))
    ensure (later ≠ some false) (.wentBackwards index "snapshot_time")
    let rewound ← attempt (do (← anchor.get "ledger_offset").lt (← previous.get "ledger_offset"))
    ensure (rewound ≠ some true) (.wentBackwards index "ledger_offset")

/-- Walks a publisher's anchor history. -/
def verifyAnchorChain (history : Js) : Except ChainFailure Unit := do
  let items ← attempt (match history with
    | .arr items => .ok items
    | _ => .error .typeError)
  forM items.zipIdx fun e => checkAnchor sha256 items e.1 e.2

end AssuranceLayer.Browser
