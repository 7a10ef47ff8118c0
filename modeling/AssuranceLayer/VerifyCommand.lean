import AssuranceLayer.Group
import AssuranceLayer.Wire

set_option autoImplicit false

/-!
The command-line verifier: documents read from files, one proof or a directory of them, and what
the run says about all of them together.
-/
namespace AssuranceLayer.VerifyCommand
open Fallible Document Digest Profile Sign Verify AssuranceLayer.Group EvidencePack SortedMap
open Json.Codec Json.Fields

/-! ## Files -/

abbrev OsName := List UInt8
abbrev FilePath := List OsName

/-- A listing may fail as a whole or at one of its entries. -/
structure FileSystem where
  readDir : FilePath → Option (List (Option OsName))
  isFile : FilePath → Bool
  read : FilePath → Option (List UInt8)

def decodeUtf8 (bytes : List UInt8) : Option String := String.fromUTF8? ⟨bytes.toArray⟩

def FileSystem.readToString (fs : FileSystem) (path : FilePath) : Option String :=
  (fs.read path).bind decodeUtf8

/-- What follows the last dot, unless nothing precedes it. -/
def extension (name : OsName) : Option OsName :=
  let dot : UInt8 := 0x2e
  if dot ∉ name ∨ (name.reverse.dropWhile (· ≠ dot)).tail = [] then none
  else some (name.reverse.takeWhile (· ≠ dot)).reverse

inductive RunError where
  /-- "reading {path}" -/
  | reading (path : FilePath)
  /-- "parsing {path}" -/
  | parsing (path : FilePath)
  /-- "reading directory {dir}" -/
  | readingDirectory (dir : FilePath)
  /-- An entry of the directory that cannot be read. -/
  | entry (dir : FilePath)
  /-- "no *.json proofs in {dir} — refusing to report a vacuous pass" -/
  | noProofs (dir : FilePath)
  /-- "handled by {handler}" -/
  | handledBy (handler : String)
  /-- "run_pack expects verify-pack" -/
  | expectsVerifyPack
deriving DecidableEq

/-! ## Commands -/

inductive ProofSource where
  | file (path : FilePath)
  | dir (path : FilePath)

inductive Command where
  | verify (report : FilePath) (proofs : ProofSource) (trustedKey : String)
  | verifyGroup (report : FilePath) (memberships : ProofSource) (trustedKey : String)
  | verifyChain (groupReport membership report proof : FilePath) (trustedKey groupKey : String)
  | recompute
  | verifyPack (packDir : FilePath) (trustedKey : String)
  | anchors
  | coverage
  | assurance
  | provenance
  | manifestDiff
  | digest (report : FilePath)
  | help
  | version

structure ProofOutcome where
  path : FilePath
  subject : String
  failure : Option VerificationFailure

structure Summary where
  reportDigest : String
  statement : Option String
  outcomes : List ProofOutcome

def Summary.allPassed (s : Summary) : Bool := s.outcomes.all fun o => o.failure.isNone

def exitOk : ℕ := 0
def exitVerificationFailed : ℕ := 1
def exitUsageOrIo : ℕ := 2

def exitCode (result : Except RunError Summary) : ℕ :=
  match result with
  | .ok summary => if summary.allPassed then exitOk else exitVerificationFailed
  | .error _ => exitUsageOrIo

/-! ## Documents -/

/-- One proof of either format, already parsed. -/
inductive AnyProof where
  | v1 (proof : ProofDocument)
  | v2 (proof : ProofDocumentV2)

def AnyProof.subject : AnyProof → String
  | .v1 p => p.leaf.userId
  | .v2 p => p.leaf.subjectId

/-- The declared version of a document, whatever else is in it. -/
def versionPeek : Json → Option String
  | .obj entries =>
    match entries.filter fun e => e.1 = "format_version" with
    | [(_, .str version)] => some version
    | _ => none
  | .arr [.str version] => some version
  | _ => none

def entityRecord : Json.Codec EntityRecord :=
  record (((field "entity_id" string).both ((field "root_hash" string).both
    (field "root_sums" Wire.amountMap))).iso
    (fun p => ⟨p.1, p.2.1, p.2.2⟩) (fun e => (e.entityId, e.rootHash, e.rootSums)) fun _ => rfl)
    (by decide)

def groupMembershipDocument : Json.Codec GroupMembershipDocument :=
  record (((field "format_version" string).both ((field "group_report_digest" string).both
    ((field "entity" entityRecord).both (field "steps" (list Wire.proofStep))))).iso
    (fun p => ⟨p.1, p.2.1, p.2.2.1, p.2.2.2⟩)
    (fun d => (d.formatVersion, d.groupReportDigest, d.entity, d.steps)) fun _ => rfl) (by decide)

def profileStatements : List (String × String) := [
  ("solvency.liabilities",
    "every customer balance is committed, and the root's totals are the liabilities"),
  ("solvency.group",
    "every entity's root is committed, and the root's totals are the consolidated liabilities"),
  ("collateral.repo",
    "every open repo leg is committed, and the root totals are aggregate collateral and exposure"),
  ("fund.nav",
    "every holder's units and entitlement are committed, and the root totals are units outstanding " ++
      "and total entitlement"),
  ("settlement.dvp",
    "every settled trade in this window is committed, and no leg settled without its counter-leg"),
  ("eligibility.holder", "every committed holder satisfied each attested rule at issuance"),
  ("coverage.custody",
    "every custody position is committed, and the root totals are the assets held")]

/-- None when the profile is unregistered; verification will say so. -/
def statementOf (signed : SignedReport) : Option String :=
  (profileStatements.find? fun e => e.1 = signed.report.profile).map fun e => e.1 ++ ": " ++ e.2

/-! ## Runs -/

section Run
variable (sha256 : List UInt8 → Digest) (ed : Ed25519) (parse : String → Option Json) (fs : FileSystem)

def fromStr {α : Type} (c : Json.Codec α) (text : String) : Option α := (parse text).bind c.decode

def load {α : Type} (c : Json.Codec α) (path : FilePath) : Except RunError α := do
  let text ← okOr (fs.readToString path) (.reading path)
  okOr (fromStr parse c text) (.parsing path)

def parseProof (text : String) : Option AnyProof := do
  let j ← parse text
  let version ← versionPeek j
  if version = proofFormatVersionV2 then AnyProof.v2 <$> Wire.proofDocumentV2.decode j
  else AnyProof.v1 <$> Wire.proofDocument.decode j

/-- Whether a file is another document a publisher writes alongside proofs. -/
def isSiblingDocument (text : String) : Bool :=
  (fromStr parse Wire.signedPack text).isSome || (fromStr parse Wire.signedReport text).isSome ||
    (fromStr parse Wire.anchor text).isSome || (fromStr parse groupMembershipDocument text).isSome

def AnyProof.verifyAgainst (signed : SignedReport) (key : String) :
    AnyProof → Except VerificationFailure Unit
  | .v1 p => verify sha256 ed signed p key
  | .v2 p => verifyV2 sha256 ed signed p key

/-- What a sweep looks for: how a document is read, what may stand beside it, how it is named and
    checked. -/
structure Kind (δ : Type) where
  read : String → Option δ
  skip : String → Bool
  subject : δ → String
  check : SignedReport → String → δ → Except VerificationFailure Unit

def proofKind : Kind AnyProof where
  read := parseProof parse
  skip := isSiblingDocument parse
  subject := AnyProof.subject
  check signed key proof := proof.verifyAgainst sha256 ed signed key

/-- Publishers put the group report beside the memberships. -/
def membershipKind : Kind GroupMembershipDocument where
  read := fromStr parse groupMembershipDocument
  skip text := (fromStr parse Wire.signedReport text).isSome
  subject membership := membership.entity.entityId
  check signed key membership := verifyMembership sha256 ed signed membership key

def failureOf {ε : Type} : Except ε Unit → Option ε
  | .ok _ => none
  | .error e => some e

/-- `*.json` in the directory, sorted so output is stable across file systems. -/
def proofPaths (dir : FilePath) : Except RunError (List FilePath) := do
  let listing ← okOr (fs.readDir dir) (.readingDirectory dir)
  let names := (listing.filterMap id).filter fun name => extension name = some (utf8 "json")
  ensure (names ≠ []) (.noProofs dir)
  return names.mergeSort.map fun name => dir ++ [name]

def ProofSource.paths : ProofSource → Except RunError (List FilePath)
  | .file p => .ok [p]
  | .dir d => proofPaths fs d

def ProofSource.sweeping : ProofSource → Bool
  | .file _ => false
  | .dir _ => true

def outcome {δ : Type} (kind : Kind δ) (signed : SignedReport) (key : String) (path : FilePath)
    (doc : δ) : ProofOutcome :=
  ⟨path, kind.subject doc, failureOf (kind.check signed key doc)⟩

/-- Sibling documents are skipped while sweeping; an explicitly named file must always parse. -/
def sweep {δ : Type} (kind : Kind δ) (signed : SignedReport) (key : String) (sweeping : Bool) :
    List FilePath → Except RunError (List ProofOutcome)
  | [] => .ok []
  | path :: paths => do
    let text ← okOr (fs.readToString path) (.reading path)
    match kind.read text with
    | some doc => do
      let rest ← sweep kind signed key sweeping paths
      return outcome kind signed key path doc :: rest
    | none =>
      if sweeping && kind.skip text then sweep kind signed key sweeping paths
      else .error (.parsing path)

def summarize (signed : SignedReport) (outcomes : List ProofOutcome) : Summary :=
  ⟨reportDigestHex sha256 signed.report, statementOf signed, outcomes⟩

def verifyAll {δ : Type} (kind : Kind δ) (report : FilePath) (source : ProofSource) (key : String) :
    Except RunError Summary := do
  let signed ← load parse fs Wire.signedReport report
  let paths ← source.paths fs
  let outcomes ← sweep fs kind signed key source.sweeping paths
  return summarize sha256 signed outcomes

def run : Command → Except RunError Summary
  | .digest report => do
    let signed ← load parse fs Wire.signedReport report
    return summarize sha256 signed []
  | .verify report proofs key => verifyAll sha256 parse fs (proofKind sha256 ed parse) report proofs key
  | .verifyGroup report memberships key =>
    verifyAll sha256 parse fs (membershipKind sha256 ed parse) report memberships key
  | .verifyChain groupReport membership report proof key groupKey => do
    let groupSigned ← load parse fs Wire.signedReport groupReport
    let membershipDoc ← load parse fs groupMembershipDocument membership
    let entitySigned ← load parse fs Wire.signedReport report
    let proofDoc ← load parse fs Wire.proofDocument proof
    return summarize sha256 groupSigned [{
      path := proof
      subject := proofDoc.leaf.userId ++ " in " ++ membershipDoc.entity.entityId
      failure := failureOf
        (verifyChain sha256 ed groupSigned membershipDoc entitySigned proofDoc groupKey key) }]
  | .coverage => .error (.handledBy "run_coverage")
  | .assurance => .error (.handledBy "run_assurance")
  | .provenance => .error (.handledBy "run_provenance")
  | .verifyPack _ _ => .error (.handledBy "run_pack")
  | .anchors => .error (.handledBy "run_anchors")
  | .recompute => .error (.handledBy "run_recompute")
  | .manifestDiff => .error (.handledBy "run_diff")
  | .help | .version => .ok ⟨"", none, []⟩

/-! ## A whole delivery -/

def packFile : String := "pack.json"

structure PackSummary where
  publisher : String
  snapshotTime : String
  reportDigest : String
  members : ℕ
  indexFailure : Option PackFailure
  contents : Option Summary

def PackSummary.allPassed (s : PackSummary) : Bool :=
  s.indexFailure.isNone && s.contents.any Summary.allPassed

def deliveredEntry (dir : FilePath) (members : SortedMap String (List UInt8)) (entry : Option OsName) :
    Except RunError (SortedMap String (List UInt8)) := do
  let name ← okOr entry (.entry dir)
  let path := dir ++ [name]
  if fs.isFile path = false then return members
  match decodeUtf8 name with
  | none => return members
  | some text =>
    if text = packFile then return members
    let bytes ← okOr (fs.read path) (.reading path)
    return members.insert text bytes

/-- Every file of the directory except the index itself. -/
def delivered (dir : FilePath) : Except RunError (SortedMap String (List UInt8)) := do
  let listing ← okOr (fs.readDir dir) (.reading dir)
  listing.foldlM (deliveredEntry fs dir) empty

/-- Contents are verified only once the delivery is known to be the intended one. -/
def packContents (dir : FilePath) (key : String) (indexFailure : Option PackFailure) :
    Except RunError (Option Summary) :=
  match indexFailure with
  | none => some <$> run sha256 ed parse fs (.verify (dir ++ [utf8 "report.json"]) (.dir dir) key)
  | some _ => .ok none

def runPack : Command → Except RunError PackSummary
  | .verifyPack dir key => do
    let signed ← load parse fs Wire.signedPack (dir ++ [utf8 packFile])
    let members ← delivered fs dir
    let indexFailure := failureOf (verifyPack sha256 ed signed key members)
    let contents ← packContents sha256 ed parse fs dir key indexFailure
    return {
      publisher := signed.pack.publisher
      snapshotTime := signed.pack.snapshotTime
      reportDigest := signed.pack.reportDigest
      members := signed.pack.entries.length
      indexFailure, contents }
  | _ => .error .expectsVerifyPack

end Run

end AssuranceLayer.VerifyCommand
