import AssuranceLayer.Anchoring
import AssuranceLayer.Produce

set_option autoImplicit false

/-! The command-line publisher: a file of balances becomes a publication and the next anchor. -/
namespace AssuranceLayer.Command
open Fallible Amount Sums Merkle Document Sign Produce Anchoring SortedMap

structure PublishArgs where
  /-- The text of the balance file, rows of `user_id,asset,amount`. -/
  balances : String
  publisher : String
  snapshotTime : String
  ledgerOffset : String
  manifest : Option Manifest
  prevAnchor : Option Anchor
deriving DecidableEq

inductive CommandFailure where
  /-- "row {}: expected user_id,asset,amount" -/
  | badRow (row : ℕ)
  /-- "row {}" -/
  | badAmount (row : ℕ) (e : AmountError)
  /-- "row {}: {} appears twice for {}" -/
  | appearsTwice (row : ℕ) (asset userId : String)
  /-- "no balances in the file" -/
  | noBalances
  | publish (e : PublishError)
deriving DecidableEq

abbrev Users := SortedMap String AmountMap

def readRow (users : Users) (row : List Char × ℕ) : Except CommandFailure Users := do
  let line := trim (String.ofList row.1)
  if line = "" then return users
  match (line.toList.splitOn ',').map fun col => trim (String.ofList col) with
  | userId :: asset :: raw :: _ =>
    ensure (userId ≠ "" ∧ asset ≠ "") (.badRow (row.2 + 1))
    let amount ← (parseAmount18dp raw).mapError (.badAmount (row.2 + 1))
    let balances := (users.get? userId).getD empty
    ensure (balances.get? asset = none) (.appearsTwice (row.2 + 1) asset userId)
    return users.insert userId (balances.insert asset amount)
  | _ => .error (.badRow (row.2 + 1))

variable (sha256 : List UInt8 → Digest) (ed : Ed25519)

/-- Ordered by the salt, which no one but the producer can predict, then by user id. -/
def saltOrder (a b : LeafInput) : Prop :=
  a.salt.toList < b.salt.toList ∨ a.salt = b.salt ∧ a.userId ≤ b.userId

instance : DecidableRel saltOrder := fun _ _ => inferInstanceAs (Decidable (_ ∨ _))

def readBalances (text masterSalt : String) : Except CommandFailure (List LeafInput) := do
  let users ← (text.toList.splitOn (Char.ofNat 0x0a)).zipIdx.foldlM readRow empty
  ensure (users.isEmpty = false) .noBalances
  let leaves : List LeafInput := users.entries.map fun user =>
    { salt := leafSalt sha256 (utf8 masterSalt) user.1, userId := user.1, balances := user.2 }
  return leaves.insertionSort saltOrder

def publishCommand (args : PublishArgs) (signer : ReportSigner) :
    Except CommandFailure (Publication × Anchor) := do
  let masterSalt := hexEncode signer.seed.toList ++ "-" ++ args.snapshotTime
  let leaves ← readBalances sha256 args.balances masterSalt
  let metadata : ReportMetadata := {
    profile := "solvency.liabilities"
    publisher := args.publisher
    snapshotTime := args.snapshotTime
    ledgerOffset := args.ledgerOffset
    markPrices := empty
    disclosures := ⟨empty, 0, empty⟩
    manifest := args.manifest }
  let published ← (publish sha256 ed leaves metadata signer).mapError .publish
  return (published, anchorReport sha256 published.signedReport args.prevAnchor)

end AssuranceLayer.Command
