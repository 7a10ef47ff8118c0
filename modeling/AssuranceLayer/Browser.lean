import AssuranceLayer.JavaScript
import AssuranceLayer.Profile
import AssuranceLayer.Sign

set_option autoImplicit false

/-!
The verifier that runs in a browser, over values nobody has checked: amounts, hashes of leaves and
nodes, the digest of a report, and the two checks of an inclusion proof.
-/
namespace AssuranceLayer.Browser
open Fallible Utf16 JavaScript Profile Sign

inductive BrowserError where
  /-- "malformed amount: {s}" -/
  | malformedAmount (s : JsString)
  /-- "amount exceeds 18 decimal places: {s}" -/
  | tooManyDecimals (s : JsString)
  /-- "amount is not a non-negative decimal: {s}" -/
  | notDecimal (s : JsString)
  /-- "amount exceeds the representable range: {s}" -/
  | outOfRange (s : JsString)
  /-- "negative amount" -/
  | negativeAmount
  /-- "amount exceeds the representable range" -/
  | unrepresentable
  /-- "invalid hex" -/
  | invalidHex
  /-- "unsafe map name: {name}" -/
  | unsafeMapName (name : JsString)
  /-- "unsafe asset name: {asset}" -/
  | unsafeAssetName (asset : JsString)
  /-- "sums must be an object mapping asset to amount" -/
  | sumsNotObject
  /-- "Ed25519 is unavailable in this WebCrypto implementation; report verification needs Chrome
      137+, Safari 17+, Firefox 129+, or Node 18.4+" -/
  | ed25519Unavailable
deriving DecidableEq

abbrev Throws := Except (Thrown BrowserError)

def raise {α : Type} (e : BrowserError) : Throws α := .error (.error e)

/-! ## Amounts -/

def maxAmount : ℤ := 2 ^ 128 - 1
def scale : ℤ := 10 ^ 18

/-- `/^[0-9]+$/`. -/
def isDigits (cs : List Char) : Bool := cs ≠ [] ∧ cs.all isAsciiDigit

def amountOf (s : JsString) (int frac : List Char) : Throws ℤ := do
  let value : ℤ := digitsValue int * scale + digitsValue (frac.rightpad 18 '0')
  ensure (value ≤ maxAmount) (.error (.outOfRange s))
  return value

def parseText (s : JsString) : Throws ℤ := do
  let dot := splitOnce '.' (asChars s)
  let intPart := (dot.getD (asChars s, [])).1
  let fracPart := (dot.getD (asChars s, [])).2
  ensure (intPart ≠ [] ∧ (dot = none ∨ fracPart ≠ [])) (.error (.malformedAmount s))
  ensure (fracPart.length ≤ 18) (.error (.tooManyDecimals s))
  ensure (isDigits intPart ∧ (fracPart = [] ∨ isDigits fracPart)) (.error (.notDecimal s))
  amountOf s intPart fracPart

/-- An array has the `indexOf`, `slice` and `length` of a string, and is tested by its text. -/
def parseArray (items : List Js) : Throws ℤ := do
  let point := fun v : Js => v.is (ofString ".")
  let dot := items.any point
  let intPart := items.takeWhile fun v => !point v
  let fracPart := (items.dropWhile fun v => !point v).drop 1
  if 18 < fracPart.length then raise (.tooManyDecimals (← (Js.arr items).text))
  else
    let int ← (Js.arr intPart).text
    if !isDigits (asChars int) then raise (.notDecimal (← (Js.arr items).text))
    else if !dot then amountOf (← (Js.arr items).text) (asChars int) []
    else
      let frac ← (Js.arr fracPart).text
      if !isDigits (asChars frac) then raise (.notDecimal (← (Js.arr items).text))
      -- `padEnd` is no method of an array.
      else .error .typeError

def parseAmount18dp (v : Js) : Throws ℤ :=
  match v with
  | .str s => parseText s
  | .arr items => parseArray items
  | _ => .error .typeError

def formatAmount18dp (v : ℤ) : Throws JsString := do
  ensure (0 ≤ v) (.error .negativeAmount)
  ensure (v ≤ maxAmount) (.error .unrepresentable)
  return ofString (String.ofList (Nat.toDigits 10 (v / scale).toNat ++ '.' ::
    (Nat.toDigits 10 (v % scale).toNat).leftpad 18 '0'))

/-! ## Bytes -/

def isHexDigit (c : Char) : Bool := (hexValue c).isSome

def isEven : Binary64.Number → Bool
  | .finite q => q.den = 1 ∧ q.num % 2 = 0
  | _ => false

def hexToBytes (v : Js) : Throws (List UInt8) :=
  match v with
  | .undefined | .null => .error .typeError
  | .bool _ | .num _ => raise .invalidHex
  | .str s => okOr (hexDecodeChars (asChars s)) (.error .invalidHex)
  -- The text of two or more items has a comma.
  | .arr items => do
    ensure (items.length % 2 = 0) (.error .invalidHex)
    ensure ((asChars (← v.text)).all isHexDigit) (.error .invalidHex)
    return []
  | .obj _ => do
    ensure (isEven (← (← v.get "length").toNumber)) (.error .invalidHex)
    ensure ((asChars (← v.text)).all isHexDigit) (.error .invalidHex)
    return []

def bytesToHex (bytes : List UInt8) : JsString := ofString (hexEncode bytes)

def u64leBigInt (n : ℤ) : List UInt8 := u64le (n % 2 ^ 64).toNat

def lpBytes (bytes : List UInt8) : List UInt8 := u64le bytes.length ++ bytes

/-- `u64le(len) ‖ utf8(s)`. -/
def lp (v : Js) : Throws (List UInt8) := lpBytes <$> v.encode

/-- `u64le(count) ‖ (lp(asset) ‖ lp(canonical amount))*`, assets bytewise. -/
def lpmap (m : Js) : Throws (List UInt8) := do
  let assets := bytewise (← m.entries)
  let parts ← assets.mapM fun e => do
    let amount ← formatAmount18dp (← parseAmount18dp e.2)
    return lpBytes (encode e.1) ++ lpBytes (encode amount)
  return u64le assets.length ++ parts.flatten

/-! ## Sums -/

/-- A number, or the text that an addition to an inherited function leaves. -/
inductive Sum where
  | big (n : ℤ)
  | text
deriving DecidableEq

abbrev Sums := List (JsString × Sum)

/-- Names an object has without being given them. -/
def inheritedNames : List String := [
  "constructor",
  "__defineGetter__",
  "__defineSetter__",
  "hasOwnProperty",
  "__lookupGetter__",
  "__lookupSetter__",
  "isPrototypeOf",
  "propertyIsEnumerable",
  "toString",
  "valueOf",
  "__proto__",
  "toLocaleString"]

def isInherited (name : JsString) : Bool := name ∈ inheritedNames.map ofString

def Sum.add : Sum → Sum → Sum
  | .big m, .big n => .big (m + n)
  | _, _ => .text

/-- `out[asset] = (out[asset] ?? 0n) + v`. Assigning a text to `__proto__` does nothing. -/
def addEntry (out : Sums) (e : JsString × Sum) : Sums :=
  match out.lookup e.1 with
  | some w => setProp out e.1 (w.add e.2)
  | none =>
    if e.1 = ofString "__proto__" then out
    else if isInherited e.1 then setProp out e.1 .text
    else setProp out e.1 ((Sum.big 0).add e.2)

def addSums (a b : Sums) : Sums := b.foldl addEntry a

def formatSum : Sum → Throws JsString
  | .big n => formatAmount18dp n
  | .text => .error .typeError

def canonicalSums (sums : Sums) : Throws JsString := do
  let parts ← (bytewise sums).mapM fun e => do
    let amount ← formatSum e.2
    return e.1 ++ ofString ":" ++ amount
  return (ofString "|").intercalate parts

/-- `(a[asset] ?? 0n) === (b[asset] ?? 0n)`. Nothing inherited equals a sum. -/
def sameSum (a b : Sums) (asset : JsString) : Bool :=
  match a.lookup asset, b.lookup asset with
  | some v, some w => v = w
  | none, none => true
  | some v, none | none, some v => !isInherited asset && v = .big 0

def parseSums (sums : Js) : Throws Sums := do
  let entries ← sums.entries
  let parsed ← entries.mapM fun e => do
    let amount ← parseAmount18dp e.2
    return (e.1, Sum.big amount)
  return fromEntries parsed

structure SolvencyNode where
  hashHex : JsString
  sums : Sums

variable (sha256 : List UInt8 → Digest)

def hashHex (preimage : List UInt8) : JsString := bytesToHex (sha256 preimage).toList

def combineNodes (left right : SolvencyNode) : Throws SolvencyNode := do
  let sums := addSums left.sums right.sums
  let l ← hexToBytes (.str left.hashHex)
  let r ← hexToBytes (.str right.hashHex)
  let canonical ← canonicalSums sums
  return ⟨hashHex sha256 (utf8 "rocky-solvency-node-v1" ++ (l ++ (r ++ encode canonical))), sums⟩

/-! ## Leaves -/

def leafHashHex (salt userId balances : Js) : Throws JsString := do
  let user ← userId.encode
  let salt ← hexToBytes salt
  let canonical ← canonicalSums (← parseSums balances)
  return hashHex sha256 (utf8 "rocky-solvency-leaf-v1" ++
    (salt ++ ((sha256 user).toList ++ encode canonical)))

/-- `/^[A-Za-z0-9._-]+$/`. -/
def isSafe (name : JsString) : Bool :=
  name ≠ [] ∧ (asChars name).all fun c => c.isAlphanum || c = '.' || c = '_' || c = '-'

def checkNames (e : JsString × Js) : Throws Unit := do
  ensure (isSafe e.1) (.error (.unsafeMapName e.1))
  forM (← e.2.entries) fun asset => ensure (isSafe asset.1) (.error (.unsafeAssetName asset.1))

/-- `H(domain ‖ salt ‖ H(subject) ‖ count ‖ (lp(map) ‖ lpmap(amounts))*)`. -/
def leafHashV2Hex (salt subjectId maps : Js) : Throws JsString := do
  let names := bytewise (← maps.entries)
  forM names checkNames
  let salt ← hexToBytes salt
  let subject ← subjectId.encode
  let parts ← names.mapM fun e => do
    let amounts ← lpmap e.2
    return lpBytes (encode e.1) ++ amounts
  return hashHex sha256 (utf8 "rocky-solvency-leaf-v2" ++
    (salt ++ ((sha256 subject).toList ++ (u64le names.length ++ parts.flatten))))

def qualified (mapName asset : JsString) : JsString := mapName ++ ofString "/" ++ asset

def flattenMaps (maps : Js) : Throws Sums := do
  let entries ← maps.entries
  let parts ← entries.mapM fun m => do
    (← m.2.entries).mapM fun e => do
      let amount ← parseAmount18dp e.2
      return (qualified m.1 e.1, Sum.big amount)
  return fromEntries parts.flatten

def leafNodeV2 (salt subjectId maps : Js) : Throws SolvencyNode := do
  let sums ← flattenMaps maps
  let hash ← leafHashV2Hex sha256 salt subjectId maps
  return ⟨hash, sums⟩

/-! ## The digest of a report -/

def reportFormatVersion : JsString := ofString "canton-solvency-report-v1"
def reportFormatVersionV2 : JsString := ofString "canton-solvency-report-v2"
def proofFormatVersion : JsString := ofString "canton-solvency-proof-v1"
def proofFormatVersionV2 : JsString := ofString "canton-solvency-proof-v2"
def signatureAlgorithm : JsString := ofString "ed25519"

/-- The entries of a value that ought to be a map, or none if it is not one. -/
def entriesOf : Js → List (JsString × Js)
  | .obj props => props
  | _ => []

def manifestSection (manifest : Js) : Throws (List UInt8) := do
  let audience ← lp (← manifest.get "audience")
  let paths := bytewise (entriesOf (← manifest.get "fields"))
  let parts ← paths.mapM fun e => do
    let state ← lp e.2
    return lpBytes (encode e.1) ++ state
  return audience ++ (u64le paths.length ++ parts.flatten)

def u64leOf (v : Js) : Throws (List UInt8) := u64leBigInt <$> v.toBigInt

def reportPreimage (report : Js) : Throws (List UInt8) := do
  let version ← report.get "format_version"
  let v2 := version.is reportFormatVersionV2
  let manifest ← report.get "manifest"
  let manifestParts ← (if v2 && manifest.truthy then manifestSection manifest else .ok [])
  let formatVersion ← lp version
  let profile ← lp (← report.get "profile")
  let publisher ← lp (← report.get "publisher")
  let snapshotTime ← lp (← report.get "snapshot_time")
  let ledgerOffset ← lp (← report.get "ledger_offset")
  let rootHash ← lp (← report.get "root_hash")
  let leafCount ← u64leOf (← report.get "leaf_count")
  let rootSums ← lpmap (← report.get "root_sums")
  let markPrices ← lpmap (← report.get "mark_prices")
  let disclosures ← report.get "disclosures"
  let badDebt ← lpmap (← disclosures.get "bad_debt")
  let excludedHouseAccounts ← u64leOf (← disclosures.get "excluded_house_accounts")
  let excludedHouseTotals ← lpmap (← disclosures.get "excluded_house_totals")
  return utf8 (if v2 then "rocky-solvency-report-v2" else "rocky-solvency-report-v1") ++
    ((formatVersion ++ (profile ++ (publisher ++ (snapshotTime ++ (ledgerOffset ++ (rootHash ++
      (leafCount ++ (rootSums ++ (markPrices ++ (badDebt ++ (excludedHouseAccounts ++
        excludedHouseTotals))))))))))) ++ manifestParts)

def reportDigestHex (report : Js) : Throws JsString := hashHex sha256 <$> reportPreimage report

end AssuranceLayer.Browser
