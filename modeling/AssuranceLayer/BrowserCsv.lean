import AssuranceLayer.BrowserCoverage

set_option autoImplicit false

/-!
The browser's reading of a file of balances, with the totals it shows before anything is sent.
-/
namespace AssuranceLayer.BrowserCsv
open Utf16 JavaScript

def lineFeed : UInt16 := 0x0a
def carriageReturn : UInt16 := 0x0d
def quoteMark : UInt16 := 0x22
def numberSign : UInt16 := 0x23
def comma : UInt16 := 0x2c
def minus : UInt16 := 0x2d

/-! ## Lines and fields -/

def withoutReturn (s : JsString) : JsString :=
  if s.getLast? = some carriageReturn then s.dropLast else s

/-- `text.split(/\r?\n/)`. -/
def textLines (text : JsString) : List JsString :=
  let parts := text.splitOn lineFeed
  parts.dropLast.map withoutReturn ++ parts.getLast?.toList

/-- The fields that are left, from inside or outside of quotes. A doubled quote inside stands for one. -/
def fields : Bool → JsString → JsString → List JsString
  | _, cur, [] => [cur]
  | true, cur, c :: rest =>
    if c = quoteMark then
      match rest with
      | d :: rest' => if d = quoteMark then fields true (cur ++ [quoteMark]) rest' else fields false cur (d :: rest')
      | [] => fields false cur []
    else fields true (cur ++ [c]) rest
  | false, cur, c :: rest =>
    if c = quoteMark then fields true cur rest
    else if c = comma then cur :: fields false [] rest
    else fields false (cur ++ [c]) rest

def splitLine (line : JsString) : List JsString := (fields false [] line).map Browser.trim

/-- `/^user[_ ]?id$/i`. -/
def isHeader (col : JsString) : Bool :=
  (asChars col).map Char.toLower ∈ ["userid".toList, "user_id".toList, "user id".toList]

/-! ## Amounts -/

/-- `/^\d+(\.\d{1,18})?$/`. -/
def isDecimal (cs : List Char) : Bool :=
  match splitOnce '.' cs with
  | none => cs ≠ [] ∧ cs.all isAsciiDigit
  | some (int, frac) =>
    (int ≠ [] ∧ int.all isAsciiDigit) ∧ (1 ≤ frac.length ∧ frac.length ≤ 18) ∧ frac.all isAsciiDigit

def isNegative (amount : JsString) : Bool := amount.head? = some minus

def unsigned (amount : JsString) : JsString := if isNegative amount then amount.tail else amount

def isAmount (amount : JsString) : Bool := isDecimal (asChars (unsigned amount))

/-- The `BigInt` of a decimal whose fraction is padded to eighteen places. -/
def scaled (s : JsString) : ℕ :=
  let parts := (splitOnce '.' (asChars s)).getD (asChars s, [])
  digitsValue (parts.1 ++ parts.2.rightpad 18 '0')

/-- Without zeros at the end. -/
def decimalText (n : ℕ) : List Char :=
  let whole := Nat.toDigits 10 (n / 10 ^ 18)
  let frac := ((Nat.toDigits 10 (n % 10 ^ 18)).leftpad 18 '0').rdropWhile (· = '0')
  if frac = [] then whole else whole ++ '.' :: frac

/-- The sum of two decimals. -/
def addDecimal (a b : JsString) : JsString := ofString (String.ofList (decimalText (scaled a + scaled b)))

/-! ## Rows -/

abbrev Record := List (JsString × JsString)

inductive RowProblem where
  /-- "line {n}: expected user_id,asset,amount" -/
  | columns (n : ℕ)
  /-- "line {n}: empty user_id or asset" -/
  | emptyName (n : ℕ)
  /-- "line {n}: amount {JSON.stringify(amount)} is not an 18dp decimal" -/
  | amount (n : ℕ) (found : JsString)
  /-- "line {n}: duplicate asset {asset} for {user_id}" -/
  | duplicateAsset (n : ℕ) (asset userId : JsString)
deriving DecidableEq

structure CsvState where
  byUser : List (JsString × Record)
  totals : Record
  negativeTotals : Record
  rows : ℕ
  negatives : ℕ
  errors : List RowProblem

def CsvState.initial : CsvState := ⟨[], [], [], 0, 0, []⟩

/-- What every object inherits. -/
def objectPrototype : List String :=
  ["constructor", "__defineGetter__", "__defineSetter__", "hasOwnProperty", "__lookupGetter__",
    "__lookupSetter__", "isPrototypeOf", "propertyIsEnumerable", "toString", "valueOf", "__proto__",
    "toLocaleString"]

/-- `name in object`. -/
def hasProperty (props : Record) (name : JsString) : Bool :=
  name ∈ props.map Prod.fst ∨ name ∈ objectPrototype.map ofString

/-- `Map.set`. -/
def setEntry (map : List (JsString × Record)) (key : JsString) (v : Record) : List (JsString × Record) :=
  if key ∈ map.map Prod.fst then map.map fun e => if e.1 = key then (key, v) else e else map ++ [(key, v)]

def addTo (totals : Record) (asset amount : JsString) : Record :=
  setProp totals asset (addDecimal ((totals.lookup asset).getD (ofString "0")) amount)

def CsvState.enter (s : CsvState) (userId asset amount : JsString) : CsvState :=
  let balances := (s.byUser.lookup userId).getD []
  let s := { s with byUser := setEntry s.byUser userId (setProp balances asset amount), rows := s.rows + 1 }
  if isNegative amount then
    { s with
      negatives := s.negatives + 1
      negativeTotals := addTo s.negativeTotals asset amount.tail }
  else { s with totals := addTo s.totals asset amount }

def CsvState.report (s : CsvState) (maxErrors : ℕ) (problem : RowProblem) : CsvState :=
  if s.errors.length < maxErrors then { s with errors := s.errors ++ [problem] } else s

/-- One line, with its index. -/
def readLine (maxErrors : ℕ) (s : CsvState) (raw : JsString × ℕ) : CsvState :=
  let line := Browser.trim raw.1
  let n := raw.2 + 1
  if line = [] ∨ line.head? = some numberSign then s
  else
    let cols := splitLine line
    if raw.2 = 0 ∧ isHeader (cols.headD []) then s
    else
      match cols with
      | userId :: asset :: amount :: _ =>
        if userId = [] ∨ asset = [] then s.report maxErrors (.emptyName n)
        else if isAmount amount = false then s.report maxErrors (.amount n amount)
        else if hasProperty ((s.byUser.lookup userId).getD []) asset then
          s.report maxErrors (.duplicateAsset n asset userId)
        else s.enter userId asset amount
      | _ => s.report maxErrors (.columns n)

/-! ## Files -/

structure Leaf where
  userId : JsString
  balances : Record

structure BalancesParse where
  leaves : List Leaf
  /-- Of the balances that are not negative. -/
  totals : Record
  rows : ℕ
  negatives : ℕ
  negativeTotals : Record
  assets : List JsString
  errors : List RowProblem

def readLines (maxErrors : ℕ) (text : JsString) : CsvState :=
  (textLines text).zipIdx.foldl (readLine maxErrors) .initial

def parseBalancesCsv (text : JsString) (maxErrors : ℕ := 20) : BalancesParse :=
  let s := readLines maxErrors text
  { leaves := (s.byUser.insertionSort fun a b => unitValues a.1 ≤ unitValues b.1).map fun e => ⟨e.1, e.2⟩
    totals := s.totals
    rows := s.rows
    negatives := s.negatives
    negativeTotals := s.negativeTotals
    assets := (s.totals.map Prod.fst ++ s.negativeTotals.map Prod.fst).dedup.insertionSort
      fun a b => unitValues a ≤ unitValues b
    errors := s.errors }

end AssuranceLayer.BrowserCsv
