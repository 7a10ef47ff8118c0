import AssuranceLayer.BrowserVerify
import AssuranceLayer.BrowserCoverage

set_option autoImplicit false

/-!
The disclosure designer: what a publisher is shown of a manifest before it is signed, and of what
changed since the one before.
-/
namespace AssuranceLayer.Designer
open Fallible Utf16 JavaScript
open Browser (Throws entriesOf isInherited isPositive knownFields)

/-! ## Words -/

inductive PageLocale where
  | en
  | zhCN
deriving DecidableEq

inductive DesignerKey where
  | statePublished
  | stateCommitted
  | stateWithheld
  | publishedNoData
  | publishesAnyway
  | noAudience
  | problemRow
  | warningReduced
  | notDeclaredAtAll
deriving DecidableEq

def messages : PageLocale → DesignerKey → String
  | .en, .statePublished => "published"
  | .en, .stateCommitted => "committed"
  | .en, .stateWithheld => "withheld"
  | .en, .publishedNoData => "declared published but the report carries no data for it"
  | .en, .publishesAnyway => "declared \x7bstate\x7d but the report publishes it anyway"
  | .en, .noAudience => "no audience named: a packaging is for someone in particular"
  | .en, .problemRow => "\x7bpath\x7d: \x7bproblem\x7d"
  | .en, .warningReduced => "\x7bpath\x7d was published and is now \x7bto\x7d"
  | .en, .notDeclaredAtAll => "not declared at all"
  | .zhCN, .statePublished => "已公开"
  | .zhCN, .stateCommitted => "仅承诺"
  | .zhCN, .stateWithheld => "不披露"
  | .zhCN, .publishedNoData => "声明为已公开，但报告中没有该字段的数据"
  | .zhCN, .publishesAnyway => "声明为\x7bstate\x7d，但报告仍然公开了它"
  | .zhCN, .noAudience => "未指明受众：打包总是面向特定对象的"
  | .zhCN, .problemRow => "\x7bpath\x7d：\x7bproblem\x7d"
  | .zhCN, .warningReduced => "\x7bpath\x7d 原本已公开，现在为\x7bto\x7d"
  | .zhCN, .notDeclaredAtAll => "完全未声明"

abbrev Params := List (JsString × JsString)

def unit (c : Char) : UInt16 := UInt16.ofNat c.toNat

/-- `\w`. -/
def isWord (u : UInt16) : Bool :=
  let c := unitChar u
  c.isAlphanum || c = '_'

/-- Fills the placeholders. The name after an open brace is kept aside until its brace closes; a
    placeholder without a value is left as it stands. -/
def interpolate (params : Params) : Option JsString → JsString → JsString
  | none, [] => []
  | some name, [] => unit '\x7b' :: name
  | none, u :: rest =>
    if u = unit '\x7b' then interpolate params (some []) rest else u :: interpolate params none rest
  | some name, u :: rest =>
    if isWord u then interpolate params (some (name ++ [u])) rest
    else if u = unit '\x7d' ∧ name ≠ [] then
      (params.lookup name).getD (unit '\x7b' :: name ++ [u]) ++ interpolate params none rest
    else if u = unit '\x7b' then unit '\x7b' :: name ++ interpolate params (some []) rest
    else unit '\x7b' :: name ++ u :: interpolate params none rest

def translated (locale : PageLocale) (key : DesignerKey) (params : Params) : JsString :=
  interpolate params none (ofString (messages locale key))

/-- The display label of a state, or the state itself when it is not one the format defines. -/
def stateLabel (locale : PageLocale) (state : Js) : Throws JsString :=
  if state.is (ofString "published") then .ok (translated locale .statePublished [])
  else if state.is (ofString "committed") then .ok (translated locale .stateCommitted [])
  else if state.is (ofString "withheld") then .ok (translated locale .stateWithheld [])
  else state.text

/-! ## The fields -/

structure FieldRow where
  path : JsString
  state : Js
  carriesData : Bool
  problem : Option JsString

/-- Whether the report body carries data for a manifest field. -/
def carriesData (report : Js) (path : JsString) : Throws Bool := do
  let disclosures := (← report.get "disclosures").orElse (.obj [])
  if path = ofString "root_sums" then return !(entriesOf (← report.get "root_sums")).isEmpty
  else if path = ofString "mark_prices" then return !(entriesOf (← report.get "mark_prices")).isEmpty
  else if path = ofString "disclosures.bad_debt" then
    return !(entriesOf (← disclosures.get "bad_debt")).isEmpty
  else if path = ofString "disclosures.excluded_house_accounts" then
    return isPositive (← ((← disclosures.get "excluded_house_accounts").orElse (.num (.finite 0))).toNumber)
  else if path = ofString "disclosures.excluded_house_totals" then
    return !(entriesOf (← disclosures.get "excluded_house_totals")).isEmpty
  -- Fields attested through the commitment rather than the body.
  else return false

def bodyFields : List String := [
  "root_sums",
  "mark_prices",
  "disclosures.bad_debt",
  "disclosures.excluded_house_accounts",
  "disclosures.excluded_house_totals"]

/-- `[...names].sort()`. -/
def sorted (names : List JsString) : List JsString :=
  names.insertionSort fun a b => unitValues a ≤ unitValues b

/-- `manifest?.name`. -/
def optionalProp (v : Js) (name : String) : Js := if v.isNullish then .undefined else v.prop name

/-- A manifest's field map, or an empty one if it is not a map. -/
def fieldsOf (manifest : Js) : List (JsString × Js) := entriesOf (optionalProp manifest "fields")

def problemOf (locale : PageLocale) (path : JsString) (state : Js) (has : Bool) : Throws (Option JsString) :=
  if path ∈ bodyFields.map ofString then
    if state.is (ofString "published") && !has then .ok (some (translated locale .publishedNoData []))
    else if !state.is (ofString "published") && has then do
      let label ← stateLabel locale state
      return some (translated locale .publishesAnyway [(ofString "state", label)])
    else .ok none
  else .ok none

/-- The state a field is shown with: the one declared, or `withheld`. No known field is a name that
    every object has. -/
def stateOf (manifest : Js) (path : JsString) : Js :=
  (((fieldsOf manifest).lookup path).getD .undefined).orElse (Js.string "withheld")

def designerRow (report manifest : Js) (locale : PageLocale) (path : JsString) : Throws FieldRow := do
  let state := stateOf manifest path
  let has ← carriesData report path
  let problem ← problemOf locale path state has
  return { path, state, carriesData := has, problem }

def designerRows (report manifest : Js) (locale : PageLocale) : Throws (List FieldRow) :=
  (sorted (knownFields.map ofString)).mapM (designerRow report manifest locale)

/-! ## The changes -/

/-- `fields[path] ?? null`: a state, what every object has under the name, or null. -/
inductive FieldState where
  | given (v : Js)
  | inherited
  | null

def fieldState (fields : List (JsString × Js)) (path : JsString) : FieldState :=
  match fields.lookup path with
  | some v => if v.isNullish then .null else .given v
  | none => if isInherited path then .inherited else .null

/-- `===`, of two states of one path. -/
def FieldState.same : FieldState → FieldState → Bool
  | .given v, .given w => v.strictEq w
  | .inherited, .inherited | .null, .null => true
  | _, _ => false

def FieldState.isPublished : FieldState → Bool
  | .given v => v.is (ofString "published")
  | _ => false

structure ChangeRow where
  path : JsString
  before : FieldState
  after : FieldState
  reduction : Bool

def changeRow (before after : List (JsString × Js)) (path : JsString) : Option ChangeRow :=
  let was := fieldState before path
  let state := fieldState after path
  if was.same state then none
  else some ⟨path, was, state, was.isPublished && !state.isPublished⟩

def changeRows (previous next : Js) : List ChangeRow :=
  if previous.truthy = false then []
  else
    let before := fieldsOf previous
    let after := fieldsOf next
    (sorted (before.map Prod.fst ++ after.map Prod.fst).eraseDups).filterMap (changeRow before after)

/-! ## The whole view -/

structure AudiencePreview where
  audience : Js
  shown : List JsString
  provenOnly : List JsString
  withheld : List JsString

def byState (fields : List (JsString × Js)) (want : String) : List JsString :=
  sorted ((fields.map Prod.fst).filter fun path =>
    match fields.lookup path with
    | some v => v.is (ofString want)
    | none => false)

/-- Exactly what this audience will and will not be shown. -/
def previewFor (manifest : Js) : AudiencePreview where
  audience := optionalProp manifest "audience"
  shown := byState (fieldsOf manifest) "published"
  provenOnly := byState (fieldsOf manifest) "committed"
  withheld := byState (fieldsOf manifest) "withheld"

/-- `fields`, `changes` and `preview` for the screen, `problems` that a verifier would reject the
    report for, and `warnings`, which reject nothing. -/
structure DesignerModel where
  fields : List FieldRow
  changes : List ChangeRow
  preview : AudiencePreview
  problems : List JsString
  warnings : List JsString

/-- A text that is not empty. -/
def FieldRow.problem? (row : FieldRow) : Option JsString := row.problem.filter (· ≠ [])

def isNamed : Js → Bool
  | .str s => Browser.trim s ≠ []
  | _ => false

-- What is printed of a property that every object has, by its name.
variable (inheritedText : JsString → JsString)

def warningOf (locale : PageLocale) (row : ChangeRow) : Throws (Option JsString) :=
  if !row.reduction then .ok none
  else do
    let label ← match row.after with
      | .null => .ok (translated locale .notDeclaredAtAll [])
      | .given state => stateLabel locale state
      | .inherited => .ok (inheritedText row.path)
    return some (translated locale .warningReduced [(ofString "path", row.path), (ofString "to", label)])

def buildDesigner (report manifest previous : Js) (locale : PageLocale) : Throws DesignerModel := do
  let fields ← designerRows report manifest locale
  let changes := changeRows previous manifest
  let problems := fields.filterMap fun row => row.problem?.map fun problem =>
    translated locale .problemRow [(ofString "path", row.path), (ofString "problem", problem)]
  let audience := if isNamed (optionalProp manifest "audience") then [] else [translated locale .noAudience []]
  let warnings ← changes.mapM (warningOf inheritedText locale)
  return {
    fields, changes
    preview := previewFor manifest
    problems := problems ++ audience
    warnings := warnings.filterMap id }

end AssuranceLayer.Designer
