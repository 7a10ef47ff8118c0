import AssuranceLayer.Document

set_option autoImplicit false

/-!
The disclosure profile registry: what a leaf of a report's tree stands for, and what the report
must carry for the profile's statement to hold.
-/
namespace AssuranceLayer.Profile
open Fallible Amount Sums Document SortedMap

inductive LeafKind where
  | customer
  | entity
  | repoLeg
  | shareholder
  | settledTrade
  | attestedHolder
  | custodyPosition
deriving DecidableEq

def LeafKind.usesLeafV2 : LeafKind → Bool
  | .repoLeg | .shareholder | .settledTrade | .attestedHolder | .custodyPosition => true
  | .customer | .entity => false

structure Coverage where
  covering : String
  covered : String
deriving DecidableEq

structure ProfileRules where
  name : String
  leaf : LeafKind
  requiredAggregates : List String
  coverage : Option Coverage
  requiredLeafMaps : List String
  unanimousMaps : List String
deriving DecidableEq

def solvencyLiabilities : ProfileRules where
  name := "solvency.liabilities"
  leaf := .customer
  requiredAggregates := ["root_sums"]
  coverage := none
  requiredLeafMaps := []
  unanimousMaps := []

def solvencyGroup : ProfileRules where
  name := "solvency.group"
  leaf := .entity
  requiredAggregates := ["root_sums"]
  coverage := none
  requiredLeafMaps := []
  unanimousMaps := []

def collateralRepo : ProfileRules where
  name := "collateral.repo"
  leaf := .repoLeg
  requiredAggregates := ["collateral/*", "exposure/*"]
  coverage := some ⟨"collateral", "exposure"⟩
  requiredLeafMaps := []
  unanimousMaps := []

def fundNav : ProfileRules where
  name := "fund.nav"
  leaf := .shareholder
  requiredAggregates := ["units/*", "entitlement/*"]
  coverage := none
  requiredLeafMaps := []
  unanimousMaps := []

def settlementDvp : ProfileRules where
  name := "settlement.dvp"
  leaf := .settledTrade
  requiredAggregates := ["delivered/*", "paid/*"]
  coverage := none
  requiredLeafMaps := ["delivered", "paid"]
  unanimousMaps := []

def eligibilityHolder : ProfileRules where
  name := "eligibility.holder"
  leaf := .attestedHolder
  requiredAggregates := ["attested/*"]
  coverage := none
  requiredLeafMaps := ["attested"]
  unanimousMaps := ["attested"]

def coverageCustody : ProfileRules where
  name := "coverage.custody"
  leaf := .custodyPosition
  requiredAggregates := ["held/*"]
  coverage := none
  requiredLeafMaps := ["held"]
  unanimousMaps := []

def registry : List ProfileRules :=
  [solvencyLiabilities, solvencyGroup, collateralRepo, fundNav, settlementDvp, eligibilityHolder,
    coverageCustody]

def lookup (name : String) : Option ProfileRules := registry.find? fun rules => rules.name = name

inductive Violation where
  /-- "registry names an aggregate the verifier cannot check: {other}" -/
  | uncheckableAggregate (other : String)
  /-- "{aggregate} is required by this profile but the report carries none, so the statement would
      be vacuous" -/
  | missingAggregate (aggregate : String)
  /-- "{covering} of {held} does not cover {covered} of {required} for {asset}" -/
  | notCovered (covering : String) (held : U128) (covered : String) (required : U128) (asset : String)
  /-- "{key} totals {total} across {leaf_count} leaves; the profile asserts every leaf satisfies
      {rule}, which requires {expected}" -/
  | notUnanimous (key : String) (total : U128) (leafCount : U64) (rule : String) (expected : U128)
deriving DecidableEq

inductive ProfileError where
  | unknown (found : String)
  | violation (profile : String) (detail : Violation)
deriving DecidableEq

def qualifiedPrefix (aggregate : String) : Option String :=
  if "/*".toList.isSuffixOf aggregate.toList then some (String.ofList aggregate.toList.dropLast)
  else none

def checkAggregate (report : Report) (rules : ProfileRules) (aggregate : String) :
    Except ProfileError Unit := do
  let present ←
    if aggregate = "root_sums" then pure (!report.rootSums.isEmpty)
    else if aggregate = "mark_prices" then pure (!report.markPrices.isEmpty)
    else
      match qualifiedPrefix aggregate with
      | some pre => pure (report.rootSums.keys.any (startsWith pre))
      | none => .error (.violation rules.name (.uncheckableAggregate aggregate))
  ensure (present = true) (.violation rules.name (.missingAggregate aggregate))

/-- Per asset: a surplus in one asset does not excuse a shortfall in another. -/
def checkCoverage (report : Report) (rules : ProfileRules) (c : Coverage) : Except ProfileError Unit :=
  forM report.rootSums.entries fun e =>
    match stripPrefix (c.covered ++ "/") e.1 with
    | none => .ok ()
    | some asset =>
      let held := (report.rootSums.get? (c.covering ++ "/" ++ asset)).getD 0
      ensure (¬ held < e.2) (.violation rules.name (.notCovered c.covering held c.covered e.2 asset))

/-- `1` in fixed point, the value an indicator carries in every leaf. -/
def one : U128 := ⟨10 ^ 18, scale_lt⟩

def checkUnanimous (report : Report) (rules : ProfileRules) (mapName : String) :
    Except ProfileError Unit :=
  forM report.rootSums.entries fun e =>
    match stripPrefix (mapName ++ "/") e.1 with
    | none => .ok ()
    | some rule =>
      let expected := U128.saturatingMul (U128.ofU64 report.leafCount) one
      ensure (e.2 = expected)
        (.violation rules.name (.notUnanimous e.1 e.2 report.leafCount rule expected))

def validate (report : Report) : Except ProfileError ProfileRules := do
  let rules ← okOr (lookup report.profile) (.unknown report.profile)
  forM rules.requiredAggregates (checkAggregate report rules)
  forM rules.coverage.toList (checkCoverage report rules)
  forM rules.unanimousMaps (checkUnanimous report rules)
  return rules

theorem lookup_mem {name : String} {rules : ProfileRules} (h : lookup name = some rules) :
    rules ∈ registry ∧ rules.name = name := by
  have hname := List.find?_some h
  exact ⟨List.mem_of_find?_eq_some h, by simpa using hname⟩

theorem lookup_registry {name : String} {rules : ProfileRules} (hname : name = rules.name)
    (h : rules ∈ registry) : lookup name = some rules := by
  subst hname
  revert rules
  decide +kernel

def AggregatePresent (report : Report) (aggregate : String) : Prop :=
  if aggregate = "root_sums" then report.rootSums.isEmpty = false
  else if aggregate = "mark_prices" then report.markPrices.isEmpty = false
  else ∃ pre, qualifiedPrefix aggregate = some pre ∧
    ∃ k ∈ report.rootSums.keys, startsWith pre k = true

theorem checkAggregate_eq_ok {report : Report} {rules : ProfileRules} {aggregate : String} {u : Unit} :
    checkAggregate report rules aggregate = .ok u ↔ AggregatePresent report aggregate := by
  unfold checkAggregate AggregatePresent
  split_ifs with hroot hmark
  · simp
  · simp
  · cases qualifiedPrefix aggregate with
    | none => simp
    | some pre => simp

def Covered (report : Report) (c : Coverage) : Prop :=
  ∀ asset, amount report.rootSums (c.covered ++ "/" ++ asset) ≤
    amount report.rootSums (c.covering ++ "/" ++ asset)

theorem stripPrefix_eq_some {p s r : String} : stripPrefix p s = some r ↔ s = p ++ r := by
  rw [stripPrefix, Option.map_eq_some_iff]
  simp only [List.isPrefixOf?_eq_some_iff_append_eq]
  constructor
  · rintro ⟨l, hl, rfl⟩
    rw [← String.toList_inj, String.toList_append, String.toList_ofList, hl]
  · rintro rfl
    exact ⟨r.toList, (String.toList_append ..).symm, String.ofList_toList⟩

theorem checkCoverage_eq_ok {report : Report} {rules : ProfileRules} {c : Coverage} {u : Unit} :
    checkCoverage report rules c = .ok u ↔ Covered report c := by
  unfold checkCoverage Covered
  rw [forM_eq_ok]
  constructor
  · intro h asset
    cases hk : report.rootSums.get? (c.covered ++ "/" ++ asset) with
    | none => simp [amount, hk]
    | some v =>
      have hentry := h _ (get?_eq_some.mp hk)
      rw [stripPrefix_eq_some.mpr rfl] at hentry
      simp only [ensure_eq_ok, not_lt, Fin.le_def] at hentry
      rw [amount_of_get? hk]
      exact hentry
  · rintro h ⟨k, v⟩ he
    cases hs : stripPrefix (c.covered ++ "/") k with
    | none => rfl
    | some asset =>
      have hasset := h asset
      rw [stripPrefix_eq_some.mp hs, ← get?_eq_some] at he
      rw [amount_of_get? he] at hasset
      simp only [ensure_eq_ok, not_lt, Fin.le_def]
      exact hasset

def Unanimous (report : Report) (mapName : String) : Prop :=
  ∀ rule v, report.rootSums.get? (mapName ++ "/" ++ rule) = some v →
    v.val = report.leafCount.val * 10 ^ 18

theorem expected_val (n : U64) :
    (U128.saturatingMul (U128.ofU64 n) one).val = n.val * 10 ^ 18 := by
  have hn := n.isLt
  have hfit : n.val * 10 ^ 18 < 2 ^ 128 := by omega
  exact Nat.min_eq_left (Nat.le_sub_one_of_lt hfit)

theorem checkUnanimous_eq_ok {report : Report} {rules : ProfileRules} {mapName : String} {u : Unit} :
    checkUnanimous report rules mapName = .ok u ↔ Unanimous report mapName := by
  unfold checkUnanimous Unanimous
  rw [forM_eq_ok]
  constructor
  · intro h rule v hv
    have hentry := h _ (get?_eq_some.mp hv)
    rw [stripPrefix_eq_some.mpr rfl] at hentry
    simp only [ensure_eq_ok, Fin.ext_iff, expected_val] at hentry
    exact hentry
  · rintro h ⟨k, v⟩ he
    cases hs : stripPrefix (mapName ++ "/") k with
    | none => rfl
    | some rule =>
      rw [stripPrefix_eq_some.mp hs, ← get?_eq_some] at he
      simp only [ensure_eq_ok, Fin.ext_iff, expected_val]
      exact h rule v he

theorem validate_eq_ok {report : Report} {rules : ProfileRules} :
    validate report = .ok rules ↔ lookup report.profile = some rules ∧
      (∀ aggregate ∈ rules.requiredAggregates, AggregatePresent report aggregate) ∧
      (∀ c, rules.coverage = some c → Covered report c) ∧
      ∀ mapName ∈ rules.unanimousMaps, Unanimous report mapName := by
  simp only [validate, bind_eq_ok, okOr_eq_ok, forM_eq_ok, checkAggregate_eq_ok,
    checkCoverage_eq_ok, checkUnanimous_eq_ok, pure_eq_ok, Option.mem_toList]
  constructor
  · rintro ⟨rules', hlookup, _, haggregates, _, hcoverage, _, hunanimous, rfl⟩
    exact ⟨hlookup, haggregates, hcoverage, hunanimous⟩
  · rintro ⟨hlookup, haggregates, hcoverage, hunanimous⟩
    exact ⟨rules, hlookup, (), haggregates, (), hcoverage, (), hunanimous, rfl⟩

end AssuranceLayer.Profile
