import AssuranceLayer.FeeQuote
import AssuranceLayer.Primitives

set_option autoImplicit false

/-!
A fee schedule from the two documents of a Scan instance. The transfer configuration and the prices
of coins are searched for in whatever the documents wrap them in.
-/
namespace AssuranceLayer.Fee
open Fallible

/-! ## Documents -/

inductive Number where
  | posInt (n : UInt64)
  /-- Below zero. -/
  | negInt (n : Int64)
  /-- What is not an integer of 64 bits, as it is written out. -/
  | float (text : String)
  deriving DecidableEq

namespace Number

def text : Number → String
  | posInt n => toString n.toNat
  | negInt n => toString n.toInt
  | float text => text

def asI64 : Number → Option ℤ
  | posInt n => if n.toNat < 2 ^ 63 then some n.toNat else none
  | negInt n => some n.toInt
  | float _ => none

end Number

inductive Value where
  | null
  | bool (b : Bool)
  | number (n : Number)
  | string (s : String)
  | array (items : List Value)
  /-- Members in the order of their names. -/
  | object (entries : List (String × Value))

abbrev Members := List (String × Value)

def Members.get (o : Members) (key : String) : Option Value := o.lookup key

namespace Value

def get (v : Value) (key : String) : Option Value :=
  match v with
  | object o => Members.get o key
  | _ => none

def asArray : Value → Option (List Value)
  | array items => some items
  | _ => none

def asI64 : Value → Option ℤ
  | number n => n.asI64
  | _ => none

def asStr : Value → Option String
  | string s => some s
  | _ => none

mutual

/-- All objects of a document, each before those in it. -/
def objects : Value → List Members
  | object o => o :: objectsOfEntries o
  | array items => objectsOfItems items
  | _ => []

def objectsOfItems : List Value → List Members
  | [] => []
  | v :: items => objects v ++ objectsOfItems items

def objectsOfEntries : List (String × Value) → List Members
  | [] => []
  | (_, v) :: entries => objects v ++ objectsOfEntries entries

end

end Value

mutual

/-- Depth-first, for the first object that has the key. -/
def findKey (key : String) : Value → Option Value
  | .object o => (Members.get o key).or (findKeyInEntries key o)
  | .array items => findKeyInItems key items
  | _ => none

def findKeyInItems (key : String) : List Value → Option Value
  | [] => none
  | v :: items => (findKey key v).or (findKeyInItems key items)

def findKeyInEntries (key : String) : List (String × Value) → Option Value
  | [] => none
  | (_, v) :: entries => (findKey key v).or (findKeyInEntries key entries)

end

/-! ## Numbers -/

/-- What is used of the library of decimals. -/
structure Decimals where
  fromStr : String → Option ℚ
  toU64 : ℚ → Option UInt64

def magnitude (digits : List Char) : Option ℤ :=
  if digits ≠ [] ∧ digits.all isAsciiDigit then some (digitsValue digits) else none

/-- `str::parse` to a signed integer of 64 bits. -/
def parseI64 (s : String) : Option ℤ :=
  let n := match s.toList with
    | '-' :: digits => (magnitude digits).map Neg.neg
    | '+' :: digits => magnitude digits
    | digits => magnitude digits
  n.filter fun n => -2 ^ 63 ≤ n ∧ n < 2 ^ 63

section
variable (dec : Decimals)

def decimalOf : Value → Option ℚ
  | .string s => dec.fromStr (trim s)
  | .number n => dec.fromStr n.text
  | _ => none

/-! ## Prices -/

/-- The number of an object's round, in either place and either form. -/
def roundNumber (o : Members) : Option ℤ :=
  ((Members.get o "round").bind fun r => (r.get "number").or (some r)).bind fun n =>
    n.asI64.or (n.asStr.bind parseI64)

def amuletPrice (o : Members) : Option ℚ := (Members.get o "amuletPrice").bind (decimalOf dec)

/-- The newer of what was found and what is found, and of one number the later. -/
def newer (best : Option (ℤ × ℚ)) (found : ℤ × ℚ) : Option (ℤ × ℚ) :=
  if best.all (·.1 ≤ found.1) then some found else best

/-- A round without a readable number counts as -1. -/
def collectPrice (best : Option (ℤ × ℚ)) (o : Members) : Option (ℤ × ℚ) :=
  match amuletPrice dec o with
  | some price => newer best ((roundNumber o).getD (-1), price)
  | none => best

mutual

def collectPrices : Value → Option (ℤ × ℚ) → Option (ℤ × ℚ)
  | .object o, best => collectPricesInEntries o (collectPrice dec best o)
  | .array items, best => collectPricesInItems items best
  | _, best => best

def collectPricesInItems : List Value → Option (ℤ × ℚ) → Option (ℤ × ℚ)
  | [], best => best
  | v :: items, best => collectPricesInItems items (collectPrices v best)

def collectPricesInEntries : List (String × Value) → Option (ℤ × ℚ) → Option (ℤ × ℚ)
  | [], best => best
  | (_, v) :: entries, best => collectPricesInEntries entries (collectPrices v best)

end

def newestAmuletPrice (v : Value) : Option ℚ := (collectPrices dec v none).map Prod.snd

/-! ## The schedule -/

inductive FeeError where
  /-- Scan response has no `transferConfig` object -/
  | missingTransferConfig
  /-- Scan response has no `amuletPrice` -/
  | missingAmuletPrice
  /-- invalid decimal in Scan response at `{path}` -/
  | badDecimal (path : String)
  deriving DecidableEq

/-- The two parts of a step. -/
def stepParts : Value → Option (Value × Value)
  | .array [a, b] => some (a, b)
  | .object o => some ((Members.get o "_1").getD .null, (Members.get o "_2").getD .null)
  | _ => none

def readSteps : List Value → Except FeeError (List (ℚ × ℚ))
  | [] => .ok []
  | s :: rest =>
    match stepParts s with
    | none => readSteps rest
    | some (a, b) => do
      let a ← okOr (decimalOf dec a) (.badDecimal "transferFee.steps._1")
      let b ← okOr (decimalOf dec b) (.badDecimal "transferFee.steps._2")
      let steps ← readSteps rest
      return (a, b) :: steps

def stepItems (cfg : Value) : List Value :=
  (((cfg.get "transferFee").bind (·.get "steps")).bind Value.asArray).getD []

def decimalAt (cfg : Value) (path : List String) : Option ℚ :=
  decimalOf dec (path.foldl (fun cur p => (cur.get p).getD .null) cfg)

def readDecimal (cfg : Value) (path : List String) : Except FeeError ℚ :=
  okOr (decimalAt dec cfg path) (.badDecimal (".".intercalate path))

def fromScanJson (amuletRules miningRounds : Value) (source : String) : Except FeeError FeeSchedule := do
  let cfg ← okOr (findKey "transferConfig" amuletRules) .missingTransferConfig
  let steps ← readSteps dec (stepItems cfg)
  let amuletPrice ← okOr (newestAmuletPrice dec miningRounds) .missingAmuletPrice
  let minTopup := ((cfg.get "minTopupAmount").bind (decimalOf dec)).bind dec.toU64
  let extraTrafficPrice ← readDecimal dec cfg ["extraTrafficPrice"]
  let createFee ← readDecimal dec cfg ["createFee", "fee"]
  let holdingFee ← readDecimal dec cfg ["holdingFee", "rate"]
  let lockHolderFee ← readDecimal dec cfg ["lockHolderFee", "fee"]
  let initialRate ← readDecimal dec cfg ["transferFee", "initialRate"]
  return {
    traffic := {
      extraTrafficPriceUsdPerMb := extraTrafficPrice
      amuletPriceUsd := amuletPrice
      minTopupBytes := minTopup
      source }
    amulet := {
      createFeeUsd := createFee
      holdingFeeUsdPerRound := holdingFee
      lockHolderFeeUsd := lockHolderFee
      transferFeeInitialRate := initialRate
      transferFeeSteps := steps
      source } }

/-! ## What a schedule is to hold -/

def transferConfig (amuletRules : Value) : Option Value :=
  amuletRules.objects.findSome? (Members.get · "transferConfig")

/-- The elements of `transferFee.steps`. -/
def transferSteps (amuletRules : Value) : List Value := (transferConfig amuletRules).elim [] stepItems

/-- The objects that carry a price, readable or not. -/
def pricedRounds (miningRounds : Value) : List Members :=
  miningRounds.objects.filter fun o => (Members.get o "amuletPrice").isSome

/-- An element and the step it is read as. -/
def StepReads (item : Value) (step : ℚ × ℚ) : Prop :=
  ∃ a b, stepParts item = some (a, b) ∧ decimalOf dec a = some step.1 ∧ decimalOf dec b = some step.2

/-- Every element is a step, and the price is that of the newest of all rounds that carry one, in which no
price of the newest round is left unread. -/
structure Complete (amuletRules miningRounds : Value) (schedule : FeeSchedule) : Prop where
  steps : List.Forall₂ (StepReads dec) (transferSteps amuletRules) schedule.amulet.transferFeeSteps
  price : ∃ o ∈ pricedRounds miningRounds, ∃ n, roundNumber o = some n ∧
    amuletPrice dec o = some schedule.traffic.amuletPriceUsd ∧
    ∀ o' ∈ pricedRounds miningRounds, ∃ n', roundNumber o' = some n' ∧ n' ≤ n ∧
      (n' = n → (amuletPrice dec o').isSome)

/-- A schedule that is returned is complete. -/
def CompleteOrRefused (amuletRules miningRounds : Value) (source : String) : Prop :=
  ∀ schedule, fromScanJson dec amuletRules miningRounds source = .ok schedule →
    Complete dec amuletRules miningRounds schedule

/-- The members of the configuration without which there is no schedule. -/
def decimalPaths : List (List String) :=
  [["extraTrafficPrice"], ["createFee", "fee"], ["holdingFee", "rate"], ["lockHolderFee", "fee"],
    ["transferFee", "initialRate"]]

/-- What is looked at of the documents can be read. -/
structure Accepted (amuletRules miningRounds : Value) : Prop where
  config : ∃ cfg, transferConfig amuletRules = some cfg ∧ ∀ path ∈ decimalPaths, (decimalAt dec cfg path).isSome
  steps : ∀ item ∈ transferSteps amuletRules, ∀ parts ∈ stepParts item,
    (decimalOf dec parts.1).isSome ∧ (decimalOf dec parts.2).isSome
  price : ∃ o ∈ pricedRounds miningRounds, (amuletPrice dec o).isSome

/-- What is passed over is not there: no step of another shape, no price without a round number, no price
of the newest round that cannot be read. -/
structure NothingSkipped (amuletRules miningRounds : Value) : Prop where
  steps : ∀ item ∈ transferSteps amuletRules, (stepParts item).isSome
  numbers : ∀ o ∈ pricedRounds miningRounds, (roundNumber o).isSome
  newest : ∀ o ∈ pricedRounds miningRounds,
    (∀ o' ∈ pricedRounds miningRounds, (roundNumber o').getD (-1) ≤ (roundNumber o).getD (-1)) →
      (amuletPrice dec o).isSome

/-! ## The searches as folds over the objects of a document -/

section
variable (key : String)

mutual

theorem findKey_eq : ∀ v : Value, findKey key v = v.objects.findSome? (Members.get · key)
  | .object o => by
    rw [findKey, Value.objects, List.findSome?_cons, findKeyInEntries_eq o]
    cases Members.get o key <;> rfl
  | .array items => by rw [findKey, Value.objects, findKeyInItems_eq items]
  | .null => rfl
  | .bool _ => rfl
  | .number _ => rfl
  | .string _ => rfl

theorem findKeyInItems_eq : ∀ items : List Value,
    findKeyInItems key items = (Value.objectsOfItems items).findSome? (Members.get · key)
  | [] => rfl
  | v :: items => by
    rw [findKeyInItems, Value.objectsOfItems, List.findSome?_append, findKey_eq v, findKeyInItems_eq items]

theorem findKeyInEntries_eq : ∀ entries : List (String × Value),
    findKeyInEntries key entries = (Value.objectsOfEntries entries).findSome? (Members.get · key)
  | [] => rfl
  | (_, v) :: entries => by
    rw [findKeyInEntries, Value.objectsOfEntries, List.findSome?_append, findKey_eq v, findKeyInEntries_eq entries]

end

end

mutual

theorem collectPrices_eq : ∀ (v : Value) (best : Option (ℤ × ℚ)),
    collectPrices dec v best = v.objects.foldl (collectPrice dec) best
  | .object o, best => by
    rw [collectPrices, Value.objects, List.foldl_cons, collectPricesInEntries_eq o]
  | .array items, best => by rw [collectPrices, Value.objects, collectPricesInItems_eq items]
  | .null, _ => rfl
  | .bool _, _ => rfl
  | .number _, _ => rfl
  | .string _, _ => rfl

theorem collectPricesInItems_eq : ∀ (items : List Value) (best : Option (ℤ × ℚ)),
    collectPricesInItems dec items best = (Value.objectsOfItems items).foldl (collectPrice dec) best
  | [], _ => rfl
  | v :: items, best => by
    rw [collectPricesInItems, Value.objectsOfItems, List.foldl_append, collectPrices_eq v,
      collectPricesInItems_eq items]

theorem collectPricesInEntries_eq : ∀ (entries : List (String × Value)) (best : Option (ℤ × ℚ)),
    collectPricesInEntries dec entries best = (Value.objectsOfEntries entries).foldl (collectPrice dec) best
  | [], _ => rfl
  | (_, v) :: entries, best => by
    rw [collectPricesInEntries, Value.objectsOfEntries, List.foldl_append, collectPrices_eq v,
      collectPricesInEntries_eq entries]

end

/-! ## The price that is kept -/

/-- Nothing when no price was readable, else a readable one of the highest number. -/
def Newest (l : List Members) : Option (ℤ × ℚ) → Prop
  | none => ∀ o ∈ l, amuletPrice dec o = none
  | some (n, price) => (∃ o ∈ l, (roundNumber o).getD (-1) = n ∧ amuletPrice dec o = some price) ∧
      ∀ o ∈ l, (amuletPrice dec o).isSome → (roundNumber o).getD (-1) ≤ n

variable {dec}

theorem Newest.collect {l : List Members} {best : Option (ℤ × ℚ)} (h : Newest dec l best) (o : Members) :
    Newest dec (l ++ [o]) (collectPrice dec best o) := by
  rw [collectPrice]
  cases hprice : amuletPrice dec o with
  | none =>
    cases best with
    | none => exact List.forall_mem_append.mpr ⟨h, by simp [hprice]⟩
    | some b =>
      obtain ⟨⟨o', ho', hb⟩, hgreatest⟩ := h
      exact ⟨⟨o', List.mem_append_left _ ho', hb⟩,
        List.forall_mem_append.mpr ⟨hgreatest, by simp [hprice]⟩⟩
  | some price =>
    have ho : o ∈ l ++ [o] := List.mem_append_right _ List.mem_cons_self
    cases best with
    | none =>
      have hbefore : ∀ o' ∈ l, amuletPrice dec o' = none := h
      exact ⟨⟨o, ho, rfl, hprice⟩, List.forall_mem_append.mpr ⟨fun o' ho' => by simp [hbefore o' ho'], by simp⟩⟩
    | some b =>
      obtain ⟨⟨o', ho', hb⟩, hgreatest⟩ := h
      have hnewer : newer (some b) ((roundNumber o).getD (-1), price) =
          if b.1 ≤ (roundNumber o).getD (-1) then some ((roundNumber o).getD (-1), price) else some b := by
        simp [newer]
      change Newest dec (l ++ [o]) (newer (some b) _)
      rw [hnewer]
      split_ifs with hle
      · refine ⟨⟨o, ho, rfl, hprice⟩, List.forall_mem_append.mpr ⟨fun o'' ho'' hread => ?_, by simp⟩⟩
        exact (hgreatest o'' ho'' hread).trans hle
      · exact ⟨⟨o', List.mem_append_left _ ho', hb⟩,
          List.forall_mem_append.mpr ⟨hgreatest, by simpa using fun _ => (not_le.mp hle).le⟩⟩

theorem newest_foldl (l : List Members) : Newest dec l (l.foldl (collectPrice dec) none) := by
  induction l using List.reverseRecOn with
  | nil => exact fun o ho => by cases ho
  | append_singleton l o ih =>
    rw [List.foldl_append]
    exact ih.collect o

theorem mem_pricedRounds {miningRounds : Value} {o : Members} {price : ℚ} (ho : o ∈ miningRounds.objects)
    (hprice : amuletPrice dec o = some price) : o ∈ pricedRounds miningRounds := by
  refine List.mem_filter.mpr ⟨ho, ?_⟩
  rw [amuletPrice] at hprice
  cases h : Members.get o "amuletPrice" with
  | none => simp [h] at hprice
  | some v => rfl

theorem newestAmuletPrice_eq_none {miningRounds : Value} :
    newestAmuletPrice dec miningRounds = none ↔ ∀ o ∈ pricedRounds miningRounds, amuletPrice dec o = none := by
  have hnewest : Newest dec _ _ := newest_foldl miningRounds.objects
  rw [newestAmuletPrice, collectPrices_eq, Option.map_eq_none_iff]
  constructor
  · intro hnone o ho
    rw [hnone] at hnewest
    exact hnewest o (List.mem_of_mem_filter ho)
  · intro hnone
    cases hbest : miningRounds.objects.foldl (collectPrice dec) none with
    | none => rfl
    | some b =>
      rw [hbest] at hnewest
      obtain ⟨⟨o, ho, -, hprice⟩, -⟩ := hnewest
      rw [hnone o (mem_pricedRounds ho hprice)] at hprice
      cases hprice

/-- The price is a readable one of the highest number among the readable ones. -/
theorem newestAmuletPrice_eq_some {miningRounds : Value} {price : ℚ}
    (h : newestAmuletPrice dec miningRounds = some price) :
    ∃ o ∈ pricedRounds miningRounds, amuletPrice dec o = some price ∧
      ∀ o' ∈ pricedRounds miningRounds, (amuletPrice dec o').isSome →
        (roundNumber o').getD (-1) ≤ (roundNumber o).getD (-1) := by
  have hnewest : Newest dec _ _ := newest_foldl miningRounds.objects
  rw [newestAmuletPrice, collectPrices_eq] at h
  obtain ⟨b, hbest, rfl⟩ := Option.map_eq_some_iff.mp h
  rw [hbest] at hnewest
  obtain ⟨⟨o, ho, hn, hprice⟩, hgreatest⟩ := hnewest
  refine ⟨o, mem_pricedRounds ho hprice, hprice, fun o' ho' hread => ?_⟩
  rw [hn]
  exact hgreatest o' (List.mem_of_mem_filter ho') hread

/-! ## The steps that are read -/

theorem readSteps_of_none {s : Value} (h : stepParts s = none) (rest : List Value) :
    readSteps dec (s :: rest) = readSteps dec rest := by
  rw [readSteps, h]

theorem readSteps_of_some {s a b : Value} (h : stepParts s = some (a, b)) (rest : List Value) :
    readSteps dec (s :: rest) = do
      let a ← okOr (decimalOf dec a) (.badDecimal "transferFee.steps._1")
      let b ← okOr (decimalOf dec b) (.badDecimal "transferFee.steps._2")
      let steps ← readSteps dec rest
      return (a, b) :: steps := by
  rw [readSteps, h]

theorem exists_readSteps {items : List Value} : (∃ steps, readSteps dec items = .ok steps) ↔
    ∀ item ∈ items, ∀ parts ∈ stepParts item,
      (decimalOf dec parts.1).isSome ∧ (decimalOf dec parts.2).isSome := by
  induction items with
  | nil => simp [readSteps]
  | cons item items ih =>
    rw [List.forall_mem_cons, ← ih]
    cases hparts : stepParts item with
    | none => simp [readSteps_of_none hparts]
    | some parts =>
      obtain ⟨a, b⟩ := parts
      simp only [readSteps_of_some hparts, Option.mem_some_iff, forall_eq', Option.isSome_iff_exists, bind_eq_ok,
        okOr_eq_ok, pure_eq_ok]
      constructor
      · rintro ⟨_, x, hx, y, hy, steps, hsteps, -⟩
        exact ⟨⟨⟨x, hx⟩, y, hy⟩, steps, hsteps⟩
      · rintro ⟨⟨⟨x, hx⟩, y, hy⟩, steps, hsteps⟩
        exact ⟨_, x, hx, y, hy, steps, hsteps, rfl⟩

/-- Of elements of a known shape none is left out. -/
theorem readSteps_complete {items : List Value} {steps : List (ℚ × ℚ)} (h : readSteps dec items = .ok steps)
    (hshape : ∀ item ∈ items, (stepParts item).isSome) : List.Forall₂ (StepReads dec) items steps := by
  induction items generalizing steps with
  | nil =>
    cases h
    exact .nil
  | cons item items ih =>
    obtain ⟨hitem, hitems⟩ := List.forall_mem_cons.mp hshape
    obtain ⟨⟨a, b⟩, hparts⟩ := Option.isSome_iff_exists.mp hitem
    simp only [readSteps_of_some hparts, bind_eq_ok, okOr_eq_ok, pure_eq_ok] at h
    obtain ⟨x, hx, y, hy, rest, hrest, rfl⟩ := h
    exact .cons ⟨a, b, hparts, hx, hy⟩ (ih hrest hitems)

theorem stepParts_of_reads {items : List Value} {steps : List (ℚ × ℚ)}
    (h : List.Forall₂ (StepReads dec) items steps) : ∀ item ∈ items, (stepParts item).isSome := by
  intro item hitem
  obtain ⟨step, -, a, b, hparts, -⟩ := exists_of_forall₂ h hitem
  exact Option.isSome_of_eq_some hparts

/-! ## When a schedule is complete or refused -/

variable {amuletRules miningRounds : Value} {source : String}

theorem findKey_transferConfig : findKey "transferConfig" amuletRules = transferConfig amuletRules :=
  findKey_eq _ _

theorem transferSteps_eq {cfg : Value} (h : transferConfig amuletRules = some cfg) :
    transferSteps amuletRules = stepItems cfg := by
  rw [transferSteps, h]
  rfl

theorem fromScanJson_eq_ok {schedule : FeeSchedule}
    (h : fromScanJson dec amuletRules miningRounds source = .ok schedule) :
    readSteps dec (transferSteps amuletRules) = .ok schedule.amulet.transferFeeSteps ∧
      newestAmuletPrice dec miningRounds = some schedule.traffic.amuletPriceUsd := by
  simp only [fromScanJson, findKey_transferConfig, bind_eq_ok, okOr_eq_ok, pure_eq_ok] at h
  obtain ⟨cfg, hcfg, steps, hsteps, price, hprice, _, -, _, -, _, -, _, -, _, -, rfl⟩ := h
  exact ⟨by rw [transferSteps_eq hcfg, hsteps], hprice⟩

theorem exists_fromScanJson : (∃ schedule, fromScanJson dec amuletRules miningRounds source = .ok schedule) ↔
    Accepted dec amuletRules miningRounds := by
  have hprice : (∃ price, newestAmuletPrice dec miningRounds = some price) ↔
      ∃ o ∈ pricedRounds miningRounds, (amuletPrice dec o).isSome := by
    rw [← not_iff_not, not_exists, ← Option.eq_none_iff_forall_ne_some, newestAmuletPrice_eq_none]
    simp
  simp only [fromScanJson, readDecimal, findKey_transferConfig, bind_eq_ok, okOr_eq_ok, pure_eq_ok]
  constructor
  · rintro ⟨_, cfg, hcfg, steps, hsteps, price, hp, a, ha, b, hb, c, hc, d, hd, e, he, -⟩
    exact {
      config := ⟨cfg, hcfg, by simp [decimalPaths, ha, hb, hc, hd, he]⟩
      steps := exists_readSteps.mp ⟨steps, by rw [transferSteps_eq hcfg, hsteps]⟩
      price := hprice.mp ⟨price, hp⟩ }
  · rintro ⟨⟨cfg, hcfg, hpaths⟩, hitems, hpriced⟩
    obtain ⟨steps, hsteps⟩ := exists_readSteps.mpr hitems
    obtain ⟨price, hp⟩ := hprice.mpr hpriced
    simp only [decimalPaths, List.forall_mem_cons, Option.isSome_iff_exists] at hpaths
    obtain ⟨⟨a, ha⟩, ⟨b, hb⟩, ⟨c, hc⟩, ⟨d, hd⟩, ⟨e, he⟩, -⟩ := hpaths
    rw [transferSteps_eq hcfg] at hsteps
    exact ⟨_, cfg, hcfg, steps, hsteps, price, hp, a, ha, b, hb, c, hc, d, hd, e, he, rfl⟩

/-- With nothing passed over the price of the highest number is a readable one. -/
theorem complete_of_nothingSkipped {schedule : FeeSchedule} (hnothing : NothingSkipped dec amuletRules miningRounds)
    (h : fromScanJson dec amuletRules miningRounds source = .ok schedule) :
    Complete dec amuletRules miningRounds schedule := by
  obtain ⟨hsteps, hprice⟩ := fromScanJson_eq_ok h
  refine ⟨readSteps_complete hsteps hnothing.steps, ?_⟩
  obtain ⟨o, ho, hread, hgreatest⟩ := newestAmuletPrice_eq_some hprice
  -- a round of the highest number of all, which is readable as the newest
  obtain ⟨top, htop, hnewest⟩ := Set.exists_max_image {o | o ∈ pricedRounds miningRounds}
    (fun o => (roundNumber o).getD (-1)) (List.finite_toSet _) ⟨o, ho⟩
  have hle := hgreatest top htop (hnothing.newest top htop hnewest)
  obtain ⟨n, hn⟩ := Option.isSome_iff_exists.mp (hnothing.numbers o ho)
  refine ⟨o, ho, n, hn, hread, fun o' ho' => ?_⟩
  obtain ⟨n', hn'⟩ := Option.isSome_iff_exists.mp (hnothing.numbers o' ho')
  have hle' := (hnewest o' ho').trans hle
  rw [hn, hn'] at hle'
  refine ⟨n', hn', hle', fun heq => hnothing.newest o' ho' fun o'' ho'' => ?_⟩
  rw [hn', heq, ← Option.getD_some (a := n) (b := -1), ← hn]
  exact (hnewest o'' ho'').trans hle

theorem nothingSkipped_of_complete {schedule : FeeSchedule} (h : Complete dec amuletRules miningRounds schedule) :
    NothingSkipped dec amuletRules miningRounds := by
  obtain ⟨hsteps, o, ho, n, hn, -, hall⟩ := h
  refine ⟨stepParts_of_reads hsteps, fun o' ho' => ?_, fun o' ho' hnewest => ?_⟩
  · obtain ⟨n', hn', -⟩ := hall o' ho'
    exact Option.isSome_of_eq_some hn'
  · obtain ⟨n', hn', hle, hread⟩ := hall o' ho'
    have hge := hnewest o ho
    rw [hn, hn'] at hge
    exact hread (le_antisymm hle hge)

theorem not_completeOrRefused (hok : (fromScanJson dec amuletRules miningRounds source).isOk = true)
    (hskipped : ¬ NothingSkipped dec amuletRules miningRounds) :
    ¬ CompleteOrRefused dec amuletRules miningRounds source := by
  intro hcomplete
  obtain ⟨schedule, hschedule⟩ := exists_of_isOk hok
  exact hskipped (nothingSkipped_of_complete (hcomplete schedule hschedule))

/-- A schedule is complete or refused exactly if the documents are refused or hold nothing that is skipped. -/
theorem complete_or_refused_iff (dec : Decimals) (amuletRules miningRounds : Value) (source : String) :
    CompleteOrRefused dec amuletRules miningRounds source ↔
      (Accepted dec amuletRules miningRounds → NothingSkipped dec amuletRules miningRounds) := by
  constructor
  · intro hcomplete haccepted
    obtain ⟨schedule, hschedule⟩ := exists_fromScanJson.mpr haccepted
    exact nothingSkipped_of_complete (hcomplete schedule hschedule)
  · intro hnothing schedule hschedule
    exact complete_of_nothingSkipped (hnothing (exists_fromScanJson.mp ⟨schedule, hschedule⟩)) hschedule

end

/-! ## Documents of which parts are skipped -/

/-- Digits, and digits after a point. -/
def plainDecimal (s : String) : Option ℚ :=
  let (whole, fraction) := (splitOnce '.' s.toList).getD (s.toList, [])
  (magnitude (whole ++ fraction)).map fun n => n / 10 ^ fraction.length

def plainDecimals : Decimals where
  fromStr := plainDecimal
  toU64 x := if 0 ≤ x ∧ x < 2 ^ 64 then some (UInt64.ofNat ⌊x⌋.toNat) else none

def rulesOf (steps : List Value) : Value :=
  .object [("transferConfig", .object [
    ("createFee", .object [("fee", .string "0.03")]),
    ("extraTrafficPrice", .string "60.0"),
    ("holdingFee", .object [("rate", .string "0.0000190259")]),
    ("lockHolderFee", .object [("fee", .string "0.005")]),
    ("transferFee", .object [("initialRate", .string "0.01"), ("steps", .array steps)])])]

/-- Open rounds by their numbers and prices. -/
def roundsOf (rounds : List (String × String)) : Value :=
  .object [("open_mining_rounds", .array (rounds.map fun r =>
    .object [("amuletPrice", .string r.2), ("round", .object [("number", .string r.1)])]))]

/-- A step of one part is dropped; and where the price of the newest round, or its number, is no number,
the price of an older round is used. -/
theorem skipped_not_refused :
    ¬ CompleteOrRefused plainDecimals
      (rulesOf [.array [.string "100.0", .string "0.001"], .array [.string "1000.0"]])
      (roundsOf [("41", "0.004"), ("42", "0.0055")]) "scan:test" ∧
    ¬ CompleteOrRefused plainDecimals (rulesOf [.array [.string "100.0", .string "0.001"]])
      (roundsOf [("41", "0.004"), ("42", "n/a")]) "scan:test" ∧
    ¬ CompleteOrRefused plainDecimals (rulesOf [.array [.string "100.0", .string "0.001"]])
      (roundsOf [("41", "0.004"), ("n/a", "0.0055")]) "scan:test" := by
  refine ⟨not_completeOrRefused (by decide +kernel) fun h => ?_,
    not_completeOrRefused (by decide +kernel) fun h => ?_,
    not_completeOrRefused (by decide +kernel) fun h => ?_⟩
  · exact absurd h.steps (by decide +kernel)
  · exact absurd h.newest (by decide +kernel)
  · exact absurd h.numbers (by decide +kernel)

end AssuranceLayer.Fee
