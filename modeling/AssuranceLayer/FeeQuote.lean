import AssuranceLayer.TransferFee
import AssuranceLayer.Fallible

set_option autoImplicit false

/-!
A quote without a participant: the traffic of the bytes that are given, the fees of the amounts that
are given. Byte counts are 64-bit words; decimals are taken as exact.
-/
namespace AssuranceLayer.Fee
open Fallible

inductive Panic where
  /-- attempt to add with overflow -/
  | addOverflow
  deriving DecidableEq

/-- What `+` does with a sum that does not fit: the two ways the program can be compiled. -/
inductive Arithmetic where
  | checked
  | wrapping
  deriving DecidableEq

def Arithmetic.add : Arithmetic → UInt64 → UInt64 → Except Panic UInt64
  | checked, a, b => if a.toNat + b.toNat < 2 ^ 64 then .ok (a + b) else .error .addOverflow
  | wrapping, a, b => .ok (a + b)

/-! ## Traffic -/

structure TrafficCost where
  confirmationRequest : UInt64
  confirmationResponse : UInt64
  total : UInt64
  deriving DecidableEq

def TrafficCost.new (arith : Arithmetic) (confirmationRequest confirmationResponse : UInt64) :
    Except Panic TrafficCost := do
  let total ← arith.add confirmationRequest confirmationResponse
  return { confirmationRequest, confirmationResponse, total }

structure TrafficPricing where
  extraTrafficPriceUsdPerMb : ℚ
  amuletPriceUsd : ℚ
  minTopupBytes : Option UInt64
  source : String
  deriving DecidableEq

def TrafficPricing.spliceDefaults : TrafficPricing where
  extraTrafficPriceUsdPerMb := 60
  amuletPriceUsd := 5 / 1000
  minTopupBytes := none
  source := "splice-defaults"

structure TrafficQuote where
  cost : TrafficCost
  usd : ℚ
  cc : ℚ
  note : String
  pricing : TrafficPricing
  deriving DecidableEq

/-- Into coins at the price of one; nothing where coins have no price. -/
def inCc (usd amuletPriceUsd : ℚ) : ℚ := if amuletPriceUsd = 0 then 0 else roundDp 10 (usd / amuletPriceUsd)

def quoteTraffic (cost : TrafficCost) (pricing : TrafficPricing) : TrafficQuote :=
  let mb : ℚ := cost.total.toNat / 1000000
  let usd := roundDp 10 (mb * pricing.extraTrafficPriceUsdPerMb)
  { cost, usd
    cc := inCc usd pricing.amuletPriceUsd
    note := "Upper bound: participants receive a free base-rate traffic allowance; " ++
      "only traffic above it is paid from purchased extra traffic."
    pricing }

/-! ## Amulet fees -/

structure TransferOutput where
  amountCc : ℚ
  toSelf : Bool
  lockHolders : UInt32
  deriving DecidableEq

structure AmuletFeeQuote where
  amuletPriceUsd : ℚ
  transferFeeUsd : ℚ
  createFeeUsd : ℚ
  lockHolderFeeUsd : ℚ
  totalUsd : ℚ
  totalCc : ℚ
  outputs : ℕ
  scheduleSource : String
  deriving DecidableEq

/-- One output's part in the transfer fee and in the lock-holder fee. -/
def addOutput (schedule : AmuletFeeSchedule) (amuletPriceUsd : ℚ) (fees : ℚ × ℚ) (o : TransferOutput) : ℚ × ℚ :=
  (if o.toSelf then fees.1 else fees.1 + schedule.transferFeeUsd (o.amountCc * amuletPriceUsd),
    fees.2 + schedule.lockHolderFeeUsd * o.lockHolders.toNat)

def quoteAmuletTransfer (outputs : List TransferOutput) (schedule : AmuletFeeSchedule) (amuletPriceUsd : ℚ) :
    AmuletFeeQuote :=
  let (transferFee, lockFee) := outputs.foldl (addOutput schedule amuletPriceUsd) (0, 0)
  let createFee := schedule.createFeeUsd * outputs.length
  let totalUsd := roundDp 10 (transferFee + createFee + lockFee)
  { amuletPriceUsd
    transferFeeUsd := roundDp 10 transferFee
    createFeeUsd := createFee
    lockHolderFeeUsd := lockFee
    totalUsd
    totalCc := inCc totalUsd amuletPriceUsd
    outputs := outputs.length
    scheduleSource := schedule.source }

/-! ## Standalone quotes -/

structure FeeSchedule where
  traffic : TrafficPricing
  amulet : AmuletFeeSchedule
  deriving DecidableEq

def FeeSchedule.spliceDefaults : FeeSchedule := ⟨.spliceDefaults, .spliceDefaults⟩

structure StandaloneFeeQuote where
  traffic : Option TrafficQuote
  amuletFee : Option AmuletFeeQuote
  schedule : FeeSchedule
  deriving DecidableEq

def paidOutput (amountCc : ℚ) : TransferOutput := { amountCc, toSelf := false, lockHolders := 0 }

/-- What returns to the sender, who pays for its creation only. -/
def changeOutput : TransferOutput := { amountCc := 0, toSelf := true, lockHolders := 0 }

def quoteStandalone (arith : Arithmetic) (schedule : FeeSchedule) (requestBytes responseBytes : UInt64)
    (transferCc : List ℚ) : Except Panic (Option StandaloneFeeQuote) := do
  let bytes ← arith.add requestBytes responseBytes
  let traffic ← if 0 < bytes then
      (fun cost => some (quoteTraffic cost schedule.traffic)) <$> TrafficCost.new arith requestBytes responseBytes
    else pure none
  let amuletFee := if transferCc = [] then none else
    some (quoteAmuletTransfer (transferCc.map paidOutput ++ [changeOutput]) schedule.amulet
      schedule.traffic.amuletPriceUsd)
  return if traffic.isNone ∧ amuletFee.isNone then none else some { traffic, amuletFee, schedule }

/-- What the route answers: the quote, or the error of a bad request. -/
def fee (arith : Arithmetic) (schedule : FeeSchedule) (requestBytes responseBytes : UInt64) (transferCc : List ℚ) :
    Except Panic (Except String StandaloneFeeQuote) := do
  let quote ← quoteStandalone arith schedule requestBytes responseBytes transferCc
  return okOr quote "give request_bytes/response_bytes and/or transfer_cc"

/-- The quote has a part for every input that is given, none for one that is not, and misses no byte. -/
def CoversInputs (arith : Arithmetic) (schedule : FeeSchedule) (requestBytes responseBytes : UInt64)
    (transferCc : List ℚ) : Prop :=
  ∃ quote, quoteStandalone arith schedule requestBytes responseBytes transferCc = .ok quote ∧
    (quote = none ↔ (requestBytes = 0 ∧ responseBytes = 0) ∧ transferCc = []) ∧
    ∀ q ∈ quote,
      (q.traffic.isSome ↔ ¬ (requestBytes = 0 ∧ responseBytes = 0)) ∧
      (∀ t ∈ q.traffic, t.cost.total.toNat = requestBytes.toNat + responseBytes.toNat) ∧
      (q.amuletFee.isSome ↔ transferCc ≠ []) ∧
      ∀ a ∈ q.amuletFee, a.outputs = transferCc.length + 1

/-! ## What a quote adds up -/

theorem Arithmetic.add_of_fits (arith : Arithmetic) {a b : UInt64} (h : a.toNat + b.toNat < 2 ^ 64) :
    arith.add a b = .ok (a + b) := by
  cases arith with
  | checked => exact if_pos h
  | wrapping => rfl

theorem toNat_add_of_fits {a b : UInt64} (h : a.toNat + b.toNat < 2 ^ 64) :
    (a + b).toNat = a.toNat + b.toNat := by
  rw [UInt64.toNat_add, Nat.mod_eq_of_lt h]

theorem add_pos_iff {a b : UInt64} (h : a.toNat + b.toNat < 2 ^ 64) : 0 < a + b ↔ ¬ (a = 0 ∧ b = 0) := by
  rw [UInt64.lt_iff_toNat_lt, toNat_add_of_fits h, ← UInt64.toNat_inj, ← UInt64.toNat_inj, UInt64.toNat_zero]
  omega

theorem foldl_addOutput (schedule : AmuletFeeSchedule) (amuletPriceUsd : ℚ) (outputs : List TransferOutput)
    (fees : ℚ × ℚ) :
    outputs.foldl (addOutput schedule amuletPriceUsd) fees =
      (fees.1 + ((outputs.filter (!·.toSelf)).map fun o => schedule.transferFeeUsd (o.amountCc * amuletPriceUsd)).sum,
        fees.2 + schedule.lockHolderFeeUsd * (outputs.map (·.lockHolders.toNat)).sum) := by
  induction outputs generalizing fees with
  | nil => simp
  | cons o outputs ih =>
    rw [List.foldl_cons, ih, addOutput]
    cases hself : o.toSelf with
    | true => simp [hself, mul_add, add_assoc]
    | false => simp [hself, mul_add, add_assoc]

/-- Of the outputs of a standalone quote the transfer fee is paid on the given amounts, and the create
fee on these and the change. -/
theorem quote_of_amounts (schedule : AmuletFeeSchedule) (amuletPriceUsd : ℚ) (transferCc : List ℚ) :
    quoteAmuletTransfer (transferCc.map paidOutput ++ [changeOutput]) schedule amuletPriceUsd =
      let transferFee := (transferCc.map fun amountCc => schedule.transferFeeUsd (amountCc * amuletPriceUsd)).sum
      let createFee := schedule.createFeeUsd * (transferCc.length + 1)
      let totalUsd := roundDp 10 (transferFee + createFee)
      { amuletPriceUsd
        transferFeeUsd := roundDp 10 transferFee
        createFeeUsd := createFee
        lockHolderFeeUsd := 0
        totalUsd
        totalCc := inCc totalUsd amuletPriceUsd
        outputs := transferCc.length + 1
        scheduleSource := schedule.source } := by
  have hpaid : (transferCc.map paidOutput ++ [changeOutput]).filter (!·.toSelf) = transferCc.map paidOutput := by
    simp [List.filter_append, changeOutput, paidOutput]
  have hholders : ((transferCc.map paidOutput ++ [changeOutput]).map (·.lockHolders.toNat)).sum = 0 := by
    simp [changeOutput, paidOutput, Function.comp_def]
  rw [quoteAmuletTransfer, foldl_addOutput, hpaid, hholders]
  simp [paidOutput, Function.comp_def]

/-! ## Which inputs a quote covers -/

section Covered
variable {arith : Arithmetic} {schedule : FeeSchedule} {requestBytes responseBytes : UInt64} {transferCc : List ℚ}

theorem quoteStandalone_of_fits (h : requestBytes.toNat + responseBytes.toNat < 2 ^ 64) :
    quoteStandalone arith schedule requestBytes responseBytes transferCc =
      let cost := ⟨requestBytes, responseBytes, requestBytes + responseBytes⟩
      let traffic := if requestBytes = 0 ∧ responseBytes = 0 then none else some (quoteTraffic cost schedule.traffic)
      let amuletFee := if transferCc = [] then none else
        some (quoteAmuletTransfer (transferCc.map paidOutput ++ [changeOutput]) schedule.amulet
          schedule.traffic.amuletPriceUsd)
      .ok (if traffic.isNone ∧ amuletFee.isNone then none else some { traffic, amuletFee, schedule }) := by
  have hadd := arith.add_of_fits h
  rw [quoteStandalone, TrafficCost.new, hadd, ok_bind, ok_bind]
  by_cases hbytes : requestBytes = 0 ∧ responseBytes = 0
  · rw [if_neg (mt (add_pos_iff h).mp (not_not.mpr hbytes))]
    simp only [if_pos hbytes]
    rfl
  · rw [if_pos ((add_pos_iff h).mpr hbytes)]
    simp only [if_neg hbytes]
    rfl

theorem covers_of_fits (h : requestBytes.toNat + responseBytes.toNat < 2 ^ 64) :
    CoversInputs arith schedule requestBytes responseBytes transferCc := by
  refine ⟨_, quoteStandalone_of_fits h, ?_⟩
  by_cases hbytes : requestBytes = 0 ∧ responseBytes = 0
  · by_cases hamounts : transferCc = []
    · simp [hbytes, hamounts]
    · simp [hbytes, hamounts, quoteAmuletTransfer]
  · have htotal := toNat_add_of_fits h
    by_cases hamounts : transferCc = []
    · simp [hbytes, hamounts, quoteTraffic, htotal]
    · simp [hbytes, hamounts, quoteTraffic, htotal, quoteAmuletTransfer]

/-- A total that is exact is a word. -/
theorem fits_of_covers (h : CoversInputs arith schedule requestBytes responseBytes transferCc) :
    requestBytes.toNat + responseBytes.toNat < 2 ^ 64 := by
  obtain ⟨quote, -, hnone, hsome⟩ := h
  by_cases hbytes : requestBytes = 0 ∧ responseBytes = 0
  · rw [hbytes.1, hbytes.2]
    decide
  · obtain ⟨q, rfl⟩ := Option.ne_none_iff_exists'.mp (mt hnone.mp fun hempty => hbytes hempty.1)
    obtain ⟨htraffic, htotal, -⟩ := hsome q rfl
    obtain ⟨t, ht⟩ := Option.isSome_iff_exists.mp (htraffic.mpr hbytes)
    rw [← htotal t ht]
    exact t.cost.total.toNat_lt

/-- The route refuses an empty request, and no other. -/
theorem fee_refuses_iff (h : requestBytes.toNat + responseBytes.toNat < 2 ^ 64) :
    (∃ e, fee arith schedule requestBytes responseBytes transferCc = .ok (.error e)) ↔
      (requestBytes = 0 ∧ responseBytes = 0) ∧ transferCc = [] := by
  have hcovers : CoversInputs arith schedule requestBytes responseBytes transferCc := covers_of_fits h
  obtain ⟨quote, hquote, hnone, -⟩ := hcovers
  rw [fee, hquote, ← hnone]
  cases quote with
  | none => simp [okOr, pure, Except.pure]
  | some q => simp [okOr, pure, Except.pure]

end Covered

/-- A quote covers the inputs exactly if the two byte counts have a sum that is a word, however the
program is compiled. -/
theorem quote_covers_iff (arith : Arithmetic) (schedule : FeeSchedule) (requestBytes responseBytes : UInt64)
    (transferCc : List ℚ) :
    CoversInputs arith schedule requestBytes responseBytes transferCc ↔
      requestBytes.toNat + responseBytes.toNat < 2 ^ 64 :=
  ⟨fits_of_covers, covers_of_fits⟩

/-- A request of every byte a word can count and a response of one: the sum panics, or it is zero and
there is no quote. -/
theorem largest_request_not_covered :
    (¬ CoversInputs .checked .spliceDefaults (2 ^ 64 - 1) 1 [] ∧
      quoteStandalone .checked .spliceDefaults (2 ^ 64 - 1) 1 [] = .error .addOverflow) ∧
    ¬ CoversInputs .wrapping .spliceDefaults (2 ^ 64 - 1) 1 [] ∧
      quoteStandalone .wrapping .spliceDefaults (2 ^ 64 - 1) 1 [] = .ok none := by
  have hfits : ¬ ((2 ^ 64 - 1 : UInt64).toNat + (1 : UInt64).toNat < 2 ^ 64) := by decide +kernel
  exact ⟨⟨mt fits_of_covers hfits, by decide +kernel⟩, mt fits_of_covers hfits, by decide +kernel⟩

end AssuranceLayer.Fee
