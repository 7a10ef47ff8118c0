import AssuranceLayer.Completeness

set_option autoImplicit false

/-!
The custody side of a coverage claim: the holdings a participant reports, and the report that
commits them.
-/
namespace AssuranceLayer.Custody
open Fallible Amount Sums Merkle Document Sign Produce Completeness SortedMap

/-! ## Reading a participant's response -/

/-- A parsed response. Nothing here reads a number, so what numbers are is left open. -/
inductive Value (ν : Type) where
  | null
  | bool (b : Bool)
  | number (n : ν)
  | string (s : String)
  | array (items : List (Value ν))
  | object (entries : List (String × Value ν))

variable {ν : Type}

def Value.get (name : String) : Value ν → Option (Value ν)
  | .object entries => entries.lookup name
  | _ => none

def Value.asStr : Value ν → Option String
  | .string s => some s
  | _ => none

/-- None of the names below is a number, so a pointer does not go through an array. -/
def Value.pointer (tokens : List String) (value : Value ν) : Option (Value ν) :=
  tokens.foldlM (fun v token => v.get token) value

structure CustodyPosition where
  /-- The leaf subject, so each position is individually provable. -/
  contractId : String
  asset : String
  amount : U128
deriving DecidableEq

/-- Which fields of a holding's `createArgument` carry the asset and the amount. -/
structure HoldingFields where
  asset : String
  amount : String
deriving DecidableEq

inductive HoldingsFailure where
  /-- "parsing the participant's response" -/
  | unparsable
  /-- "a v2 active-contracts response is a JSON array" -/
  | notAnArray
  /-- "entry has no contractEntry.JsActiveContract.createdEvent" -/
  | noCreatedEvent
  /-- "createdEvent has no contractId" -/
  | noContractId
  /-- "contract {contract_id} appears twice in one snapshot" -/
  | appearsTwice (contractId : String)
  /-- "contract {contract_id} has no createArgument" -/
  | noCreateArgument (contractId : String)
  /-- "contract {contract_id} has no {}" -/
  | noAsset (contractId field : String)
  /-- "contract {contract_id} has no {}, or it is not a string" -/
  | noAmount (contractId field : String)
  /-- "amount for contract {contract_id}" -/
  | badAmount (contractId : String) (e : AmountError)
  /-- "custody total for {} overflows" -/
  | totalOverflows (asset : String)
deriving DecidableEq

def createdEventPath : List String := ["contractEntry", "JsActiveContract", "createdEvent"]

def readItem (fields : HoldingFields) (seen : List String) (item : Value ν) :
    Except HoldingsFailure CustodyPosition := do
  let created ← okOr (item.pointer createdEventPath) .noCreatedEvent
  let contractId ← okOr ((created.get "contractId").bind Value.asStr) .noContractId
  -- A repeated contract id would count a position twice.
  ensure (contractId ∉ seen) (.appearsTwice contractId)
  let arguments ← okOr (created.get "createArgument") (.noCreateArgument contractId)
  let asset ← okOr ((arguments.get fields.asset).bind Value.asStr) (.noAsset contractId fields.asset)
  let raw ← okOr ((arguments.get fields.amount).bind Value.asStr) (.noAmount contractId fields.amount)
  let amount ← (parseAmount18dp raw).mapError (.badAmount contractId)
  return ⟨contractId, asset, amount⟩

def readItems (fields : HoldingFields) (seen : List String) :
    List (Value ν) → Except HoldingsFailure (List CustodyPosition)
  | [] => return []
  | item :: items => do
    let position ← readItem fields seen item
    let positions ← readItems fields (position.contractId :: seen) items
    return position :: positions

def parseHoldings (fromStr : String → Option (Value ν)) (body : String) (fields : HoldingFields) :
    Except HoldingsFailure (List CustodyPosition) := do
  let parsed ← okOr (fromStr body) .unparsable
  match parsed with
  | .array items => readItems fields [] items
  | _ => .error .notAnArray

def totals (positions : List CustodyPosition) : Except HoldingsFailure AmountMap :=
  positions.foldlM (fun out position => addEntry .totalOverflows out (position.asset, position.amount)) empty

/-- The position an entry of the response describes. -/
structure Describes (fields : HoldingFields) (item : Value ν) (position : CustodyPosition)
    (created arguments : Value ν) (raw : String) : Prop where
  event : item.pointer createdEventPath = some created
  contractId : created.get "contractId" = some (.string position.contractId)
  createArgument : created.get "createArgument" = some arguments
  asset : arguments.get fields.asset = some (.string position.asset)
  amountText : arguments.get fields.amount = some (.string raw)
  amount : parseAmount18dp raw = .ok position.amount

theorem bind_asStr {v : Option (Value ν)} {s : String} : v.bind Value.asStr = some s ↔ v = some (.string s) := by
  rw [Option.bind_eq_some_iff]
  constructor
  · rintro ⟨w, rfl, hw⟩
    cases w with
    | string t => rw [Option.some.inj hw]
    | _ => cases hw
  · rintro rfl
    exact ⟨_, rfl, rfl⟩

theorem readItem_eq_ok {fields : HoldingFields} {seen : List String} {item : Value ν} {position : CustodyPosition} :
    readItem fields seen item = .ok position ↔ position.contractId ∉ seen ∧
      ∃ created arguments raw, Describes fields item position created arguments raw := by
  simp only [readItem, bind_eq_ok, okOr_eq_ok, ensure_eq_ok, pure_eq_ok, mapError_eq_ok, bind_asStr]
  constructor
  · rintro ⟨created, hcreated, contractId, hid, _, hfresh, arguments, harguments, asset, hasset, raw, hraw,
      amount, hamount, rfl⟩
    exact ⟨hfresh, created, arguments, raw, hcreated, hid, harguments, hasset, hraw, hamount⟩
  · rintro ⟨hfresh, created, arguments, raw, h⟩
    exact ⟨created, h.event, _, h.contractId, (), hfresh, arguments, h.createArgument, _, h.asset, raw, h.amountText, _,
      h.amount, rfl⟩

theorem readItems_eq_ok {fields : HoldingFields} {seen : List String} {items : List (Value ν)}
    {positions : List CustodyPosition} : readItems fields seen items = .ok positions ↔
      List.Forall₂ (fun item position => ∃ created arguments raw,
        Describes fields item position created arguments raw) items positions ∧
      (positions.map CustodyPosition.contractId).Nodup ∧ ∀ p ∈ positions, p.contractId ∉ seen := by
  induction items generalizing seen positions with
  | nil =>
    rw [readItems, pure_eq_ok, List.forall₂_nil_left_iff]
    constructor
    · rintro rfl
      simp
    · rintro ⟨rfl, _⟩
      rfl
  | cons item items ih =>
    simp only [readItems, bind_eq_ok, readItem_eq_ok, ih, pure_eq_ok, List.forall₂_cons_left_iff]
    constructor
    · rintro ⟨position, ⟨hfresh, hdescribes⟩, rest, ⟨hrest, hnodup, hseen⟩, rfl⟩
      refine ⟨⟨position, rest, hdescribes, hrest, rfl⟩, ?_, ?_⟩
      · rw [List.map_cons, List.nodup_cons]
        refine ⟨fun hmem => ?_, hnodup⟩
        obtain ⟨p, hp, heq⟩ := List.mem_map.mp hmem
        exact hseen p hp (heq ▸ List.mem_cons_self)
      · rw [List.forall_mem_cons]
        exact ⟨hfresh, fun p hp hmem => hseen p hp (List.mem_cons_of_mem _ hmem)⟩
    · rintro ⟨⟨position, rest, hdescribes, hrest, rfl⟩, hnodup, hseen⟩
      rw [List.map_cons, List.nodup_cons] at hnodup
      rw [List.forall_mem_cons] at hseen
      refine ⟨position, ⟨hseen.1, hdescribes⟩, rest, ⟨hrest, hnodup.2, fun p hp hmem => ?_⟩, rfl⟩
      obtain heq | hmem := List.mem_cons.mp hmem
      · exact hnodup.1 (heq ▸ List.mem_map_of_mem hp)
      · exact hseen.2 p hp hmem

/-- One position an entry, in the order of the entries, and no contract twice. -/
theorem parseHoldings_eq_ok {fromStr : String → Option (Value ν)} {body : String} {fields : HoldingFields}
    {positions : List CustodyPosition} : parseHoldings fromStr body fields = .ok positions ↔
      ∃ items, fromStr body = some (.array items) ∧
        List.Forall₂ (fun item position => ∃ created arguments raw,
          Describes fields item position created arguments raw) items positions ∧
        (positions.map CustodyPosition.contractId).Nodup := by
  simp only [parseHoldings, bind_eq_ok, okOr_eq_ok]
  constructor
  · rintro ⟨parsed, hparsed, h⟩
    cases parsed with
    | array items =>
      obtain ⟨hitems, hnodup, _⟩ := readItems_eq_ok.mp h
      exact ⟨items, hparsed, hitems, hnodup⟩
    | _ => cases h
  · rintro ⟨items, hparsed, hitems, hnodup⟩
    exact ⟨_, hparsed, readItems_eq_ok.mpr ⟨hitems, hnodup, by simp⟩⟩

/-! ## The report -/

inductive CustodyFailure where
  /-- "no custody positions: an empty book is not a coverage claim" -/
  | noPositions
  /-- "custody read is pinned to offset {} but the liabilities snapshot is at {}; a coverage claim
      across two instants compares different days" -/
  | otherInstant (ledgerOffset snapshotOffset : String)
  /-- "a custody report must declare coverage.custody, got {:?}" -/
  | notCustody (profile : String)
  | publish (e : PublishError)
deriving DecidableEq

variable (sha256 : List UInt8 → Digest) (ed : Ed25519)

def positionLeaf (masterSalt : List UInt8) (position : CustodyPosition) : LeafInputV2 where
  salt := leafSalt sha256 masterSalt position.contractId
  subjectId := position.contractId
  maps := ofList [("held", ofList [(position.asset, position.amount)])]

def contractOrder (a b : CustodyPosition) : Prop := a.contractId ≤ b.contractId

instance : DecidableRel contractOrder := fun a b => inferInstanceAs (Decidable (a.contractId ≤ b.contractId))

instance : IsTrans CustodyPosition contractOrder := ⟨fun _ _ _ => le_trans (α := String)⟩

instance : Std.Total contractOrder := ⟨fun a b => le_total a.contractId b.contractId⟩

def buildCustodyReport (positions : List CustodyPosition) (metadata : ReportMetadata)
    (snapshotOffset : String) (masterSalt : List UInt8) (signer : ReportSigner) :
    Except CustodyFailure SignedReport := do
  ensure (positions.isEmpty = false) .noPositions
  ensure (metadata.ledgerOffset = snapshotOffset) (.otherInstant metadata.ledgerOffset snapshotOffset)
  ensure (metadata.profile = "coverage.custody") (.notCustody metadata.profile)
  -- In contract-id order, whatever the order the participant returned the rows in.
  let leaves := (positions.insertionSort contractOrder).map (positionLeaf sha256 masterSalt)
  let publication ← (publishV2 sha256 ed leaves metadata signer).mapError .publish
  return publication.signedReport

variable {sha256 ed} {positions : List CustodyPosition} {metadata : ReportMetadata} {snapshotOffset : String}
  {masterSalt : List UInt8} {signer : ReportSigner}

theorem sorted_perm {positions' : List CustodyPosition} (h : positions'.Perm positions)
    (hdistinct : (positions.map CustodyPosition.contractId).Nodup) :
    positions'.insertionSort contractOrder = positions.insertionSort contractOrder := by
  have hperm := (List.perm_insertionSort contractOrder positions').trans
    (h.trans (List.perm_insertionSort contractOrder positions).symm)
  refine hperm.eq_of_pairwise (fun a b ha hb hab hba => ?_) (List.pairwise_insertionSort _ _)
    (List.pairwise_insertionSort _ _)
  refine List.inj_on_of_nodup_map hdistinct ?_ ?_ (le_antisymm hab hba)
  · exact h.subset ((List.perm_insertionSort _ _).subset ha)
  · exact (List.perm_insertionSort _ _).subset hb

theorem buildCustodyReport_perm {positions' : List CustodyPosition} (h : positions'.Perm positions)
    (hdistinct : (positions.map CustodyPosition.contractId).Nodup) :
    buildCustodyReport sha256 ed positions' metadata snapshotOffset masterSalt signer =
      buildCustodyReport sha256 ed positions metadata snapshotOffset masterSalt signer := by
  rw [buildCustodyReport, buildCustodyReport, sorted_perm h hdistinct, h.isEmpty_eq]

/-! ## What the report says -/

/-- What each position adds to the total of its asset. -/
def entered (positions : List CustodyPosition) : List (String × U128) :=
  positions.map fun position => (position.asset, position.amount)

/-- The totals as a report of the `held` map carries them. -/
def heldSums (totals : AmountMap) : AmountMap :=
  ofList (totals.entries.map fun e => (qualified "held" e.1, e.2))

/-- A report that commits exactly these positions. -/
structure Commits (positions : List CustodyPosition) (report : Report) (total : AmountMap) : Prop where
  totals : totals positions = .ok total
  assets : ∀ a, a ∈ total.keys ↔ ∃ p ∈ positions, p.asset = a
  exact : ∀ a, amount total a = entryTotal a (entered positions)
  rootSums : report.rootSums = heldSums total
  leafCount : report.leafCount.val = positions.length

theorem qualified_right_inj {m a b : String} : qualified m a = qualified m b ↔ a = b := by
  refine ⟨fun h => ?_, congrArg _⟩
  have htexts := congrArg String.toList h
  rw [qualified_toList, qualified_toList] at htexts
  exact String.toList_inj.mp (List.cons_inj_right _ |>.mp (List.append_cancel_left htexts))

theorem entryTotal_qualified (m a : String) (l : List (String × U128)) :
    entryTotal (qualified m a) (l.map fun e => (qualified m e.1, e.2)) = entryTotal a l := by
  simp only [entryTotal, List.map_map, Function.comp_def, qualified_right_inj]

theorem mem_heldSums_keys {total : AmountMap} {k : String} :
    k ∈ (heldSums total).keys ↔ ∃ a ∈ total.keys, qualified "held" a = k := by
  rw [heldSums, keys_ofList, List.map_map, keys]
  simp only [List.mem_map, Function.comp, exists_exists_and_eq_and]

theorem amount_heldSums (total : AmountMap) (a : String) :
    amount (heldSums total) (qualified "held" a) = amount total a := by
  have hnodup : ((total.entries.map fun e => (qualified "held" e.1, e.2)).map Prod.fst).Nodup := by
    rw [List.map_map]
    have hkeys := total.keys_nodup.map fun a b => (qualified_right_inj (m := "held")).mp
    rwa [keys, List.map_map] at hkeys
  rw [← entryTotal_entries, heldSums, entryTotal_perm (entries_ofList_perm hnodup), entryTotal_qualified,
    entryTotal_entries]

theorem flatten_position (p : CustodyPosition) :
    flatten (positionLeaf sha256 masterSalt p).maps = ofList [(qualified "held" p.asset, p.amount)] := rfl

theorem totals_eq : totals positions = (entered positions).foldlM (addEntry .totalOverflows) empty := by
  rw [entered, List.foldlM_map, totals]

theorem totals_keys {total : AmountMap} (h : totals positions = .ok total) (a : String) :
    a ∈ total.keys ↔ ∃ p ∈ positions, p.asset = a := by
  rw [totals_eq] at h
  rw [addEntries_keys h, entered, List.map_map]
  simp only [List.mem_map, Function.comp]
  exact or_iff_right List.not_mem_nil

theorem totals_amount {total : AmountMap} (h : totals positions = .ok total) (a : String) :
    amount total a = entryTotal a (entered positions) := by
  rw [totals_eq] at h
  rw [addEntries_amount h, amount_empty, Nat.zero_add]

theorem totals_perm {positions' : List CustodyPosition} (h : positions'.Perm positions) {total : AmountMap}
    (htotal : totals positions' = .ok total) : totals positions = .ok total := by
  have hentered := entryTotal_perm (h.map fun p => (p.asset, p.amount))
  obtain ⟨other, hother⟩ : ∃ other, totals positions = .ok other := by
    rw [totals_eq]
    refine addEntries_total fun a => ?_
    rw [amount_empty, Nat.zero_add, entered, ← hentered, ← entered, ← totals_amount htotal]
    exact amount_lt _ _
  rw [hother]
  refine congrArg _ (ext_amount (fun a => ?_) fun a _ => ?_)
  · rw [totals_keys hother, totals_keys htotal]
    simp only [h.mem_iff]
  · rw [totals_amount hother, totals_amount htotal]
    exact (hentered a).symm

section
variable {pub : PublicationV2} {nodes : List Node} {tree : SumTree sha256}
  (h : Published sha256 ed (inputNodeV2 sha256) proofDocumentV2 (positions.map (positionLeaf sha256 masterSalt))
    metadata signer pub nodes tree)
include h

theorem mem_published_keys {k : String} : k ∈ pub.signedReport.report.rootSums.keys ↔
    ∃ p ∈ positions, qualified "held" p.asset = k := by
  rw [rootSums_keys h fun _ _ hn => (inputNodeV2_eq_ok hn).2]
  simp only [List.mem_map, exists_exists_and_eq_and, flatten_position, keys_ofList, List.map_singleton,
    List.mem_singleton, @eq_comm _ k]

theorem published_amount (a : String) :
    amount pub.signedReport.report.rootSums (qualified "held" a) = entryTotal a (entered positions) := by
  rw [rootSums_amount h fun _ _ hn => (inputNodeV2_eq_ok hn).2, List.map_map,
    ← entryTotal_qualified "held", entryTotal, entered, List.map_map, List.map_map]
  congr 1
  refine List.map_congr_left fun p _ => ?_
  exact amount_insert empty (qualified "held" p.asset) (qualified "held" a) p.amount

/-- No total overflows when the tree has been built, since every total is a sum of the root. -/
theorem published_totals : ∃ total, totals positions = .ok total ∧
    pub.signedReport.report.rootSums = heldSums total := by
  obtain ⟨total, htotal⟩ : ∃ total, totals positions = .ok total := by
    rw [totals_eq]
    refine addEntries_total fun a => ?_
    rw [amount_empty, Nat.zero_add, ← published_amount h]
    exact amount_lt _ _
  refine ⟨total, htotal, ext_amount (fun k => ?_) fun k hk => ?_⟩
  · rw [mem_published_keys h, mem_heldSums_keys]
    simp only [totals_keys htotal, exists_exists_and_eq_and]
  · obtain ⟨a, _, rfl⟩ := mem_heldSums_keys.mp hk
    rw [published_amount h, amount_heldSums, totals_amount htotal]

end

theorem buildCustodyReport_published {signed : SignedReport}
    (h : buildCustodyReport sha256 ed positions metadata snapshotOffset masterSalt signer = .ok signed) :
    ∃ (pub : PublicationV2) (nodes : List Node) (tree : SumTree sha256), pub.signedReport = signed ∧
      Published sha256 ed (inputNodeV2 sha256) proofDocumentV2
        ((positions.insertionSort contractOrder).map (positionLeaf sha256 masterSalt)) metadata signer pub
        nodes tree := by
  simp only [buildCustodyReport, bind_eq_ok, ensure_eq_ok, mapError_eq_ok, pure_eq_ok] at h
  obtain ⟨_, _, _, _, _, _, pub, hpub, rfl⟩ := h
  obtain ⟨nodes, tree, hpublished⟩ := publishWith_published hpub
  exact ⟨pub, nodes, tree, rfl, hpublished⟩

theorem buildCustodyReport_commits (hlen : positions.length < 2 ^ 64) {signed : SignedReport}
    (h : buildCustodyReport sha256 ed positions metadata snapshotOffset masterSalt signer = .ok signed) :
    ∃ total, Commits positions signed.report total := by
  obtain ⟨pub, nodes, tree, rfl, hpublished⟩ := buildCustodyReport_published h
  have hperm := List.perm_insertionSort contractOrder positions
  obtain ⟨total, hsorted, hroot⟩ := published_totals hpublished
  have htotal := totals_perm hperm hsorted
  refine ⟨total, htotal, totals_keys htotal, totals_amount htotal, hroot, ?_⟩
  rw [leafCount_eq hpublished (by rwa [List.length_map, hperm.length_eq]), List.length_map, hperm.length_eq]

variable (sha256 ed) in
/-- The positions of a response are its entries, and the report over them is the same in every order
    and states the exact total of every asset. -/
theorem custody_report_exact (fromStr : String → Option (Value ν)) (fields : HoldingFields) :
    (∀ body positions, parseHoldings fromStr body fields = .ok positions →
      ∃ items, fromStr body = some (.array items) ∧
        List.Forall₂ (fun item position => ∃ created arguments raw,
          Describes fields item position created arguments raw) items positions ∧
        (positions.map CustodyPosition.contractId).Nodup) ∧
    ∀ positions : List CustodyPosition, (positions.map CustodyPosition.contractId).Nodup →
      positions.length < 2 ^ 64 → ∀ metadata snapshotOffset masterSalt signer,
        (∀ positions' : List CustodyPosition, positions'.Perm positions →
          buildCustodyReport sha256 ed positions' metadata snapshotOffset masterSalt signer =
            buildCustodyReport sha256 ed positions metadata snapshotOffset masterSalt signer) ∧
        ∀ signed, buildCustodyReport sha256 ed positions metadata snapshotOffset masterSalt signer = .ok signed →
          ∃ total, Commits positions signed.report total :=
  ⟨fun _ _ hparsed => parseHoldings_eq_ok.mp hparsed, fun _ hdistinct hlen _ _ _ _ =>
    ⟨fun _ hperm => buildCustodyReport_perm hperm hdistinct, fun _ hbuilt => buildCustodyReport_commits hlen hbuilt⟩⟩

/-! ## Two holdings -/

def holdingText (contractId instrument quantity : String) : String :=
  "\x7b\"contractEntry\": \x7b\"JsActiveContract\": \x7b\"createdEvent\": \x7b\"contractId\": \"" ++ contractId ++
    "\", \"createArgument\": \x7b\"instrument\": \"" ++ instrument ++ "\", \"quantity\": \"" ++ quantity ++
    "\"\x7d\x7d\x7d\x7d\x7d"

def holding (contractId instrument quantity : String) : Value ℕ :=
  .object [("contractEntry", .object [("JsActiveContract", .object [("createdEvent", .object [
    ("contractId", .string contractId),
    ("createArgument", .object [("instrument", .string instrument), ("quantity", .string quantity)])])])])]

def responseText : String :=
  "[" ++ holdingText "c2" "USDA" "100.5" ++ ", " ++ holdingText "c1" "USDA" "0.5" ++ "]"

def response : Value ℕ := .array [holding "c2" "USDA" "100.5", holding "c1" "USDA" "0.5"]

def responseFields : HoldingFields := ⟨"instrument", "quantity"⟩

def parseResponse (body : String) : Option (Value ℕ) := if body = responseText then some response else none

def responsePositions : List CustodyPosition :=
  [⟨"c2", "USDA", ⟨1005 * 10 ^ 17, by decide⟩⟩, ⟨"c1", "USDA", ⟨5 * 10 ^ 17, by decide⟩⟩]

def custodyMetadata : ReportMetadata where
  profile := "coverage.custody"
  publisher := "venue::one"
  snapshotTime := "2026-08-09T00:00:00Z"
  ledgerOffset := "000000000000000042"
  markPrices := empty
  disclosures := ⟨empty, 0, empty⟩
  manifest := none

def custodyOf (positions : List CustodyPosition) : Except CustodyFailure SignedReport :=
  buildCustodyReport Sha256.sha256 (goldenEd25519 []) positions custodyMetadata "000000000000000042"
    (utf8 "master") goldenSigner

theorem custody_report_exact_two : ∃ signed total,
    parseHoldings parseResponse responseText responseFields = .ok responsePositions ∧
    custodyOf responsePositions = .ok signed ∧ custodyOf responsePositions.reverse = .ok signed ∧
    Commits responsePositions signed.report total := by
  obtain ⟨hread, hbuild⟩ := custody_report_exact Sha256.sha256 (goldenEd25519 []) parseResponse responseFields
  have hparsed : parseHoldings parseResponse responseText responseFields = .ok responsePositions := by
    decide +kernel
  obtain ⟨items, _, _, hdistinct⟩ := hread _ _ hparsed
  obtain ⟨hperm, hcommits⟩ := hbuild responsePositions hdistinct (by decide) custodyMetadata
    "000000000000000042" (utf8 "master") goldenSigner
  obtain ⟨signed, hsigned⟩ : ∃ signed, custodyOf responsePositions = .ok signed :=
    exists_of_isOk (by decide +kernel)
  obtain ⟨total, htotal⟩ := hcommits signed hsigned
  exact ⟨signed, total, hparsed, hsigned, (hperm _ responsePositions.reverse_perm).trans hsigned, htotal⟩

end AssuranceLayer.Custody
