import AssuranceLayer.RequestTotals

set_option autoImplicit false

/-!
The balances that the browser shows and those that are signed for. They are the same unless a line
has a fourth column, or the service trims a name that the browser does not.
-/
namespace AssuranceLayer.PreviewAgreement
open Fallible Utf16 JavaScript Amount Sums Document Sign Produce Service Conservation SortedMap BrowserCsv

/-! ## What is sent -/

/-- A leaf as it is read from its JSON, in which no surrogate stands alone. -/
def receivedLeaf (leaf : Leaf) : Option LeafIn := do
  let userId ← toString? leaf.userId
  let entries ← leaf.balances.mapM fun e => do return (← toString? e.1, ← toString? e.2)
  return ⟨userId, ofList entries⟩

def received (leaves : List Leaf) : Option (List LeafIn) := leaves.mapM receivedLeaf

/-- A customer's balances in characters, before they are sorted. -/
structure Balances where
  userId : String
  entries : List (String × String)

def Balances.leaf (b : Balances) : Leaf := ⟨ofString b.userId, b.entries.map fun e => (ofString e.1, ofString e.2)⟩

def Balances.leafIn (b : Balances) : LeafIn := ⟨b.userId, ofList b.entries⟩

theorem receivedEntries_eq_some {balances : Record} {entries : List (String × String)}
    (h : balances.mapM (fun e => do return (← toString? e.1, ← toString? e.2)) = some entries) :
    balances = entries.map fun e => (ofString e.1, ofString e.2) := by
  induction balances generalizing entries with
  | nil =>
    cases h
    rfl
  | cons e balances ih =>
    simp only [List.mapM_cons, bind, Option.bind_eq_some_iff, pure, Option.some.injEq, toString?_eq_some] at h
    obtain ⟨_, ⟨asset, hasset, amount, hamount, rfl⟩, rest, hrest, rfl⟩ := h
    rw [List.map_cons, ← ih hrest, ← hasset, ← hamount]

theorem receivedLeaf_eq_some {leaf : Leaf} {l : LeafIn} (h : receivedLeaf leaf = some l) :
    ∃ b : Balances, leaf = b.leaf ∧ l = b.leafIn := by
  simp only [receivedLeaf, bind, Option.bind_eq_some_iff, pure, Option.some.injEq, toString?_eq_some] at h
  obtain ⟨userId, huser, entries, hentries, rfl⟩ := h
  refine ⟨⟨userId, entries⟩, ?_, rfl⟩
  rw [Balances.leaf, ← huser, ← receivedEntries_eq_some hentries]

theorem received_eq_some {leaves : List Leaf} {ls : List LeafIn} (h : received leaves = some ls) :
    ∃ bs : List Balances, leaves = bs.map Balances.leaf ∧ ls = bs.map Balances.leafIn := by
  induction leaves generalizing ls with
  | nil =>
    cases h
    exact ⟨[], rfl, rfl⟩
  | cons leaf leaves ih =>
    simp only [received, List.mapM_cons, bind, Option.bind_eq_some_iff, pure, Option.some.injEq] at h
    obtain ⟨l, hl, rest, hrest, rfl⟩ := h
    obtain ⟨b, rfl, rfl⟩ := receivedLeaf_eq_some hl
    obtain ⟨bs, rfl, rfl⟩ := ih hrest
    exact ⟨b :: bs, rfl, rfl⟩

def unitsRow (r : String × String × String) : Row := (ofString r.1, ofString r.2.1, ofString r.2.2)

theorem unitsRow_user (r : String × String × String) : (unitsRow r).1 = ofString r.1 := rfl

theorem unitsRow_asset (r : String × String × String) : (unitsRow r).2.1 = ofString r.2.1 := rfl

theorem unitsRow_amount (r : String × String × String) : (unitsRow r).2.2 = ofString r.2.2 := rfl

/-- The rows of a text and the leaves of a request are the same balances. -/
structure Sent (text : JsString) (req : PublishRequest) (rows : List (String × String × String)) : Prop where
  lines : ((dataLines text).map rowOf).Perm (rows.map unitsRow)
  entries : (allEntries req.leaves).Perm (rows.map Prod.snd)
  users : (req.leaves.map LeafIn.userId).Nodup
  row : ∀ l ∈ req.leaves, ∀ e ∈ l.balances.entries, (l.userId, e.1, e.2) ∈ rows
  leaf : ∀ r ∈ rows, ∃ l ∈ req.leaves, l.userId = r.1 ∧ r.2 ∈ l.balances.entries

theorem exists_sent {text : JsString} {parse : BalancesParse} {req : PublishRequest} (h : ReadAs text parse)
    (hreceived : received parse.leaves = some req.leaves) : ∃ rows, Sent text req rows := by
  obtain ⟨bs, hleaves, hls⟩ := received_eq_some hreceived
  refine ⟨bs.flatMap fun b => b.entries.map fun e => (b.userId, e.1, e.2), ?_⟩
  have hperm : ∀ b ∈ bs, (Balances.leafIn b).balances.entries.Perm b.entries := by
    intro b hb
    have hnodup := h.assets b.leaf (hleaves ▸ List.mem_map_of_mem hb)
    rw [Balances.leaf, List.map_map] at hnodup
    refine entries_ofList_perm (List.Nodup.of_map ofString ?_)
    rwa [List.map_map]
  constructor
  · refine h.entries.symm.trans (List.Perm.of_eq ?_)
    rw [hleaves, leafRows, List.flatMap_map, List.map_flatMap]
    simp only [Balances.leaf, List.map_map]
    rfl
  · rw [hls, allEntries, List.flatMap_map, List.map_flatMap]
    refine List.Perm.flatMap_left _ fun b hb => (hperm b hb).trans (List.Perm.of_eq ?_)
    rw [List.map_map]
    exact (List.map_id b.entries).symm
  · have husers := h.users
    rw [hleaves, List.map_map] at husers
    rw [hls, List.map_map]
    refine List.Nodup.of_map ofString ?_
    rwa [List.map_map]
  · intro l hl e he
    rw [hls] at hl
    obtain ⟨b, hb, rfl⟩ := List.mem_map.mp hl
    exact List.mem_flatMap.mpr ⟨b, hb, List.mem_map_of_mem ((hperm b hb).mem_iff.mp he)⟩
  · intro r hr
    obtain ⟨b, hb, hr⟩ := List.mem_flatMap.mp hr
    obtain ⟨e, he, rfl⟩ := List.mem_map.mp hr
    exact ⟨b.leafIn, hls ▸ List.mem_map_of_mem hb, rfl, (hperm b hb).mem_iff.mpr he⟩

/-! ## Names -/

/-- Names that the service trims hold nothing, and none of them comes after the name it is trimmed to and
    takes the place of an amount. -/
structure KeepsNames (text : JsString) : Prop where
  trimmed : ∀ line ∈ dataLines text, ∀ name, (rowOf line).2.1 = ofString name → trim name ≠ name →
    rowValue (rowOf line) = 0
  replaced : ∀ line ∈ dataLines text, ∀ line' ∈ dataLines text, (rowOf line).1 = (rowOf line').1 →
    ∀ name name', (rowOf line).2.1 = ofString name → (rowOf line').2.1 = ofString name' →
      trim name' = name → name < name' → isNegative (rowOf line).2.2 = false → rowValue (rowOf line) = 0

section
variable {text : JsString} {req : PublishRequest} {rows : List (String × String × String)}
  (hs : Sent text req rows)
include hs

theorem Sent.rowOf_line {line : JsString} (hline : line ∈ dataLines text) : ∃ r ∈ rows, rowOf line = unitsRow r := by
  obtain ⟨r, hr, heq⟩ := List.mem_map.mp (hs.lines.mem_iff.mp (List.mem_map_of_mem hline))
  exact ⟨r, hr, heq.symm⟩

theorem Sent.line_of {r : String × String × String} (hr : r ∈ rows) :
    ∃ line ∈ dataLines text, rowOf line = unitsRow r :=
  List.mem_map.mp (hs.lines.mem_iff.mpr (List.mem_map_of_mem hr))

/-- Names that are the same in units are the same. -/
theorem Sent.named {line : JsString} (hline : line ∈ dataLines text) {name : String}
    (hname : (rowOf line).2.1 = ofString name) : ∃ userId raw, (userId, name, raw) ∈ rows ∧
      rowOf line = unitsRow (userId, name, raw) := by
  obtain ⟨⟨userId, asset, raw⟩, hr, heq⟩ := hs.rowOf_line hline
  rw [heq] at hname
  obtain rfl := ofString_inj.mp hname
  exact ⟨userId, raw, hr, heq⟩

variable (hvalues : ∀ r ∈ rows,
  (entered r.2.2).val = (if isNegative (ofString r.2.2) = true then 0 else rowValue (unitsRow r)) ∧
  (owed r.2.2).val = if isNegative (ofString r.2.2) = true then rowValue (unitsRow r) else 0)
include hvalues

omit hs in
theorem rowValue_eq_zero {r : String × String × String} (hr : r ∈ rows) :
    rowValue (unitsRow r) = 0 ↔ entered r.2.2 = 0 ∧ owed r.2.2 = 0 := by
  obtain ⟨hentered, howed⟩ := hvalues r hr
  rw [← Fin.val_eq_zero_iff, ← Fin.val_eq_zero_iff, hentered, howed]
  cases isNegative (ofString r.2.2) <;> simp

theorem heldUnder_zero_iff : (∀ line ∈ dataLines text, ∀ name, (rowOf line).2.1 = ofString name →
      trim name ≠ name → rowValue (rowOf line) = 0) ↔
    (∀ e ∈ heldUnder req entered, trim e.1 ≠ e.1 → e.2 = 0) ∧
      ∀ e ∈ heldUnder req owed, trim e.1 ≠ e.1 → e.2 = 0 := by
  simp only [heldUnder, List.forall_mem_map]
  constructor
  · intro h
    have hentry : ∀ e ∈ allEntries req.leaves, trim e.1 ≠ e.1 → entered e.2 = 0 ∧ owed e.2 = 0 := by
      intro e he hne
      obtain ⟨r, hr, rfl⟩ := List.mem_map.mp (hs.entries.mem_iff.mp he)
      obtain ⟨line, hline, heq⟩ := hs.line_of hr
      refine (rowValue_eq_zero hvalues hr).mp ?_
      rw [← heq]
      exact h line hline r.2.1 (by rw [heq, unitsRow_asset]) hne
    exact ⟨fun e he hne => (hentry e he hne).1, fun e he hne => (hentry e he hne).2⟩
  · rintro ⟨hentered, howed⟩ line hline name hname hne
    obtain ⟨userId, raw, hr, heq⟩ := hs.named hline hname
    have he : (name, raw) ∈ allEntries req.leaves := hs.entries.mem_iff.mpr (List.mem_map_of_mem hr)
    rw [heq, rowValue_eq_zero hvalues hr]
    exact ⟨hentered _ he hne, howed _ he hne⟩

theorem keepsNames_iff : KeepsNames text ↔
    ((∀ e ∈ heldUnder req entered, trim e.1 ≠ e.1 → e.2 = 0) ∧ NoAmountReplaced req) ∧
      ∀ e ∈ heldUnder req owed, trim e.1 ≠ e.1 → e.2 = 0 := by
  rw [and_right_comm, ← heldUnder_zero_iff hs hvalues]
  constructor
  · intro h
    refine ⟨h.trimmed, fun l hl => l.balances.ascending.imp_of_mem fun {e f} he hf hlt hsame => ?_⟩
    have hr := hs.row l hl e he
    obtain ⟨line, hline, heq⟩ := hs.line_of hr
    by_cases hname : trim e.1 = e.1
    · obtain ⟨line', hline', heq'⟩ := hs.line_of (hs.row l hl f hf)
      cases hnegative : isNegative (ofString e.2) with
      | true =>
        have hentered := (hvalues _ hr).1
        rw [if_pos hnegative] at hentered
        exact Fin.val_eq_zero_iff.mp hentered
      | false =>
        refine ((rowValue_eq_zero hvalues hr).mp ?_).1
        rw [← heq]
        refine h.replaced line hline line' hline' ?_ e.1 f.1 ?_ ?_ (hsame.symm.trans hname) hlt ?_
        · rw [heq, heq', unitsRow_user, unitsRow_user]
        · rw [heq, unitsRow_asset]
        · rw [heq', unitsRow_asset]
        · rw [heq, unitsRow_amount, hnegative]
    · refine ((rowValue_eq_zero hvalues hr).mp ?_).1
      rw [← heq]
      exact h.trimmed line hline e.1 (by rw [heq, unitsRow_asset]) hname
  · rintro ⟨htrimmed, hreplaced⟩
    refine ⟨htrimmed, fun line hline line' hline' huser name name' hname hname' htrim hlt hplain => ?_⟩
    obtain ⟨userId, raw, hr, heq⟩ := hs.named hline hname
    obtain ⟨userId', raw', hr', heq'⟩ := hs.named hline' hname'
    rw [heq, heq'] at huser
    obtain rfl : userId = userId' := ofString_inj.mp huser
    obtain ⟨l, hl, hid, he⟩ := hs.leaf _ hr
    obtain ⟨l', hl', hid', hf⟩ := hs.leaf _ hr'
    obtain rfl := List.inj_on_of_nodup_map hs.users hl hl' (hid.trans hid'.symm)
    have hsame : trim name = trim name' := by rw [htrim, ← htrim, trim_trim]
    have hzero := rel_of_pairwise (hreplaced l hl) he hf hlt hsame
    have hentered := (hvalues _ hr).1
    rw [heq, unitsRow_amount] at hplain
    rw [if_neg (by rw [hplain]; exact Bool.false_ne_true)] at hentered
    rw [heq, ← hentered]
    exact Fin.val_eq_zero_iff.mpr hzero

end

/-! ## Totals -/

theorem totalOf_eq_sum (rows : List Row) (negative : Bool) (asset : JsString) : totalOf rows negative asset =
    (rows.map fun r => if isNegative r.2.2 = negative ∧ r.2.1 = asset then rowValue r else 0).sum := by
  induction rows using List.reverseRecOn with
  | nil => rfl
  | append_singleton rows r ih =>
    rw [totalOf_concat, ih, List.map_append, List.sum_append, List.map_singleton, List.sum_singleton]

theorem totalOf_perm {rows rows' : List Row} (h : rows.Perm rows') (negative : Bool) (asset : JsString) :
    totalOf rows negative asset = totalOf rows' negative asset := by
  rw [totalOf_eq_sum, totalOf_eq_sum]
  exact (h.map _).sum_eq

/-- What a signed sum says of an asset, 0 if it says nothing. -/
def signedAmount (sums : AmountMap) (asset : JsString) : ℕ := ((toString? asset).map (amount sums)).getD 0

/-- The totals shown are the totals signed. -/
structure Previewed (parse : BalancesParse) (report : Report) : Prop where
  totals : ∀ asset, Shows parse.totals asset (signedAmount report.rootSums asset)
  badDebt : ∀ asset, Shows parse.negativeTotals asset (signedAmount report.disclosures.badDebt asset)

section
variable {rows : List (String × String × String)}

/-- Rows with names in characters have totals under such names only. -/
theorem totals_signed_iff {negative : Bool} {sums : AmountMap} :
    (∀ asset, totalOf (rows.map unitsRow) negative asset = signedAmount sums asset) ↔
      ∀ a, totalOf (rows.map unitsRow) negative (ofString a) = amount sums a := by
  have hsigned : ∀ a, signedAmount sums (ofString a) = amount sums a := by
    intro a
    rw [signedAmount, toString?_ofString]
    rfl
  constructor
  · intro h a
    rw [h, hsigned]
  · intro h asset
    cases hasset : toString? asset with
    | some a =>
      rw [toString?_eq_some.mp hasset, h, hsigned]
    | none =>
      rw [signedAmount, hasset, totalOf_eq_sum, List.map_map]
      refine List.sum_eq_zero fun v hv => ?_
      obtain ⟨r, _, rfl⟩ := List.mem_map.mp hv
      refine if_neg fun hr => ?_
      rw [← hr.2, unitsRow_asset, toString?_ofString] at hasset
      cases hasset

/-- The rows of a kind add up to what the entries of the request hold. -/
theorem totalOf_rows {req : PublishRequest} {text : JsString} (hs : Sent text req rows) {value : String → U128}
    {negative : Bool} (hvalue : ∀ r ∈ rows, (value r.2.2).val =
      if isNegative (ofString r.2.2) = negative then rowValue (unitsRow r) else 0) (a : String) :
    totalOf (rows.map unitsRow) negative (ofString a) = entryTotal a (heldUnder req value) := by
  rw [heldUnder, entryTotal_perm (hs.entries.map fun e => (e.1, value e.2)), totalOf_eq_sum, entryTotal, List.map_map,
    List.map_map, List.map_map]
  refine congrArg List.sum (List.map_congr_left fun r hr => ?_)
  simp only [Function.comp_apply, unitsRow_asset, unitsRow_amount, hvalue r hr, ofString_inj]
  by_cases ha : r.2.1 = a <;> simp [ha]

end

variable {sha256 : List UInt8 → Digest} {ed : Ed25519} {req : PublishRequest} {masterSalt : Bytes 32}
  {signer : ReportSigner}

/-- What is shown is signed exactly when names are kept. -/
theorem previewed_iff {text : JsString} {parse : BalancesParse} (hread : ReadAs text parse)
    (hreceived : received parse.leaves = some req.leaves) (hdisclosed : req.disclosures.badDebt = empty)
    {pub : Publication} {clamped : ℕ} (hpub : publication sha256 ed req masterSalt signer = .ok (pub, clamped)) :
    Previewed parse pub.signedReport.report ↔ KeepsNames text := by
  obtain ⟨rows, hs⟩ := exists_sent hread hreceived
  have hvalues : ∀ r ∈ rows,
      (entered r.2.2).val = (if isNegative (ofString r.2.2) = true then 0 else rowValue (unitsRow r)) ∧
      (owed r.2.2).val = if isNegative (ofString r.2.2) = true then rowValue (unitsRow r) else 0 := by
    intro r hr
    obtain ⟨line, hline, heq⟩ := hs.line_of hr
    have hamount := (hread.readable line hline).amount
    rw [heq] at hamount
    have hlegible := publication_legible hpub r.2 (hs.entries.mem_iff.mpr (List.mem_map_of_mem hr))
    exact amount_read hamount hlegible
  have hentered : ∀ a, totalOf ((dataLines text).map rowOf) false (ofString a) =
      entryTotal a (heldUnder req entered) := by
    intro a
    rw [totalOf_perm hs.lines]
    refine totalOf_rows hs (fun r hr => ?_) a
    rw [(hvalues r hr).1]
    cases isNegative (ofString r.2.2) <;> rfl
  have howed : ∀ a, totalOf ((dataLines text).map rowOf) true (ofString a) = entryTotal a (heldUnder req owed) := by
    intro a
    rw [totalOf_perm hs.lines]
    exact totalOf_rows hs (fun r hr => (hvalues r hr).2) a
  have hshown : ∀ {totals : Record} {negative : Bool} {sums : AmountMap},
      (∀ asset, Shows totals asset (totalOf ((dataLines text).map rowOf) negative asset)) →
      ((∀ asset, Shows totals asset (signedAmount sums asset)) ↔
        ∀ a, totalOf ((dataLines text).map rowOf) negative (ofString a) = amount sums a) := by
    intro totals negative sums htotals
    simp only [totalOf_perm hs.lines, ← totals_signed_iff] at htotals ⊢
    exact forall_congr' fun asset => ⟨(htotals asset).unique, fun h => h ▸ htotals asset⟩
  rw [keepsNames_iff hs hvalues, ← rootSums_eq_iff hpub, ← badDebt_eq_iff hpub hdisclosed]
  simp only [← hentered, ← howed]
  rw [← hshown hread.totals, ← hshown hread.negativeTotals]
  exact ⟨fun h => ⟨h.totals, h.badDebt⟩, fun h => ⟨h.1, h.2⟩⟩

/-! ## Previews -/

variable (sha256 ed) (print : Json → String)

/-- The service accepts the leaves of a text, with nothing else disclosed, and delivers a report. -/
def Publishes (text : JsString) (delivery : Delivery) : Prop :=
  ∃ req masterSalt signer resp, received (parseBalancesCsv text).leaves = some req.leaves ∧
    req.disclosures = ⟨empty, 0, empty⟩ ∧ doPublish sha256 ed print req masterSalt signer = .ok resp ∧
    deliver sha256 ed print req masterSalt signer = .ok (delivery, resp.clamped)

/-- Every line has three columns and is one balance of the leaves, and the totals shown are signed. -/
structure PreviewIsPublished (text : JsString) : Prop where
  columns : ∀ line ∈ dataLines text, (splitLine line).length = 3
  leaves : (leafRows (parseBalancesCsv text).leaves).Perm ((dataLines text).map rowOf)
  published : ∀ delivery, Publishes sha256 ed print text delivery →
    Previewed (parseBalancesCsv text) delivery.signed.report

variable {sha256 ed print} in
theorem publishes_previewed_iff {text : JsString} (h : (parseBalancesCsv text).errors = []) {delivery : Delivery}
    (hpublishes : Publishes sha256 ed print text delivery) :
    Previewed (parseBalancesCsv text) delivery.signed.report ↔ KeepsNames text := by
  obtain ⟨req, masterSalt, signer, resp, hreceived, hdisclosed, _, hdeliver⟩ := hpublishes
  obtain ⟨pub, hpub, hsigned, _⟩ := deliver_spec hdeliver
  rw [hsigned]
  exact previewed_iff (parse_readAs (by decide) h) hreceived (by rw [hdisclosed]) hpub

/-- The preview of a file without errors is what is published exactly when no line has a fourth column and,
    where the service accepts the leaves, names are kept. -/
theorem preview_is_published_iff {text : JsString} (h : (parseBalancesCsv text).errors = []) :
    PreviewIsPublished sha256 ed print text ↔ (∀ line ∈ dataLines text, (splitLine line).length ≤ 3) ∧
      ((∃ delivery, Publishes sha256 ed print text delivery) → KeepsNames text) := by
  have hread := parse_readAs (by decide) h
  constructor
  · intro hpreview
    refine ⟨fun line hline => (hpreview.columns line hline).le, ?_⟩
    rintro ⟨delivery, hpublishes⟩
    exact (publishes_previewed_iff h hpublishes).mp (hpreview.published delivery hpublishes)
  · rintro ⟨hcolumns, hnames⟩
    refine ⟨fun line hline => le_antisymm (hcolumns line hline) ?_, hread.entries, fun delivery hpublishes => ?_⟩
    · obtain ⟨rest, hrest⟩ := (hread.readable line hline).columns
      rw [hrest]
      exact Nat.le_add_left 3 rest.length
    · exact (publishes_previewed_iff h hpublishes).mpr (hnames ⟨delivery, hpublishes⟩)

/-! ## Three files -/

def plainText : JsString := ofString "user_id,asset,amount\n# note\nbob,USDA,7\r\nalice,USDA,100.5\nbob,CBTC,-3.5\n"

theorem preview_is_published_iff_plain :
    PreviewIsPublished Sha256.sha256 (goldenEd25519 []) Json.toStringPretty plainText ↔
      (∀ line ∈ dataLines plainText, (splitLine line).length ≤ 3) ∧
        ((∃ delivery, Publishes Sha256.sha256 (goldenEd25519 []) Json.toStringPretty plainText delivery) →
          KeepsNames plainText) :=
  preview_is_published_iff Sha256.sha256 (goldenEd25519 []) Json.toStringPretty (by decide +kernel)

/-- A separator of thousands makes a fourth column. -/
def surplusText : JsString := ofString "alice,USDA,1,000.50\n"

/-- Two assets to the browser, one to the service, which trims U+0085. -/
def renamedText : JsString := ofString "alice,USDA,100\nalice,USDA\u0085,7\n"

def renamedLeaves : List LeafIn := [⟨"alice", ofList [("USDA", "100"), ("USDA\u0085", "7")]⟩]

theorem previews_not_published : ((parseBalancesCsv surplusText).errors = [] ∧
      ¬ PreviewIsPublished Sha256.sha256 (goldenEd25519 []) Json.toStringPretty surplusText) ∧
    (parseBalancesCsv renamedText).errors = [] ∧
      ¬ PreviewIsPublished Sha256.sha256 (goldenEd25519 []) Json.toStringPretty renamedText := by
  refine ⟨⟨by decide +kernel, fun h => ?_⟩, by decide +kernel, fun h => ?_⟩
  · have hcolumns := h.columns (ofString "alice,USDA,1,000.50") (by decide +kernel)
    exact absurd hcolumns (by decide +kernel)
  · obtain ⟨resp, hresp⟩ : ∃ resp, publishSample renamedLeaves = .ok resp := exists_of_isOk (by decide +kernel)
    obtain ⟨delivery, hdeliver, _⟩ := doPublish_spec hresp
    have hpublishes : Publishes Sha256.sha256 (goldenEd25519 []) Json.toStringPretty renamedText delivery :=
      ⟨_, _, _, resp, by decide +kernel, rfl, hresp, hdeliver⟩
    have hkept := (publishes_previewed_iff (by decide +kernel) hpublishes).mp (h.published delivery hpublishes)
    have hzero := hkept.trimmed (ofString "alice,USDA\u0085,7") (by decide +kernel) "USDA\u0085"
      (by decide +kernel) (by decide +kernel)
    exact absurd hzero (by decide +kernel)

end AssuranceLayer.PreviewAgreement
