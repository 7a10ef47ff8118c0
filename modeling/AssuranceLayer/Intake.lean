import AssuranceLayer.Service

set_option autoImplicit false

/-!
What the publishing route makes of a request it accepts: which positions enter the tree, and what
is added to the bad debt.
-/
namespace AssuranceLayer.Service
open Fallible Amount Sums Merkle Document Digest Sign Produce Anchoring EvidencePack SortedMap

/-- What a balance text writes after its minus sign. -/
def magnitude (raw : String) : Option String := stripPrefix "-" (trim raw)

def entered (raw : String) : U128 :=
  match magnitude raw with
  | some _ => 0
  | none => (parseAmount18dp (trim raw)).toOption.getD 0

def owed (raw : String) : U128 :=
  match magnitude raw with
  | some m => (parseAmount18dp m).toOption.getD 0
  | none => 0

def enteredEntries (balances : SortedMap String String) : List (String × U128) :=
  balances.entries.map fun e => (trim e.1, entered e.2)

def owedEntries (balances : SortedMap String String) : List (String × U128) :=
  balances.entries.map fun e => (trim e.1, owed e.2)

/-- The position of one leaf: of names that trim to one another the last counts. -/
def position (balances : SortedMap String String) : AmountMap := ofList (enteredEntries balances)

/-! ## One entry, one leaf, all leaves -/

/-- The bad debt grows by what the entries owe, under the names of the negative ones. -/
structure DebtGrows (before after : AmountMap) (entries : List (String × String)) : Prop where
  amount : ∀ a, amount after a =
    amount before a + entryTotal a (entries.map fun e => (trim e.1, owed e.2))
  keys : ∀ a, a ∈ after.keys ↔ a ∈ before.keys ∨
    ∃ e ∈ entries, (magnitude e.2).isSome = true ∧ trim e.1 = a

theorem DebtGrows.refl (m : AmountMap) : DebtGrows m m [] where
  amount _ := rfl
  keys _ := by simp

theorem DebtGrows.trans {m n o : AmountMap} {l r : List (String × String)} (h : DebtGrows m n l)
    (h' : DebtGrows n o r) : DebtGrows m o (l ++ r) where
  amount a := by
    rw [h'.amount, h.amount, List.map_append, entryTotal, entryTotal, entryTotal, List.map_append,
      List.sum_append, Nat.add_assoc]
  keys a := by
    rw [h'.keys, h.keys]
    simp only [List.mem_append, or_and_right, exists_or, or_assoc]

theorem readEntry_spec {userId : String} {state state' : Clamped × AmountMap} {e : String × String}
    (h : readEntry userId state e = .ok state') :
    state'.2 = state.2.insert (trim e.1) (entered e.2) ∧
      DebtGrows state.1.badDebt state'.1.badDebt [e] := by
  simp only [readEntry, bind_eq_ok, ensure_eq_ok] at h
  obtain ⟨_, _, h⟩ := h
  cases hm : stripPrefix "-" (trim e.2) with
  | none =>
    simp only [hm, bind_eq_ok, mapError_eq_ok, pure_eq_ok] at h
    obtain ⟨v, hv, rfl⟩ := h
    have hmagnitude : magnitude e.2 = none := hm
    have hentered : entered e.2 = v := by simp only [entered, hmagnitude, hv]; rfl
    have howed : owed e.2 = 0 := by simp only [owed, hmagnitude]
    refine ⟨by rw [hentered], fun a => ?_, fun a => by simp [hmagnitude]⟩
    have hzero : entryTotal a [(trim e.1, owed e.2)] = 0 :=
      entryTotal_eq_zero_iff.mpr fun d hd _ => by rw [List.mem_singleton.mp hd, howed]
    rw [List.map_singleton, hzero, Nat.add_zero]
  | some magn =>
    simp only [hm, bind_eq_ok, mapError_eq_ok, pure_eq_ok] at h
    obtain ⟨v, hv, badDebt, hdebt, rfl⟩ := h
    have hmagnitude : magnitude e.2 = some magn := hm
    have hentered : entered e.2 = 0 := by simp only [entered, hmagnitude]
    have howed : owed e.2 = v := by simp only [owed, hmagnitude, hv]; rfl
    refine ⟨by rw [hentered], fun a => ?_, fun a => ?_⟩
    · rw [addEntry_amount hdebt, List.map_singleton, howed]
      rfl
    · obtain ⟨w, _, rfl⟩ := addEntry_eq_ok.mp hdebt
      rw [mem_keys_insert, or_comm, eq_comm]
      simp only [List.mem_singleton, exists_eq_left, hmagnitude, Option.isSome_some, true_and]

theorem readEntries_spec {userId : String} {entries : List (String × String)}
    {state state' : Clamped × AmountMap}
    (h : entries.foldlM (readEntry userId) state = .ok state') :
    state'.2 = (entries.map fun e => (trim e.1, entered e.2)).foldl
        (fun m e => m.insert e.1 e.2) state.2 ∧
      DebtGrows state.1.badDebt state'.1.badDebt entries := by
  induction entries generalizing state with
  | nil =>
    cases h
    exact ⟨rfl, DebtGrows.refl _⟩
  | cons e entries ih =>
    obtain ⟨mid, hmid, hrest⟩ := bind_eq_ok.mp h
    obtain ⟨hposition, hdebt⟩ := readEntry_spec hmid
    obtain ⟨hpositions, hdebts⟩ := ih hrest
    exact ⟨by rw [hpositions, hposition]; rfl, hdebt.trans hdebts⟩

def allEntries (leaves : List LeafIn) : List (String × String) :=
  leaves.flatMap fun l => l.balances.entries

theorem readLeaf_spec {state state' : Clamped × SortedMap String AmountMap} {leaf : LeafIn × ℕ}
    (h : readLeaf state leaf = .ok state') :
    state.2.get? (trim leaf.1.userId) = none ∧
      state'.2 = state.2.insert (trim leaf.1.userId) (position leaf.1.balances) ∧
      DebtGrows state.1.badDebt state'.1.badDebt leaf.1.balances.entries := by
  simp only [readLeaf, bind_eq_ok, ensure_eq_ok, pure_eq_ok] at h
  obtain ⟨_, _, _, hnew, read, hread, rfl⟩ := h
  obtain ⟨hposition, hdebt⟩ := readEntries_spec hread
  exact ⟨hnew, by rw [hposition]; rfl, hdebt⟩

/-- The loop over the leaves collects the positions under pairwise different names. -/
theorem readLeaves_spec {leaves : List (LeafIn × ℕ)}
    {state state' : Clamped × SortedMap String AmountMap}
    (h : leaves.foldlM readLeaf state = .ok state') :
    (∀ l ∈ leaves, state.2.get? (trim l.1.userId) = none) ∧
      (leaves.map fun l => trim l.1.userId).Nodup ∧
      state'.2 = leaves.foldl (fun m l => m.insert (trim l.1.userId) (position l.1.balances)) state.2 ∧
      DebtGrows state.1.badDebt state'.1.badDebt (allEntries (leaves.map Prod.fst)) := by
  induction leaves generalizing state with
  | nil =>
    cases h
    exact ⟨by simp, List.nodup_nil, rfl, DebtGrows.refl _⟩
  | cons leaf leaves ih =>
    obtain ⟨mid, hmid, hrest⟩ := bind_eq_ok.mp h
    obtain ⟨hnew, husers, hdebt⟩ := readLeaf_spec hmid
    obtain ⟨hnews, hnodup, husers', hdebts⟩ := ih hrest
    have hother : ∀ l ∈ leaves,
        trim leaf.1.userId ≠ trim l.1.userId ∧ state.2.get? (trim l.1.userId) = none := by
      intro l hl
      have hget := hnews l hl
      rw [husers, get?_insert] at hget
      split_ifs at hget with heq
      exact ⟨heq, hget⟩
    refine ⟨?_, ?_, by rw [husers', husers]; rfl, hdebt.trans hdebts⟩
    · rintro l hl
      rcases List.mem_cons.mp hl with rfl | hl
      · exact hnew
      · exact (hother l hl).2
    · rw [List.map_cons, List.nodup_cons, List.mem_map]
      exact ⟨fun ⟨l, hl, heq⟩ => (hother l hl).1 heq.symm, hnodup⟩

/-! ## The publication of a request -/

variable (sha256 : List UInt8 → Digest)

def users (req : PublishRequest) : SortedMap String AmountMap :=
  ofList (req.leaves.map fun l => (trim l.userId, position l.balances))

def leafInputs (req : PublishRequest) (masterSalt : Bytes 32) : List LeafInput :=
  (users req).entries.map fun user =>
    { salt := leafSalt sha256 masterSalt.toList user.1, userId := user.1, balances := user.2 }

/-- What the metadata of an accepted request holds. -/
structure Accepted (req : PublishRequest) (metadata : ReportMetadata) : Prop where
  leaves : req.leaves ≠ []
  distinct : (req.leaves.map fun l => trim l.userId).Nodup
  profile : metadata.profile = liabilitiesProfile
  publisher : metadata.publisher = req.publisher
  snapshotTime : metadata.snapshotTime = req.snapshotTime
  ledgerOffset : metadata.ledgerOffset = req.ledgerOffset
  markPrices : amounts req.markPrices "mark_prices" = .ok metadata.markPrices
  badDebt : ∃ disclosed, amounts req.disclosures.badDebt "disclosures.bad_debt" = .ok disclosed ∧
    DebtGrows disclosed metadata.disclosures.badDebt (allEntries req.leaves)
  houseAccounts : metadata.disclosures.excludedHouseAccounts = req.disclosures.excludedHouseAccounts
  houseTotals : amounts req.disclosures.excludedHouseTotals "disclosures.excluded_house_totals" =
    .ok metadata.disclosures.excludedHouseTotals
  manifest : metadata.manifest = req.manifest

variable {sha256} {ed : Ed25519}

theorem publication_spec {req : PublishRequest} {masterSalt : Bytes 32} {signer : ReportSigner}
    {pub : Publication} {clamped : ℕ}
    (h : publication sha256 ed req masterSalt signer = .ok (pub, clamped)) :
    ∃ metadata, Accepted req metadata ∧
      publish sha256 ed (leafInputs sha256 req masterSalt) metadata signer = .ok pub := by
  simp only [publication, bind_eq_ok, ensure_eq_ok, mapError_eq_ok, pure_eq_ok] at h
  obtain ⟨_, hleaves, _, hprofile, disclosed, hdisclosed, read, hread, prices, hprices, totals,
    htotals, pub', hpub, heq⟩ := h
  obtain ⟨rfl, rfl⟩ := Prod.mk.inj heq
  obtain ⟨_, hdistinct, husers, hdebt⟩ := readLeaves_spec hread
  have hfst : req.leaves.zipIdx.map Prod.fst = req.leaves := List.zipIdx_map_fst 0 req.leaves
  have hnames : (req.leaves.zipIdx.map fun l => trim l.1.userId) =
      req.leaves.map fun l => trim l.userId := by
    rw [← congrArg (List.map fun l : LeafIn => trim l.userId) hfst, List.map_map]
    rfl
  have hcollect : read.2 = users req := by
    rw [husers, users, ofList, ← congrArg (List.map fun l : LeafIn =>
      (trim l.userId, position l.balances)) hfst, List.foldl_map, List.foldl_map]
  rw [hfst] at hdebt
  rw [hnames] at hdistinct
  rw [hcollect] at hpub
  refine ⟨_, ?_, hpub⟩
  exact {
    leaves := fun hnil => by simp [hnil] at hleaves
    distinct := hdistinct
    profile := hprofile
    publisher := rfl
    snapshotTime := rfl
    ledgerOffset := rfl
    markPrices := hprices
    badDebt := ⟨disclosed, hdisclosed, hdebt⟩
    houseAccounts := rfl
    houseTotals := htotals
    manifest := rfl }

/-- The committed leaves are the positions of the request, in another order. -/
theorem users_perm {req : PublishRequest} (h : (req.leaves.map fun l => trim l.userId).Nodup) :
    (users req).entries.Perm (req.leaves.map fun l => (trim l.userId, position l.balances)) :=
  entries_ofList_perm (by rwa [List.map_map])

/-! ## What is delivered -/

section
variable {print : Json → String} {req : PublishRequest} {masterSalt : Bytes 32} {signer : ReportSigner}

theorem doPublish_spec {resp : PublishResponse}
    (h : doPublish sha256 ed print req masterSalt signer = .ok resp) :
    ∃ delivery, deliver sha256 ed print req masterSalt signer = .ok (delivery, resp.clamped) ∧
      resp = delivery.response sha256 ed print resp.clamped signer := by
  simp only [doPublish, bind_eq_ok, pure_eq_ok] at h
  obtain ⟨delivered, hdeliver, rfl⟩ := h
  exact ⟨delivered.1, hdeliver, rfl⟩

theorem deliver_spec {delivery : Delivery} {clamped : ℕ}
    (h : deliver sha256 ed print req masterSalt signer = .ok (delivery, clamped)) :
    ∃ pub, publication sha256 ed req masterSalt signer = .ok (pub, clamped) ∧
      delivery.signed = pub.signedReport ∧ delivery.proofs = pub.proofs ∧
      delivery.anchor = anchorReport sha256 pub.signedReport req.previousAnchor ∧
      buildPack sha256 ed pub.signedReport.report.publisher
        pub.signedReport.report.snapshotTime
        (reportDigestHex sha256 pub.signedReport.report)
        (packMembers (memberFiles sha256 print delivery.signed delivery.anchor delivery.proofs))
        signer = .ok delivery.pack := by
  simp only [deliver, bind_eq_ok, mapError_eq_ok, pure_eq_ok] at h
  obtain ⟨published, hpublished, pack, hpack, heq⟩ := h
  obtain ⟨rfl, rfl⟩ := Prod.mk.inj heq
  exact ⟨published.1, hpublished, rfl, rfl, rfl, hpack⟩

end

end AssuranceLayer.Service
