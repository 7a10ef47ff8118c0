import AssuranceLayer.AmountTexts
import AssuranceLayer.BrowserTypes
import AssuranceLayer.JsonParse
import AssuranceLayer.Wire

set_option autoImplicit false

/-!
What the browser reads in a document that decodes: objects that mirror maps, fields that are the
fields of a report, and the bytes of the digest that come of them.
-/
namespace AssuranceLayer.Reading
open Fallible Utf16 JavaScript Json SortedMap
open Sums (AmountMap)
open Document
open Binary64 (ofNat)

/-! ## Objects and maps -/

section Mirrors
variable {α β : Type} {R : α → β → Prop}

/-- The own properties are the entries of a map, in any order. -/
structure Mirrors (R : α → β → Prop) (props : List (JsString × α)) (m : SortedMap String β) : Prop where
  nodup : (props.map Prod.fst).Nodup
  sound : ∀ p ∈ props, ∃ k b, p.1 = ofString k ∧ m.get? k = some b ∧ R p.2 b
  complete : ∀ k ∈ m.keys, ofString k ∈ props.map Prod.fst

theorem Mirrors.lookup {props : List (JsString × α)} {m : SortedMap String β} (h : Mirrors R props m)
    {k : String} {b : β} (hk : m.get? k = some b) : ∃ v, props.lookup (ofString k) = some v ∧ R v b := by
  obtain ⟨p, hp, hname⟩ := List.mem_map.mp (h.complete k (mem_keys.mpr (by simp [hk])))
  obtain ⟨k', b', hk', hget, hR⟩ := h.sound p hp
  obtain rfl := ofString_inj.mp (hname.symm.trans hk')
  obtain rfl := Option.some.inj (hk.symm.trans hget)
  exact ⟨p.2, (lookup_eq_some h.nodup).mpr (by rw [← hname]; exact hp), hR⟩

theorem Mirrors.lookup_none {props : List (JsString × α)} {m : SortedMap String β} (h : Mirrors R props m)
    {k : String} (hk : m.get? k = none) : props.lookup (ofString k) = none := by
  cases hlookup : props.lookup (ofString k) with
  | none => rfl
  | some v =>
    obtain ⟨k', b, hk', hget, _⟩ := h.sound _ ((lookup_eq_some h.nodup).mp hlookup)
    rw [ofString_inj.mp hk', hget] at hk
    cases hk

theorem Mirrors.isEmpty {props : List (JsString × α)} {m : SortedMap String β} (h : Mirrors R props m) :
    props.isEmpty = m.isEmpty := by
  rw [Bool.eq_iff_iff, List.isEmpty_iff, SortedMap.isEmpty_iff]
  constructor
  · rintro rfl k
    rw [get?_eq_none]
    exact fun hk => List.not_mem_nil (h.complete k hk)
  · intro hnone
    refine List.eq_nil_iff_forall_not_mem.mpr fun p hp => ?_
    obtain ⟨k, b, _, hget, _⟩ := h.sound p hp
    rw [hnone k] at hget
    cases hget

theorem bytewise_sorted (props : List (JsString × α)) :
    (bytewise props).Pairwise fun p q => byteValues p.1 ≤ byteValues q.1 :=
  haveI : Std.Total fun p q : JsString × α => byteValues p.1 ≤ byteValues q.1 := ⟨fun _ _ => le_total _ _⟩
  haveI : IsTrans (JsString × α) fun p q => byteValues p.1 ≤ byteValues q.1 := ⟨fun _ _ _ => le_trans⟩
  List.pairwise_insertionSort _ _

theorem bytewise_perm (props : List (JsString × α)) : (bytewise props).Perm props :=
  List.perm_insertionSort _ props

/-- The order of the bytes is the order of the map. -/
theorem Mirrors.bytewise_keys {props : List (JsString × α)} {m : SortedMap String β}
    (h : Mirrors R props m) : (bytewise props).map Prod.fst = m.keys.map ofString := by
  have hnodup : (m.keys.map ofString).Nodup :=
    m.keys_nodup.map fun _ _ heq => ofString_inj.mp heq
  have hsorted : ((bytewise props).map Prod.fst).Pairwise fun s t => byteValues s ≤ byteValues t :=
    List.pairwise_map.mpr (bytewise_sorted props)
  refine List.Perm.eq_of_pairwise ?_ hsorted ?_ ?_
  · intro s t hs ht hle hge
    obtain ⟨k, _, rfl⟩ := List.mem_map.mp ht
    obtain ⟨p, hp, rfl⟩ := List.mem_map.mp hs
    obtain ⟨k', _, hk', _⟩ := h.sound p ((bytewise_perm props).mem_iff.mp hp)
    rw [hk', byteValues_le] at hle hge
    rw [hk', le_antisymm hle hge]
  · exact List.pairwise_map.mpr (m.keys_ascending.imp fun hlt => byteValues_le.mpr hlt.le)
  · refine (List.perm_ext_iff_of_nodup ?_ hnodup).mpr fun s => ?_
    · rw [((bytewise_perm props).map Prod.fst).nodup_iff]
      exact h.nodup
    · rw [((bytewise_perm props).map Prod.fst).mem_iff]
      constructor
      · intro hs
        obtain ⟨p, hp, rfl⟩ := List.mem_map.mp hs
        obtain ⟨k, b, hk, hget, _⟩ := h.sound p hp
        rw [hk]
        exact List.mem_map_of_mem (mem_keys.mpr (by simp [hget]))
      · intro hs
        obtain ⟨k, hk, rfl⟩ := List.mem_map.mp hs
        exact h.complete k hk

theorem Mirrors.bytewise {props : List (JsString × α)} {m : SortedMap String β} (h : Mirrors R props m) :
    List.Forall₂ (fun p e => p.1 = ofString e.1 ∧ R p.2 e.2) (JavaScript.bytewise props) m.entries := by
  have hkeys : List.Forall₂ (fun (p : JsString × α) (e : String × β) => p.1 = ofString e.1)
      (JavaScript.bytewise props) m.entries := by
    have heq := h.bytewise_keys
    rw [keys, List.map_map, ← List.forall₂_eq_eq_eq, List.forall₂_map_left_iff,
      List.forall₂_map_right_iff] at heq
    exact heq
  rw [List.forall₂_iff_zip] at hkeys ⊢
  refine ⟨hkeys.1, fun {p e} hpe => ?_⟩
  have hname := hkeys.2 hpe
  obtain ⟨hp, he⟩ := List.of_mem_zip hpe
  obtain ⟨k, b, hk, hget, hR⟩ := h.sound p ((bytewise_perm props).mem_iff.mp hp)
  obtain rfl := ofString_inj.mp (hk.symm.trans hname)
  obtain rfl := Option.some.inj (hget.symm.trans (get?_eq_some.mpr he))
  exact ⟨hname, hR⟩

theorem Mirrors.empty : Mirrors R [] SortedMap.empty :=
  ⟨List.nodup_nil, fun _ hp => absurd hp List.not_mem_nil, fun _ hk => absurd hk List.not_mem_nil⟩

theorem Mirrors.set {props : List (JsString × α)} {m : SortedMap String β} (h : Mirrors R props m)
    (k : String) {v : α} {b : β} (hR : R v b) : Mirrors R (setProp props (ofString k) v) (m.insert k b) := by
  refine ⟨setProp_nodup h.nodup _ _, ?_, ?_⟩
  · rintro ⟨name, w⟩ hp
    rcases mem_setProp.mp hp with ⟨rfl, rfl⟩ | ⟨hne, hp⟩
    · exact ⟨k, b, rfl, by rw [get?_insert, if_pos rfl], hR⟩
    · obtain ⟨k', b', hk', hget, hR'⟩ := h.sound _ hp
      refine ⟨k', b', hk', ?_, hR'⟩
      rw [get?_insert, if_neg, hget]
      rintro rfl
      exact hne hk'
  · intro k' hk'
    have hmem : ∃ w, (ofString k', w) ∈ setProp props (ofString k) v := by
      by_cases heq : k' = k
      · exact ⟨v, mem_setProp.mpr (.inl ⟨by rw [heq], rfl⟩)⟩
      · obtain ⟨⟨name, w⟩, hp, rfl⟩ := List.mem_map.mp (h.complete k' ((mem_keys_insert.mp hk').resolve_left heq))
        exact ⟨w, mem_setProp.mpr (.inr ⟨mt ofString_inj.mp heq, hp⟩)⟩
    obtain ⟨w, hw⟩ := hmem
    exact List.mem_map_of_mem hw

theorem Mirrors.foldl {pairs : List (JsString × α)} {l : List (String × β)}
    (h : List.Forall₂ (fun p e => p.1 = ofString e.1 ∧ R p.2 e.2) pairs l)
    {props : List (JsString × α)} {m : SortedMap String β} (hm : Mirrors R props m) :
    Mirrors R (pairs.foldl (fun props e => setProp props e.1 e.2) props)
      (l.foldl (fun m e => m.insert e.1 e.2) m) := by
  induction h generalizing props m with
  | nil => exact hm
  | @cons p e _ _ hpe _ ih =>
    rw [List.foldl_cons, List.foldl_cons, hpe.1]
    exact ih (hm.set e.1 hpe.2)

theorem Mirrors.fromEntries {pairs : List (JsString × α)} {l : List (String × β)}
    (h : List.Forall₂ (fun p e => p.1 = ofString e.1 ∧ R p.2 e.2) pairs l) :
    Mirrors R (JavaScript.fromEntries pairs) (SortedMap.ofList l) :=
  Mirrors.foldl h Mirrors.empty

theorem Mirrors.imp {γ : Type} {S : α → γ → Prop} {props : List (JsString × α)} {m : SortedMap String β}
    {n : SortedMap String γ} (h : Mirrors R props m) (hkeys : ∀ k, k ∈ n.keys → k ∈ m.keys)
    (hRS : ∀ k b v, m.get? k = some b → R v b → ∃ c, n.get? k = some c ∧ S v c) : Mirrors S props n := by
  refine ⟨h.nodup, fun p hp => ?_, fun k hk => h.complete k (hkeys k hk)⟩
  obtain ⟨k, b, hk, hget, hR⟩ := h.sound p hp
  obtain ⟨c, hc, hS⟩ := hRS k b p.2 hget hR
  exact ⟨k, c, hk, hc, hS⟩

theorem Mirrors.and {P : α → Prop} {props : List (JsString × α)} {m : SortedMap String β}
    (h : Mirrors R props m) (hP : ∀ p ∈ props, P p.2) : Mirrors (fun v b => R v b ∧ P v) props m := by
  refine ⟨h.nodup, fun p hp => ?_, h.complete⟩
  obtain ⟨k, b, hk, hget, hR⟩ := h.sound p hp
  exact ⟨k, b, hk, hget, hR, hP p hp⟩

end Mirrors

/-! ## Amounts -/

def ReadsString (v : Js) (s : String) : Prop := v = Js.string s

def ReadsAmount (v : Js) (a : U128) : Prop := ∃ s, v = Js.string s ∧ Amount.parseAmount18dp s = .ok a

def ReadsAmounts (v : Js) (m : AmountMap) : Prop := ∃ props, v = .obj props ∧ Mirrors ReadsAmount props m

theorem mirrors_of_map {α : Type} {c : Codec α} {R : Js → α → Prop}
    (hR : ∀ j a, c.decode j = some a → R (Js.ofJson j) a) {j : Json} {m : SortedMap String α}
    (h : (Codec.map c).decode j = some m) : ∃ props, Js.ofJson j = .obj props ∧ Mirrors R props m := by
  obtain ⟨entries, l, rfl, hentries, rfl⟩ := map_decode.mp h
  refine ⟨_, rfl, Mirrors.fromEntries ?_⟩
  rw [ofMembers_eq_map, List.forall₂_map_left_iff]
  exact hentries.imp fun e x h => ⟨congrArg ofString h.1, hR e.2 x.2 h.2⟩

theorem readsString_of_decode {j : Json} {s : String} (h : Codec.string.decode j = some s) :
    ReadsString (Js.ofJson j) s := by
  rw [string_decode.mp h]
  rfl

theorem readsAmounts_of_decode {j : Json} {m : AmountMap} (h : Wire.amountMap.decode j = some m) :
    ReadsAmounts (Js.ofJson j) m := by
  obtain ⟨raw, hraw, hparse⟩ := refine_decode.mp h
  obtain ⟨props, hprops, hmirrors⟩ := mirrors_of_map
    (fun _ _ => readsString_of_decode) hraw
  have hparse := toOption_eq_some.mp hparse
  refine ⟨props, hprops, hmirrors.imp (fun k hk => traverse_keys hparse ▸ hk) fun k s v hs hv => ?_⟩
  obtain ⟨a, ha, has⟩ := traverse_some hparse hs
  exact ⟨a, ha, s, hv, has⟩

theorem parseAmount18dp_reads {v : Js} {a : U128} (h : ReadsAmount v a) :
    Browser.parseAmount18dp v = .ok (a.val : ℤ) := by
  obtain ⟨s, rfl, hs⟩ := h
  exact AmountTexts.parseAmount18dp_of_ok hs

theorem lp_string (s : String) : Browser.lp (Js.string s) = .ok (AssuranceLayer.lp s) := by
  simp [Browser.lp, Js.encode, Js.string, Js.text, Browser.lpBytes, AssuranceLayer.lp]

theorem lpmap_reads {v : Js} {m : AmountMap} (h : ReadsAmounts v m) :
    Browser.lpmap v = .ok (Sums.lpmap m) := by
  obtain ⟨props, rfl, hm⟩ := h
  have hparts : (bytewise props).mapM (fun e => do
      let amount ← Browser.formatAmount18dp (← Browser.parseAmount18dp e.2)
      return Browser.lpBytes (encode e.1) ++ Browser.lpBytes (encode amount)) =
      .ok (m.entries.map fun e => lp e.1 ++ lp (Amount.formatAmount18dp e.2)) := by
    rw [mapM_eq_ok, List.forall₂_map_right_iff]
    refine hm.bytewise.imp fun p e hpe => ?_
    rw [parseAmount18dp_reads hpe.2, ok_bind, AmountTexts.formatAmount18dp_val, ok_bind, hpe.1,
      encode_ofString, encode_ofString]
    rfl
  have hlen := hm.bytewise.length_eq
  simp only [Browser.lpmap, Js.entries, ok_bind, hparts, hlen]
  rw [Sums.lpmap, List.flatMap]
  rfl

/-! ## Reports -/

structure ReadsDisclosures (v : Js) (d : Disclosures) : Prop where
  object : IsObject v
  badDebt : ReadsAmounts (v.prop "bad_debt") d.badDebt
  excludedHouseAccounts : v.prop "excluded_house_accounts" = .num (ofNat d.excludedHouseAccounts.val)
  excludedHouseTotals : ReadsAmounts (v.prop "excluded_house_totals") d.excludedHouseTotals

def ReadsState (v : Js) (d : Disclosure) : Prop := v = Js.string d.asStr

structure ReadsManifest (v : Js) (m : Manifest) : Prop where
  object : IsObject v
  audience : v.prop "audience" = Js.string m.audience
  fields : ∃ props, v.prop "fields" = .obj props ∧ Mirrors ReadsState props m.fields

/-- No manifest is spelled by leaving it out, or by null. -/
def ReadsOptionalManifest (v : Js) : Option Manifest → Prop
  | none => v = .undefined ∨ v = .null
  | some m => ReadsManifest v m

structure ReadsReport (v : Js) (r : Report) : Prop where
  object : IsObject v
  formatVersion : v.prop "format_version" = Js.string r.formatVersion
  profile : v.prop "profile" = Js.string r.profile
  publisher : v.prop "publisher" = Js.string r.publisher
  snapshotTime : v.prop "snapshot_time" = Js.string r.snapshotTime
  ledgerOffset : v.prop "ledger_offset" = Js.string r.ledgerOffset
  rootHash : v.prop "root_hash" = Js.string r.rootHash
  leafCount : v.prop "leaf_count" = .num (ofNat r.leafCount.val)
  rootSums : ReadsAmounts (v.prop "root_sums") r.rootSums
  markPrices : ReadsAmounts (v.prop "mark_prices") r.markPrices
  disclosures : ReadsDisclosures (v.prop "disclosures") r.disclosures
  manifest : ReadsOptionalManifest (v.prop "manifest") r.manifest

/-- A count as a double, taken modulo `2^64`. -/
def readCount (n : U64) : U64 := asU64 ((ofNat n.val).toInt?.getD 0).toNat

/-- The report with its two counts as they are read. -/
def asRead (r : Report) : Report :=
  { r with
    leafCount := readCount r.leafCount
    disclosures := { r.disclosures with
      excludedHouseAccounts := readCount r.disclosures.excludedHouseAccounts } }

theorem ofNat_natural (n : U64) : ∃ k : ℕ, ofNat n.val = .finite k := by
  by_cases h : n.val < 2 ^ 53
  · exact ⟨n.val, Binary64.ofNat_of_lt h⟩
  · obtain ⟨k, hk, _⟩ := Binary64.ofNat_of_le (not_lt.mp h) n.isLt
    exact ⟨k, hk⟩

theorem toBigInt_count (n : U64) :
    ((Js.num (ofNat n.val)).toBigInt : Browser.Throws ℤ) = .ok ((ofNat n.val).toInt?.getD 0) := by
  obtain ⟨k, hk⟩ := ofNat_natural n
  rw [hk]
  rfl

theorem u64leOf_count (n : U64) : Browser.u64leOf (.num (ofNat n.val)) = .ok (u64le (readCount n).val) := by
  obtain ⟨k, hk⟩ := ofNat_natural n
  rw [Browser.u64leOf, toBigInt_count, readCount, hk]
  rfl

theorem readCount_of_lt {n : U64} (h : n.val < 2 ^ 53) : readCount n = n := by
  rw [readCount, Binary64.ofNat_of_lt h]
  exact Fin.ext (Nat.mod_eq_of_lt n.isLt)

theorem manifestSection_reads {v : Js} {m : Manifest} (h : ReadsManifest v m) :
    Browser.manifestSection v = .ok (Digest.manifestSection m) := by
  obtain ⟨props, hprops, hm⟩ := h.fields
  have hparts : (bytewise props).mapM (fun e => do
      let state ← Browser.lp e.2
      return Browser.lpBytes (encode e.1) ++ state) =
      .ok (m.fields.entries.map fun e => lp e.1 ++ lp e.2.asStr) := by
    rw [mapM_eq_ok, List.forall₂_map_right_iff]
    refine hm.bytewise.imp fun p e hpe => ?_
    rw [hpe.2, lp_string, ok_bind, hpe.1, encode_ofString]
    rfl
  have hlen := hm.bytewise.length_eq
  simp only [Browser.manifestSection, h.object.get, ok_bind, h.audience, lp_string, hprops,
    Browser.entriesOf, hparts, hlen]
  rw [Digest.manifestSection, List.flatMap]
  rfl

theorem is_string {s t : String} : (Js.string s).is (ofString t) = true ↔ s = t := by
  rw [Js.is, Js.string, Js.strictEq, decide_eq_true_eq, ofString_inj]

theorem manifestTail_reads {v : Js} {r : Report} (h : ReadsOptionalManifest v r.manifest) :
    (if (Js.string r.formatVersion).is Browser.reportFormatVersionV2 && v.truthy then
      Browser.manifestSection v else .ok []) = .ok (Digest.manifestTail r) := by
  have hversion : (Js.string r.formatVersion).is Browser.reportFormatVersionV2 =
      decide (r.formatVersion = reportFormatVersionV2) := by
    rw [Bool.eq_iff_iff, decide_eq_true_eq]
    exact is_string
  rw [hversion, Digest.manifestTail]
  cases hm : r.manifest with
  | none =>
    rw [hm] at h
    obtain rfl | rfl := h <;> simp [Js.truthy]
  | some m =>
    rw [hm] at h
    have h : ReadsManifest v m := h
    rw [h.object.truthy, Bool.and_true, manifestSection_reads h]
    by_cases hv : r.formatVersion = reportFormatVersionV2 <;> simp [hv]

theorem reportPreimage_reads {v : Js} {r : Report} (h : ReadsReport v r) :
    Browser.reportPreimage v = .ok (Digest.reportPreimage (asRead r)) := by
  have hd := h.disclosures
  have hdomain : (if (Js.string r.formatVersion).is Browser.reportFormatVersionV2 = true then
      "rocky-solvency-report-v2" else "rocky-solvency-report-v1") =
      if r.formatVersion = reportFormatVersionV2 then Digest.reportDigestDomainV2
        else Digest.reportDigestDomain :=
    if_congr is_string rfl rfl
  simp only [Browser.reportPreimage, h.object.get, hd.object.get, ok_bind, h.formatVersion, h.profile,
    h.publisher, h.snapshotTime, h.ledgerOffset, h.rootHash, h.leafCount, lp_string,
    lpmap_reads h.rootSums, lpmap_reads h.markPrices, lpmap_reads hd.badDebt,
    hd.excludedHouseAccounts, u64leOf_count, lpmap_reads hd.excludedHouseTotals,
    manifestTail_reads h.manifest, hdomain]
  rfl

variable {sha256 : List UInt8 → Digest}

theorem reportDigestHex_reads {v : Js} {r : Report} (h : ReadsReport v r) :
    Browser.reportDigestHex sha256 v = .ok (ofString (Digest.reportDigestHex sha256 (asRead r))) := by
  rw [Browser.reportDigestHex, reportPreimage_reads h]
  rfl

/-! ## Documents that decode -/

structure ReadsSignature (v : Js) (b : SignatureBlock) : Prop where
  object : IsObject v
  algorithm : v.prop "algorithm" = Js.string b.algorithm
  publicKey : v.prop "public_key" = Js.string b.publicKey
  value : v.prop "value" = Js.string b.value

structure ReadsSigned (v : Js) (s : SignedReport) : Prop where
  object : IsObject v
  report : ReadsReport (v.prop "report") s.report
  signature : ReadsSignature (v.prop "signature") s.signature

/-- The value is parsed from JSON that decodes. -/
def ReadFrom {α : Type} (c : Codec α) (v : Js) (a : α) : Prop := ∃ j, v = Js.ofJson j ∧ c.decode j = some a

/-- A record that is read from an object is read from the object's members. -/
theorem members_of_decode {α : Type} {F : Fields α} {h : F.names.Nodup} {j : Json} {a : α}
    (hread : (Codec.record F h).decode j = some a) (hobject : IsObject (Js.ofJson j)) :
    ∃ entries, j = .obj entries ∧ (entries.map Prod.fst).Nodup ∧
      F.read (fun n => entries.lookup n) = some a := by
  obtain ⟨entries, rfl⟩ := obj_of_isObject hobject
  obtain ⟨_, h'⟩ | ⟨_, ⟨rfl⟩, hnodup, -, hread⟩ := record_decode hread
  · cases h'
  · exact ⟨entries, rfl, hnodup, hread⟩

theorem readDisclosure_asStr (d : Disclosure) : Wire.readDisclosure d.asStr = some d := by
  cases d <;> rfl

theorem readsState_of_decode {j : Json} {d : Disclosure} (h : Wire.disclosure.decode j = some d)
    (htype : Browser.IsDisclosure (Js.ofJson j)) : ReadsState (Js.ofJson j) d := by
  obtain ⟨e, he⟩ : ∃ e : Disclosure, Js.ofJson j = Js.string e.asStr := by
    obtain h | h | h := htype
    · exact ⟨.published, h⟩
    · exact ⟨.committed, h⟩
    · exact ⟨.withheld, h⟩
  cases j with
  | str s =>
    obtain rfl := ofString_inj.mp (Js.str.inj he)
    obtain rfl := Option.some.inj ((readDisclosure_asStr e).symm.trans h)
    rfl
  | _ => cases he

theorem readsManifest_of_decode {j : Json} {m : Manifest} (h : Wire.manifest.decode j = some m)
    (htype : Browser.IsManifest (Js.ofJson j)) : ReadsManifest (Js.ofJson j) m := by
  obtain ⟨entries, rfl, hnodup, hread⟩ := members_of_decode h htype.object
  simp only [Fields.iso_read, Fields.both_read, Fields.field_read, string_decode, exists_eq_right] at hread
  obtain ⟨⟨audience, fields⟩, ⟨haudience, jf, hlookup, hfields⟩, rfl⟩ := hread
  have hprop := prop_of_lookup hnodup hlookup
  obtain ⟨props, hprops, hstates⟩ := htype.fields
  have hfrom : ∀ j d, Wire.disclosure.decode j = some d → ReadFrom Wire.disclosure (Js.ofJson j) d :=
    fun j _ hd => ⟨j, rfl, hd⟩
  obtain ⟨props', hprops', hmirrors⟩ := mirrors_of_map hfrom hfields
  obtain rfl := Js.obj.inj (hprops.symm.trans (hprop.trans hprops'))
  refine ⟨htype.object, prop_of_lookup hnodup haudience, props, hprops, ?_⟩
  refine (hmirrors.and hstates).imp (fun _ hk => hk) fun k d v hd hv => ⟨d, hd, ?_⟩
  obtain ⟨⟨j, rfl, hj⟩, htype⟩ := hv
  exact readsState_of_decode hj htype

theorem readsDisclosures_of_decode {j : Json} {d : Disclosures} (h : Wire.disclosures.decode j = some d)
    (hobject : IsObject (Js.ofJson j)) : ReadsDisclosures (Js.ofJson j) d := by
  obtain ⟨entries, rfl, hnodup, hread⟩ := members_of_decode h hobject
  simp only [Fields.iso_read, Fields.both_read, Fields.field_read, number_decode, exists_eq_right] at hread
  obtain ⟨⟨badDebt, accounts, totals⟩, ⟨⟨jb, hjb, hb⟩, ha, jt, hjt, ht⟩, rfl⟩ := hread
  exact ⟨hobject, prop_of_lookup hnodup hjb ▸ readsAmounts_of_decode hb, prop_of_lookup hnodup ha,
    prop_of_lookup hnodup hjt ▸ readsAmounts_of_decode ht⟩

theorem readsReport_of_decode {j : Json} {r : Report} (h : Wire.report.decode j = some r)
    (htype : Browser.IsReport (Js.ofJson j)) : ReadsReport (Js.ofJson j) r := by
  obtain ⟨entries, rfl, hnodup, hread⟩ := members_of_decode h htype.object
  simp only [Fields.iso_read, Fields.both_read, Fields.field_read, string_decode, number_decode,
    exists_eq_right] at hread
  obtain ⟨⟨fv, pr, pb, st, lo, rh, lc, rs, mp, ds, mf⟩, ⟨hfv, hpr, hpb, hst, hlo, hrh, hlc,
    ⟨jr, hjr, hr⟩, ⟨jm, hjm, hm⟩, ⟨jd, hjd, hd⟩, hmf⟩, rfl⟩ := hread
  have hdisclosures := htype.disclosures.object
  rw [prop_of_lookup hnodup hjd] at hdisclosures
  have hmanifest : ReadsOptionalManifest ((Js.ofJson (.obj entries)).prop "manifest") mf := by
    obtain ⟨rfl, hnone | hnull⟩ | ⟨jmf, m, rfl, hne, hjmf, hmf⟩ := Fields.optional_read.mp hmf
    · exact .inl (prop_of_absent hnodup hnone)
    · exact .inr (prop_of_lookup hnodup hnull)
    · have hprop := prop_of_lookup hnodup hjmf
      have htype := htype.manifest
      rw [hprop] at htype ⊢
      refine readsManifest_of_decode hmf (htype.resolve_left ?_)
      cases jmf <;> exact fun h => nomatch h
  exact ⟨htype.object, prop_of_lookup hnodup hfv, prop_of_lookup hnodup hpr, prop_of_lookup hnodup hpb,
    prop_of_lookup hnodup hst, prop_of_lookup hnodup hlo, prop_of_lookup hnodup hrh,
    prop_of_lookup hnodup hlc, prop_of_lookup hnodup hjr ▸ readsAmounts_of_decode hr,
    prop_of_lookup hnodup hjm ▸ readsAmounts_of_decode hm,
    prop_of_lookup hnodup hjd ▸ readsDisclosures_of_decode hd hdisclosures, hmanifest⟩

theorem readsSignature_of_decode {j : Json} {b : SignatureBlock}
    (h : Wire.signatureBlock.decode j = some b) (hobject : IsObject (Js.ofJson j)) :
    ReadsSignature (Js.ofJson j) b := by
  obtain ⟨entries, rfl, hnodup, hread⟩ := members_of_decode h hobject
  simp only [Fields.iso_read, Fields.both_read, Fields.field_read, string_decode, exists_eq_right] at hread
  obtain ⟨⟨_, _, _⟩, ⟨ha, hp, hv⟩, rfl⟩ := hread
  exact ⟨hobject, prop_of_lookup hnodup ha, prop_of_lookup hnodup hp, prop_of_lookup hnodup hv⟩

theorem readsSigned_of_decode {j : Json} {s : SignedReport} (h : Wire.signedReport.decode j = some s)
    (htype : Browser.IsSignedReport (Js.ofJson j)) : ReadsSigned (Js.ofJson j) s := by
  obtain ⟨entries, rfl, hnodup, hread⟩ := members_of_decode h htype.object
  simp only [Fields.iso_read, Fields.both_read, Fields.field_read] at hread
  obtain ⟨⟨_, _⟩, ⟨⟨jr, hjr, hr⟩, js, hjs, hs⟩, rfl⟩ := hread
  have hreport := htype.report
  have hsignature := htype.signature.object
  rw [prop_of_lookup hnodup hjr] at hreport
  rw [prop_of_lookup hnodup hjs] at hsignature
  exact ⟨htype.object, prop_of_lookup hnodup hjr ▸ readsReport_of_decode hr hreport,
    prop_of_lookup hnodup hjs ▸ readsSignature_of_decode hs hsignature⟩

end AssuranceLayer.Reading
