import AssuranceLayer.LeafAgreement

set_option autoImplicit false

/-!
The comparison the browser sorts keys with. On texts it is the order of their UTF-8 bytes, in which the
producer's maps run through their keys, although the browser's strings are UTF-16.
-/
namespace AssuranceLayer.KeyOrder
open Fallible Utf16 JavaScript Reading SumAgreement LeafAgreement Merkle SortedMap
open Sums (AmountMap)

/-! ## Byte strings -/

/-- The difference of the first two bytes that differ, or that of the lengths. -/
def firstDifference (x y : List UInt8) : ℤ :=
  match (x.zip y).find? fun p => p.1 ≠ p.2 with
  | some p => p.1.toNat - p.2.toNat
  | none => x.length - y.length

def bytewiseCompare (a b : JsString) : ℤ := firstDifference (encode a) (encode b)

/-- `String::cmp`, byte by byte. -/
def stringCmp (s t : String) : Ordering := compare (utf8 s) (utf8 t)

/-- The canonical text of an object of amounts. -/
def canonicalBalances (balances : Js) : Browser.Throws JsString := do
  Browser.canonicalSums (← Browser.parseSums balances)

/-- What a sort by a comparison leaves, whatever way it goes. -/
structure SortedBy {α : Type} (cmp : α → α → ℤ) (l sorted : List α) : Prop where
  perm : sorted.Perm l
  ordered : sorted.Pairwise fun a b => cmp a b ≤ 0

theorem firstDifference_cons (a b : UInt8) (x y : List UInt8) :
    firstDifference (a :: x) (b :: y) = if a = b then firstDifference x y else (a.toNat : ℤ) - b.toNat := by
  rw [firstDifference, List.zip_cons_cons, List.find?_cons]
  by_cases hab : a = b
  · rw [if_pos hab, firstDifference]
    simp [hab]
  · simp [hab]

theorem firstDifference_nil (y : List UInt8) : firstDifference [] y = -(y.length : ℤ) := by
  simp [firstDifference]

theorem firstDifference_cons_nil (a : UInt8) (x : List UInt8) : firstDifference (a :: x) [] = x.length + 1 := by
  simp [firstDifference]

theorem firstDifference_antisymm (x y : List UInt8) : firstDifference y x = -firstDifference x y := by
  induction x generalizing y with
  | nil =>
    cases y with
    | nil => rfl
    | cons b y =>
      rw [firstDifference_nil, firstDifference_cons_nil, neg_neg, List.length_cons, Nat.cast_succ]
  | cons a x ih =>
    cases y with
    | nil =>
      rw [firstDifference_nil, firstDifference_cons_nil, List.length_cons, Nat.cast_succ]
    | cons b y =>
      rw [firstDifference_cons, firstDifference_cons]
      by_cases hab : a = b
      · rw [if_pos hab, if_pos hab.symm, ih]
      · rw [if_neg hab, if_neg (Ne.symm hab)]
        omega

theorem firstDifference_neg_iff {x y : List UInt8} :
    firstDifference x y < 0 ↔ x.map UInt8.toNat < y.map UInt8.toNat := by
  induction x generalizing y with
  | nil =>
    rw [firstDifference_nil]
    cases y with
    | nil => simp
    | cons b y => exact iff_of_true (by simp only [List.length_cons]; omega) (List.nil_lt_cons _ _)
  | cons a x ih =>
    cases y with
    | nil =>
      rw [firstDifference_cons_nil]
      exact iff_of_false (by omega) (List.not_lt_nil _)
    | cons b y =>
      rw [firstDifference_cons, List.map_cons, List.map_cons, List.cons_lt_cons_iff, UInt8.toNat_inj, ← ih]
      by_cases hab : a = b
      · simp [hab]
      · simp only [hab, if_false, false_and, or_false]
        omega

/-- On bytes, the sign of the difference is their order. -/
theorem compare_byte (a b : UInt8) : compare a b = compare ((a.toNat : ℤ) - b.toNat) 0 := by
  obtain hlt | heq | hgt := lt_trichotomy a.toNat b.toNat
  · rw [compare_lt_iff_lt.mpr (by omega : (a.toNat : ℤ) - b.toNat < 0)]
    exact if_pos (UInt8.lt_iff_toNat_lt.mpr hlt)
  · obtain rfl := UInt8.toNat_inj.mp heq
    simp
  · rw [compare_gt_iff_gt.mpr (by omega : (a.toNat : ℤ) - b.toNat > 0)]
    have hnot : ¬ a < b := fun h => by
      rw [UInt8.lt_iff_toNat_lt] at h
      omega
    have hne : a ≠ b := fun h => by
      rw [h] at hgt
      exact lt_irrefl _ hgt
    exact (if_neg hnot).trans (if_neg hne)

theorem compare_firstDifference (x y : List UInt8) : compare (firstDifference x y) 0 = compare x y := by
  induction x generalizing y with
  | nil =>
    rw [firstDifference_nil]
    cases y with
    | nil => simp
    | cons b y =>
      rw [List.compare_nil_cons, List.length_cons]
      exact compare_lt_iff_lt.mpr (by omega)
  | cons a x ih =>
    cases y with
    | nil =>
      rw [firstDifference_cons_nil, List.compare_cons_nil]
      exact compare_gt_iff_gt.mpr (by omega)
    | cons b y =>
      rw [firstDifference_cons, List.compare_cons_cons, ← ih]
      by_cases hab : a = b
      · rw [if_pos hab, hab, compare_byte, sub_self]
        simp
      · have hne : (a.toNat : ℤ) - b.toNat ≠ 0 := fun h => hab (UInt8.toNat_inj.mp (by omega))
        rw [if_neg hab, ← compare_byte]
        cases hcmp : compare a b with
        | lt => rfl
        | gt => rfl
        | eq =>
          rw [compare_byte, compare_eq_iff_eq] at hcmp
          exact absurd hcmp hne

/-! ## Keys -/

theorem bytewiseCompare_antisymm (a b : JsString) : bytewiseCompare b a = -bytewiseCompare a b :=
  firstDifference_antisymm _ _

theorem bytewiseCompare_neg_iff {a b : JsString} : bytewiseCompare a b < 0 ↔ byteValues a < byteValues b :=
  firstDifference_neg_iff

theorem bytewiseCompare_le_iff {a b : JsString} : bytewiseCompare a b ≤ 0 ↔ byteValues a ≤ byteValues b := by
  rw [← not_lt, ← not_lt, ← bytewiseCompare_neg_iff, bytewiseCompare_antisymm a b, neg_lt_zero]

theorem bytewiseCompare_eq_zero_iff {s t : String} :
    bytewiseCompare (ofString s) (ofString t) = 0 ↔ s = t := by
  have hle := bytewiseCompare_le_iff (a := ofString s) (b := ofString t)
  have hge := bytewiseCompare_le_iff (a := ofString t) (b := ofString s)
  rw [byteValues_le] at hle hge
  rw [bytewiseCompare_antisymm] at hge
  rw [le_antisymm_iff (a := s), ← hle, ← hge]
  omega

theorem compare_bytewiseCompare (s t : String) :
    compare (bytewiseCompare (ofString s) (ofString t)) 0 = stringCmp s t := by
  rw [bytewiseCompare, encode_ofString, encode_ofString, compare_firstDifference, stringCmp]

/-- The order of the bytes is that of the code points, in which a map runs through its keys. -/
theorem stringCmp_eq_compare (s t : String) : stringCmp s t = compare s t := by
  rw [← compare_bytewiseCompare]
  obtain hlt | rfl | hgt := lt_trichotomy s t
  · rw [compare_lt_iff_lt.mpr hlt]
    exact compare_lt_iff_lt.mpr (bytewiseCompare_neg_iff.mpr (byteValues_lt.mpr hlt))
  · rw [bytewiseCompare_eq_zero_iff.mpr rfl, compare_eq_iff_eq.mpr rfl, compare_eq_iff_eq.mpr rfl]
  · have hneg := bytewiseCompare_neg_iff.mpr (byteValues_lt.mpr hgt)
    rw [bytewiseCompare_antisymm] at hneg
    rw [compare_gt_iff_gt.mpr hgt]
    exact compare_gt_iff_gt.mpr (by omega)

section
variable {α β : Type}

/-- However the keys of a map stand, sorting them gives the order of the map. -/
theorem sorted_keys {m : SortedMap String β} {keys sorted : List JsString}
    (hkeys : keys.Perm (m.keys.map ofString)) (h : SortedBy bytewiseCompare keys sorted) :
    sorted = m.keys.map ofString := by
  have hperm := h.perm.trans hkeys
  refine List.Perm.eq_of_pairwise ?_ h.ordered ?_ hperm
  · intro a b ha hb hle hge
    obtain ⟨s, -, rfl⟩ := List.mem_map.mp (hperm.mem_iff.mp ha)
    obtain ⟨t, -, rfl⟩ := List.mem_map.mp hb
    rw [bytewiseCompare_le_iff, byteValues_le] at hle hge
    rw [le_antisymm hle hge]
  · refine List.pairwise_map.mpr (m.keys_ascending.imp fun hlt => ?_)
    exact (bytewiseCompare_neg_iff.mpr (byteValues_lt.mpr hlt)).le

/-- The entries the encodings go through are sorted by the comparison. -/
theorem bytewise_sortedBy (entries : List (JsString × α)) :
    SortedBy bytewiseCompare (entries.map Prod.fst) ((bytewise entries).map Prod.fst) where
  perm := (bytewise_perm entries).map Prod.fst
  ordered := List.pairwise_map.mpr ((bytewise_sorted entries).imp fun h => bytewiseCompare_le_iff.mpr h)

end

/-- Orders texts as `String::cmp` does, and as the maps of the producer do. -/
structure OrdersTexts (cmp : JsString → JsString → ℤ) : Prop where
  sign : ∀ s t : String, compare (cmp (ofString s) (ofString t)) 0 = stringCmp s t
  maps : ∀ s t : String, stringCmp s t = compare s t
  equal : ∀ s t : String, cmp (ofString s) (ofString t) = 0 ↔ s = t
  antisymm : ∀ s t : String, cmp (ofString t) (ofString s) = -cmp (ofString s) (ofString t)
  trans : ∀ s t u : String, cmp (ofString s) (ofString t) ≤ 0 → cmp (ofString t) (ofString u) ≤ 0 →
    cmp (ofString s) (ofString u) ≤ 0

theorem bytewiseCompare_ordersTexts : OrdersTexts bytewiseCompare where
  sign := compare_bytewiseCompare
  maps := stringCmp_eq_compare
  equal := fun _ _ => bytewiseCompare_eq_zero_iff
  antisymm := fun _ _ => bytewiseCompare_antisymm _ _
  trans := fun s t u hst htu => by
    rw [bytewiseCompare_le_iff] at *
    exact hst.trans htu

theorem canonicalBalances_reads {v : Js} {m : AmountMap} (h : ReadsAmounts v m) :
    canonicalBalances v = .ok (ofString (Canonical.sumsCanonical m)) := by
  obtain ⟨sums, hsums, hholds⟩ := parseSums_reads h
  rw [canonicalBalances, hsums, ok_bind, canonicalSums_holds hholds]

/-- The comparison is the producer's order, so a sort of the keys of a map lists them as the producer does,
and the encodings over sorted keys come out alike. -/
theorem key_order_agrees (sha256 : List UInt8 → Digest) :
    OrdersTexts bytewiseCompare ∧
    (∀ (β : Type) (m : SortedMap String β) (keys sorted : List JsString), keys.Perm (m.keys.map ofString) →
      SortedBy bytewiseCompare keys sorted → sorted = m.keys.map ofString) ∧
    (∀ (α : Type) (entries : List (JsString × α)),
      SortedBy bytewiseCompare (entries.map Prod.fst) ((bytewise entries).map Prod.fst)) ∧
    (∀ (sums : Browser.Sums) (m : AmountMap), Holds sums m →
      Browser.canonicalSums sums = .ok (ofString (Canonical.sumsCanonical m))) ∧
    (∀ (v : Js) (m : AmountMap), ReadsAmounts v m →
      canonicalBalances v = .ok (ofString (Canonical.sumsCanonical m)) ∧
      Browser.lpmap v = .ok (Sums.lpmap m)) ∧
    ∀ (v : Js) (maps : Maps), ReadsMaps v maps → SafeMaps maps →
      ∀ (saltHex subjectId : String) (salt : Bytes 32), hexDecodeN 32 saltHex = some salt →
        Browser.leafHashV2Hex sha256 (Js.string saltHex) (Js.string subjectId) v =
          .ok (Browser.hashHex sha256 (Merkle.leafPreimageV2 sha256 salt subjectId maps)) :=
  ⟨bytewiseCompare_ordersTexts, fun _ _ _ _ => sorted_keys, fun _ => bytewise_sortedBy,
    fun _ _ => canonicalSums_holds, fun _ _ hv => ⟨canonicalBalances_reads hv, lpmap_reads hv⟩,
    fun _ _ hv hsafe _ _ _ hsalt => leafHashV2Hex_reads hv hsafe hsalt⟩

/-- U+FF5E and U+10000, which the UTF-16 units order the other way round. -/
def astralNames : List (String × U128) := [("～", 1), ("𐀀", 2)]

def astralBalances : Js :=
  .obj (fromEntries [(ofString "𐀀", Js.string "0.000000000000000002"),
    (ofString "～", Js.string "0.000000000000000001")])

theorem astralBalances_reads : ReadsAmounts astralBalances (ofList astralNames.reverse) :=
  ⟨_, rfl, Mirrors.fromEntries (.cons ⟨rfl, _, rfl, by decide +kernel⟩
    (.cons ⟨rfl, _, rfl, by decide +kernel⟩ .nil))⟩

example : unitValues (ofString "𐀀") < unitValues (ofString "～") := by decide

def oneAmount : Js := .obj (fromEntries [(ofString "USDA", Js.string "0.000000000000000001")])

theorem oneAmount_reads : ReadsAmounts oneAmount (ofList [("USDA", 1)]) :=
  ⟨_, rfl, Mirrors.fromEntries (.cons ⟨rfl, _, rfl, by decide +kernel⟩ .nil)⟩

def twoMaps : Js := .obj (fromEntries [(ofString "exposure", oneAmount), (ofString "collateral", oneAmount)])

def twoMapsRead : Maps := ofList [("exposure", ofList [("USDA", 1)]), ("collateral", ofList [("USDA", 1)])]

theorem twoMaps_reads : ReadsMaps twoMaps twoMapsRead :=
  ⟨_, rfl, Mirrors.fromEntries (.cons ⟨rfl, oneAmount_reads⟩ (.cons ⟨rfl, oneAmount_reads⟩ .nil))⟩

theorem key_order_agrees_astral :
    compare (bytewiseCompare (ofString "～") (ofString "𐀀")) 0 = .lt ∧
    (∀ sorted, SortedBy bytewiseCompare [ofString "𐀀", ofString "～"] sorted →
      sorted = [ofString "～", ofString "𐀀"]) ∧
    canonicalBalances astralBalances =
      .ok (ofString "～:0.000000000000000001|𐀀:0.000000000000000002") ∧
    Browser.lpmap astralBalances = .ok (Sums.lpmap (ofList astralNames)) ∧
    Browser.leafHashV2Hex Sha256.sha256 (Js.string (hexEncode (List.replicate 32 0))) (Js.string "leg-1") twoMaps =
      .ok (Browser.hashHex Sha256.sha256
        (Merkle.leafPreimageV2 Sha256.sha256 (List.Vector.replicate 32 0) "leg-1" twoMapsRead)) := by
  obtain ⟨horders, hsorted, -, -, hencode, hleaf⟩ := key_order_agrees Sha256.sha256
  have hkeys : (ofList astralNames).keys.map ofString = [ofString "～", ofString "𐀀"] := by decide +kernel
  have hmap : ofList astralNames.reverse = ofList astralNames := by decide +kernel
  obtain ⟨htext, hbytes⟩ := hencode _ _ astralBalances_reads
  rw [hmap] at htext hbytes
  refine ⟨(horders.sign _ _).trans (by decide +kernel), fun sorted h => ?_, ?_, hbytes, ?_⟩
  · rw [← hkeys]
    refine hsorted _ (ofList astralNames) _ sorted ?_ h
    rw [hkeys]
    exact .swap _ _ _
  · rw [htext]
    decide +kernel
  · exact hleaf _ _ twoMaps_reads (by unfold SafeMaps; decide +kernel) _ _ _ (by decide +kernel)

end AssuranceLayer.KeyOrder
